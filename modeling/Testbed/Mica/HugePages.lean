import Testbed.Mica.Pools

/-! # Shared huge pages

`hugetlbfs_shm.cc`.  An entry has pages, and gives them back when it is scheduled for release and
its last mapping is gone.  A mapping that is gone has the null address, and so `unmap` takes it for
a mapping of the null pointer (`unmap_unknown_iff`).
-/
namespace Testbed.Mica

namespace HugetlbfsShm

def kPageSize : Nat := 2 * 1048576

/-- `HugeTLBFS_SHM::Page`: what `check_release` does with a page. -/
structure Page where
  inUse : Bool

structure Entry where
  refcount : Nat
  toRemove : Bool
  length : Nat
  numPages : Nat
  pageIds : List Nat

/-- A mapping; a null address is 0. -/
structure Mapping where
  entryId : Nat
  addr : Nat

end HugetlbfsShm

open HugetlbfsShm

/-- `HugeTLBFS_SHM`. -/
structure HugetlbfsShm where
  pages : List Page
  entries : List Entry
  mappings : List Mapping
  usedMemory : Nat

namespace HugetlbfsShm
variable (s : HugetlbfsShm)

def setInUse (pages : List Page) (ids : List Nat) (inUse : Bool) : List Page :=
  ids.foldl (fun pages id => pages.modify id fun p => { p with inUse }) pages

/-- `check_release` of an entry.  The memory in use is reduced by the number of pages that it has
after it has been cleared. -/
def checkRelease (entryId : Nat) (e : Entry) : Except Fault HugetlbfsShm :=
  if e.refcount = 0 ∧ e.toRemove then
    if e.pageIds.length < e.numPages ∨ ∃ id ∈ e.pageIds.take e.numPages, s.pages.length ≤ id then
      .error .invalidPointer
    else
      .ok { s with
        pages := setInUse s.pages (e.pageIds.take e.numPages) false
        entries := s.entries.set entryId ⟨0, false, 0, 0, []⟩
        usedMemory := s.usedMemory - 0 * kPageSize }
  else .ok { s with entries := s.entries.set entryId e }

def unmap (ptr : Nat) : Except Fault (Bool × HugetlbfsShm) :=
  match s.mappings.findIdx? fun m => m.addr == ptr with
  | none => .ok (false, s)
  | some mappingId => do
    let entryId := (s.mappings.getD mappingId ⟨0, 0⟩).entryId
    match s.entries[entryId]? with
    | none => .error .invalidPointer
    | some e =>
      let s ← s.checkRelease entryId { e with refcount := sub64 e.refcount 1 }
      return (true, { s with mappings := s.mappings.set mappingId ⟨0, 0⟩ })

/-- **Unmapping an address that is not mapped is harmless** just if it is not null, or no mapping
is gone. -/
theorem unmap_unknown_iff (s : HugetlbfsShm) (ptr : Nat)
    (hptr : ∀ m ∈ s.mappings, m.addr ≠ 0 → m.addr ≠ ptr) :
    s.unmap ptr = .ok (false, s) ↔ ptr ≠ 0 ∨ ∀ m ∈ s.mappings, m.addr ≠ 0 := by
  unfold unmap
  cases hfind : s.mappings.findIdx? fun m => m.addr == ptr with
  | none =>
    refine iff_of_true rfl (or_iff_not_imp_left.mpr fun hnull m hm hzero => ?_)
    have hne := List.findIdx?_eq_none_iff.mp hfind m hm
    rw [hzero, not_not.mp hnull] at hne
    cases hne
  | some mappingId =>
    obtain ⟨hlt, haddr, -⟩ := List.findIdx?_eq_some_iff_getElem.mp hfind
    have hnull : s.mappings[mappingId].addr = 0 :=
      by_contra fun hne => hptr _ (List.getElem_mem hlt) hne (beq_iff_eq.mp haddr)
    refine iff_of_false ?_ ?_
    · dsimp only
      split
      · nofun
      · intro h
        obtain ⟨_, -, h⟩ := Lib.bind_eq_ok.mp h
        cases h
    · rw [← beq_iff_eq.mp haddr, hnull]
      rintro (h | h)
      · exact h rfl
      · exact h _ (List.getElem_mem hlt) hnull

/-- One page has been allocated, and mapped at the address 2097152. -/
def oneMapping : HugetlbfsShm :=
  ⟨[⟨true⟩], [⟨1, false, kPageSize, 1, [0]⟩], [⟨0, 2097152⟩], kPageSize⟩

/-- Another address. -/
theorem unmap_other : oneMapping.unmap 4194304 = .ok (false, oneMapping) :=
  (unmap_unknown_iff oneMapping 4194304 (by decide)).mpr (.inl (by decide))

/-- When the mapping is gone, the null pointer can be unmapped, and the count of the entry wraps
around. -/
theorem unmap_null : ∃ s, oneMapping.unmap 2097152 = .ok (true, s) ∧
    ∃ s', s.unmap 0 = .ok (true, s') ∧ s'.entries.map Entry.refcount = [2 ^ 64 - 1] :=
  ⟨_, rfl, _, rfl, rfl⟩

end HugetlbfsShm

end Testbed.Mica
