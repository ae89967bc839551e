import Mathlib.Data.List.Perm.Basic
import Mathlib.Data.List.Range
import Testbed.Lib.LinkedLists
import Testbed.Mica.Pools

/-! # Request descriptors

`mica/datagram/datagram_client.h`: a client has a fixed number of request descriptors.  Those of
the outstanding requests are on the active list, in the order in which the requests were made, and
the others are on the unused list.  Both lists are linked by the same fields of the descriptors.
A descriptor counts how often it was released; a request tells the server the count, so that a
late response does not match.
-/
namespace Testbed.Mica

open Lib List

/-- `StaticConfig` of a client; `kNullRD` is no descriptor.  `c_1_usec` is what the stopwatch has
measured. -/
structure ClientConfig where
  kMaxOutstandingRequestCount : Nat
  count_pos : 0 < kMaxOutstandingRequestCount
  count_lt : kMaxOutstandingRequestCount < 2 ^ 16
  kRequestTimeout : Nat
  kMaxRequestBatchSize : Nat
  kMaxEndpointsPerServer : Nat
  kTXBurst : Nat
  kTXMinBurst : Nat
  kTXBurstTimeout : Nat
  kSkipRX : Bool
  kIgnoreServerPartition : Bool
  c1Usec : Nat

/-- The request timeout in cycles. -/
def ClientConfig.requestTimeout (cfg : ClientConfig) : Nat :=
  cfg.c1Usec * cfg.kRequestTimeout % 2 ^ 64

def kNullRD : Nat := 2 ^ 16 - 1

/-- `RequestDescriptorItem`; `α` is the type of the arguments. -/
structure RequestDescriptorItem (α : Type) where
  next : Nat
  prev : Nat
  epoch : Nat
  expireTime : Nat
  arg : α

/-- The descriptors of a `ThreadState`. -/
structure Descriptors (cfg : ClientConfig) (α : Type) where
  rdItems : Nat → RequestDescriptorItem α
  rdUnusedFirst : Nat
  rdActiveFirst : Nat
  rdActiveLast : Nat
  outstandingRequestCount : Nat

namespace Descriptors
variable {cfg : ClientConfig} {α : Type} (s : Descriptors cfg α) (rd : Nat)

def next : Nat := (s.rdItems rd).next
def prev : Nat := (s.rdItems rd).prev
def epoch : Nat := (s.rdItems rd).epoch
def expireTime : Nat := (s.rdItems rd).expireTime
def arg : α := (s.rdItems rd).arg

/-- Writes to `rd_items[rd]`. -/
def write
    (f : RequestDescriptorItem α → RequestDescriptorItem α) : Except Fault (Descriptors cfg α) :=
  if rd < cfg.kMaxOutstandingRequestCount then
    .ok { s with rdItems := fun y => if y = rd then f (s.rdItems y) else s.rdItems y }
  else .error .invalidPointer

/-- The same unless `rd` is null. -/
def writeUnlessNull
    (f : RequestDescriptorItem α → RequestDescriptorItem α) : Except Fault (Descriptors cfg α) :=
  if rd ≠ kNullRD then s.write rd f else .ok s

def canRequest : Bool :=
  s.outstandingRequestCount < cfg.kMaxOutstandingRequestCount

/-- `init_rds`: the descriptors are chained up to the last, and `prev` is not written. -/
def initRds : Descriptors cfg α where
  rdItems rd :=
    if rd + 1 < cfg.kMaxOutstandingRequestCount then
      { s.rdItems rd with next := rd + 1, epoch := 0 }
    else if rd < cfg.kMaxOutstandingRequestCount then
      { s.rdItems rd with next := kNullRD, epoch := 0 }
    else s.rdItems rd
  rdUnusedFirst := 0
  rdActiveFirst := kNullRD
  rdActiveLast := kNullRD
  outstandingRequestCount := 0

/-- `allocate_rd` makes `rd` the last active descriptor. -/
def linkLast : Except Fault (Descriptors cfg α) := do
  if s.rdActiveFirst = kNullRD then
    return { s with rdActiveFirst := rd, rdActiveLast := rd }
  else
    let s ← s.write s.rdActiveLast fun item => { item with next := rd }
    return { s with rdActiveLast := rd }

/-- `allocate_rd`: the first unused descriptor becomes active. -/
def allocateRd (now : Nat) (arg : α) : Except Fault (Nat × Descriptors cfg α) := do
  let rd := s.rdUnusedFirst
  let s : Descriptors cfg α := { s with rdUnusedFirst := s.next rd }
  let s ← s.write rd fun item => { item with prev := s.rdActiveLast, next := kNullRD }
  let s ← s.linkLast rd
  let s ← s.write rd fun item =>
    { item with expireTime := (now + cfg.requestTimeout) % 2 ^ 64, arg }
  return (rd, { s with outstandingRequestCount := (s.outstandingRequestCount + 1) % 2 ^ 16 })

/-- `release_rd` links the neighbours of `rd` with each other. -/
def unlink : Except Fault (Descriptors cfg α) := do
  let s ← s.writeUnlessNull (s.next rd) fun item => { item with prev := s.prev rd }
  let s ← s.writeUnlessNull (s.prev rd) fun item => { item with next := s.next rd }
  let s : Descriptors cfg α :=
    if s.rdActiveFirst = rd then { s with rdActiveFirst := s.next rd } else s
  return if s.rdActiveLast = rd then { s with rdActiveLast := s.prev rd } else s

/-- `release_rd`: the descriptor becomes the first unused one. -/
def releaseRd : Except Fault (Descriptors cfg α) := do
  let s ← s.unlink rd
  let s ← s.write rd fun item => { item with next := s.rdUnusedFirst }
  let s : Descriptors cfg α := { s with rdUnusedFirst := rd }
  let s ← s.write rd fun item => { item with epoch := (item.epoch + 1) % 2 ^ 16 }
  return { s with
    outstandingRequestCount := (s.outstandingRequestCount + (2 ^ 16 - 1)) % 2 ^ 16 }

/-! ## The two lists -/

/-- The descriptors are on the two lists, and those on the active list are counted. -/
structure Lists (unused active : List Nat) : Prop where
  path : Path s.next s.rdUnusedFirst unused kNullRD
  walk : Walk s.next s.prev kNullRD s.rdActiveFirst active s.rdActiveLast kNullRD
  perm : (unused ++ active).Perm (List.range cfg.kMaxOutstandingRequestCount)
  count : s.outstandingRequestCount = active.length

/-- The earlier ones expire first. -/
def Ordered (active : List Nat) : Prop :=
  active.Pairwise fun rd rd' => s.expireTime rd ≤ s.expireTime rd'

/-- The descriptors from the first active one on. -/
def actives : List Nat :=
  follow s.next kNullRD cfg.kMaxOutstandingRequestCount s.rdActiveFirst

section
variable {s : Descriptors cfg α} {unused active : List Nat} {rd : Nat}

theorem Lists.lt (h : s.Lists unused active) (hrd : rd ∈ unused ++ active) :
    rd < cfg.kMaxOutstandingRequestCount :=
  mem_range.mp (h.perm.mem_iff.mp hrd)

theorem Lists.nodup (h : s.Lists unused active) : (unused ++ active).Nodup :=
  h.perm.nodup_iff.mpr nodup_range

theorem ne_null (h : rd < cfg.kMaxOutstandingRequestCount) : rd ≠ kNullRD := by
  have hcount := cfg.count_lt
  unfold kNullRD
  omega

section
variable (h : s.Lists unused active)
include h

theorem Lists.null_notMem : kNullRD ∉ unused ++ active :=
  fun hmem => ne_null (h.lt hmem) rfl

theorem Lists.length_eq : unused.length + active.length = cfg.kMaxOutstandingRequestCount := by
  have hlength := h.perm.length_eq
  rwa [length_append, length_range] at hlength

theorem Lists.actives_eq : s.actives = active :=
  h.walk.path.follow_eq (fun hmem => h.null_notMem (mem_append_right _ hmem))
    (by have := h.length_eq; omega)

/-- `can_request` tells whether there is an unused descriptor. -/
theorem Lists.canRequest_iff : s.canRequest = true ↔ unused ≠ [] := by
  have hlength := h.length_eq
  unfold canRequest
  rw [decide_eq_true_iff, h.count, ← length_pos_iff]
  omega

end

/-- At first all descriptors are unused. -/
theorem lists_initRds (s : Descriptors cfg α) :
    s.initRds.Lists (List.range cfg.kMaxOutstandingRequestCount) [] := by
  refine ⟨?_, ⟨rfl, rfl⟩, by rw [append_nil], rfl⟩
  have hchain : ∀ n rd, rd + n = cfg.kMaxOutstandingRequestCount → 0 < n →
      Path s.initRds.next rd (List.range' rd n) kNullRD := by
    intro n
    induction n with
    | zero => intro rd _ hpos; exact absurd hpos (Nat.lt_irrefl 0)
    | succ n ih =>
      intro rd hn _
      refine ⟨rfl, ?_⟩
      by_cases hlast : n = 0
      · subst hlast
        have hnext : s.initRds.next rd = kNullRD := by
          simp only [next, initRds]
          rw [if_neg (by omega), if_pos (by omega)]
        rw [hnext]
        exact rfl
      · have hnext : s.initRds.next rd = rd + 1 := by
          simp only [next, initRds]
          rw [if_pos (by omega)]
        rw [hnext]
        exact ih (rd + 1) (by omega) (Nat.pos_of_ne_zero hlast)
  rw [range_eq_range']
  exact hchain _ 0 (Nat.zero_add _) cfg.count_pos

end

/-! ## What the operations do -/

section Operations
variable {s : Descriptors cfg α} {unused active l₁ l₂ : List Nat} {rd a : Nat}
  {f : RequestDescriptorItem α → RequestDescriptorItem α}

theorem write_of_lt (h : rd < cfg.kMaxOutstandingRequestCount) : s.write rd f =
      .ok { s with rdItems := fun y => if y = rd then f (s.rdItems y) else s.rdItems y } :=
  if_pos h

theorem writeUnlessNull_returns (h : a = kNullRD ∨ a < cfg.kMaxOutstandingRequestCount) :
    ∃ items, s.writeUnlessNull a f = .ok { s with rdItems := items } ∧
      ∀ y < cfg.kMaxOutstandingRequestCount,
        items y = if y = a then f (s.rdItems y) else s.rdItems y := by
  by_cases hnull : a = kNullRD
  · refine ⟨s.rdItems, if_neg (not_not.mpr hnull), fun y hy => ?_⟩
    rw [if_neg fun heq => ne_null hy (heq.trans hnull)]
  · refine ⟨_, (if_pos hnull).trans (write_of_lt (h.resolve_left hnull)), fun y hy => rfl⟩

theorem unlink_returns (hrd : rd < cfg.kMaxOutstandingRequestCount)
    (hnext : s.next rd = kNullRD ∨ s.next rd < cfg.kMaxOutstandingRequestCount)
    (hprev : s.prev rd = kNullRD ∨ s.prev rd < cfg.kMaxOutstandingRequestCount) :
    ∃ items, s.unlink rd = .ok { s with
        rdItems := items
        rdActiveFirst := if s.rdActiveFirst = rd then s.next rd else s.rdActiveFirst
        rdActiveLast := if s.rdActiveLast = rd then s.prev rd else s.rdActiveLast } ∧
      ∀ y < cfg.kMaxOutstandingRequestCount, items y = { s.rdItems y with
        next := if y = s.prev rd then s.next rd else s.next y
        prev := if y = s.next rd then s.prev rd else s.prev y } := by
  obtain ⟨items₁, hwrite₁, hitems₁⟩ := writeUnlessNull_returns (s := s)
    (f := fun item => { item with prev := s.prev rd }) hnext
  have hprev₁ : (items₁ rd).prev = s.prev rd := by
    rw [hitems₁ rd hrd]
    split
    · rfl
    · rfl
  have hnext₁ : (items₁ rd).next = s.next rd := by
    rw [hitems₁ rd hrd]
    split
    · rfl
    · rfl
  obtain ⟨items₂, hwrite₂, hitems₂⟩ := writeUnlessNull_returns
    (s := { s with rdItems := items₁ }) (f := fun item => { item with next := s.next rd }) hprev
  have hitems : ∀ y < cfg.kMaxOutstandingRequestCount, items₂ y = { s.rdItems y with
      next := if y = s.prev rd then s.next rd else s.next y
      prev := if y = s.next rd then s.prev rd else s.prev y } := by
    intro y hy
    rw [hitems₂ y hy]
    change (if y = s.prev rd then { items₁ y with next := s.next rd } else items₁ y) = _
    rw [hitems₁ y hy]
    by_cases hp : y = s.prev rd
    · by_cases hn : y = s.next rd
      · simp only [if_pos hp, if_pos hn]
      · simp only [if_pos hp, if_neg hn]
        rfl
    · by_cases hn : y = s.next rd
      · simp only [if_neg hp, if_pos hn]
        rfl
      · simp only [if_neg hp, if_neg hn]
        rfl
  have hnext₂ : (items₂ rd).next = s.next rd := by
    rw [hitems rd hrd]
    exact ite_self _
  have hprev₂ : (items₂ rd).prev = s.prev rd := by
    rw [hitems rd hrd]
    exact ite_self _
  refine ⟨items₂, ?_, hitems⟩
  refine bind_eq_ok.mpr ⟨_, hwrite₁, bind_eq_ok.mpr ⟨{ s with rdItems := items₂ }, ?_, ?_⟩⟩
  · change Descriptors.writeUnlessNull _ (items₁ rd).prev
      (fun item => { item with next := (items₁ rd).next }) = _
    rw [hprev₁, hnext₁]
    exact hwrite₂
  · refine congrArg Except.ok ?_
    by_cases hfirst : s.rdActiveFirst = rd
    · by_cases hlast : s.rdActiveLast = rd
      · simp only [if_pos hfirst, if_pos hlast, next, prev, hnext₂, hprev₂]
      · simp only [if_pos hfirst, if_neg hlast, next, hnext₂]
    · by_cases hlast : s.rdActiveLast = rd
      · simp only [if_neg hfirst, if_pos hlast, prev, hprev₂]
      · simp only [if_neg hfirst, if_neg hlast]

theorem releaseRd_returns (hrd : rd < cfg.kMaxOutstandingRequestCount)
    (hnext : s.next rd = kNullRD ∨ s.next rd < cfg.kMaxOutstandingRequestCount)
    (hprev : s.prev rd = kNullRD ∨ s.prev rd < cfg.kMaxOutstandingRequestCount) :
    ∃ items, s.releaseRd rd = .ok {
        rdItems := items
        rdUnusedFirst := rd
        rdActiveFirst := if s.rdActiveFirst = rd then s.next rd else s.rdActiveFirst
        rdActiveLast := if s.rdActiveLast = rd then s.prev rd else s.rdActiveLast
        outstandingRequestCount := (s.outstandingRequestCount + (2 ^ 16 - 1)) % 2 ^ 16 } ∧
      ∀ y < cfg.kMaxOutstandingRequestCount, items y = { s.rdItems y with
        next := if y = rd then s.rdUnusedFirst else if y = s.prev rd then s.next rd else s.next y
        prev := if y = s.next rd then s.prev rd else s.prev y
        epoch := if y = rd then (s.epoch y + 1) % 2 ^ 16 else s.epoch y } := by
  obtain ⟨_, hunlink, hitems⟩ := unlink_returns hrd hnext hprev
  refine ⟨_, bind_eq_ok.mpr ⟨_, hunlink, bind_eq_ok.mpr ⟨_, write_of_lt hrd,
    bind_eq_ok.mpr ⟨_, write_of_lt hrd, rfl⟩⟩⟩, fun y hy => ?_⟩
  simp only [hitems y hy]
  by_cases hy : y = rd
  · simp only [if_pos hy]
    rfl
  · simp only [if_neg hy]
    rfl

theorem linkLast_returns (s : Descriptors cfg α) (rd : Nat)
    (hlast : s.rdActiveFirst = kNullRD ∨ s.rdActiveLast < cfg.kMaxOutstandingRequestCount) :
    ∃ items, s.linkLast rd = .ok { s with
        rdItems := items
        rdActiveFirst := if s.rdActiveFirst = kNullRD then rd else s.rdActiveFirst
        rdActiveLast := rd } ∧
      ∀ y, items y = { s.rdItems y with
        next := if s.rdActiveFirst ≠ kNullRD ∧ y = s.rdActiveLast then rd else s.next y } := by
  unfold linkLast
  by_cases hempty : s.rdActiveFirst = kNullRD
  · refine ⟨s.rdItems, ?_, fun y => ?_⟩
    · rw [if_pos hempty, if_pos hempty]
      rfl
    · rw [if_neg fun h => h.1 hempty]
      rfl
  · rw [if_neg hempty, if_neg hempty]
    refine ⟨_, bind_eq_ok.mpr ⟨_, write_of_lt (hlast.resolve_left hempty), rfl⟩, fun y => ?_⟩
    by_cases hy : y = s.rdActiveLast
    · simp only [if_pos hy, if_pos (And.intro hempty hy)]
    · simp only [hy, and_false, if_false]
      rfl

theorem allocateRd_returns (now : Nat) (arg : α)
    (hrd : s.rdUnusedFirst < cfg.kMaxOutstandingRequestCount)
    (hlast : s.rdActiveFirst = kNullRD ∨ s.rdActiveLast < cfg.kMaxOutstandingRequestCount)
    (hne : s.rdActiveLast ≠ s.rdUnusedFirst) :
    ∃ items, s.allocateRd now arg = .ok (s.rdUnusedFirst, {
        rdItems := items
        rdUnusedFirst := s.next s.rdUnusedFirst
        rdActiveFirst := if s.rdActiveFirst = kNullRD then s.rdUnusedFirst else s.rdActiveFirst
        rdActiveLast := s.rdUnusedFirst
        outstandingRequestCount := (s.outstandingRequestCount + 1) % 2 ^ 16 }) ∧
      ∀ y, items y = {
        next := if y = s.rdUnusedFirst then kNullRD
          else if s.rdActiveFirst ≠ kNullRD ∧ y = s.rdActiveLast then s.rdUnusedFirst else s.next y
        prev := if y = s.rdUnusedFirst then s.rdActiveLast else s.prev y
        epoch := s.epoch y
        expireTime := if y = s.rdUnusedFirst then (now + cfg.requestTimeout) % 2 ^ 64
          else s.expireTime y
        arg := if y = s.rdUnusedFirst then arg else s.arg y } := by
  obtain ⟨_, hlink, hitems⟩ := linkLast_returns { s with
    rdUnusedFirst := s.next s.rdUnusedFirst
    rdItems := fun y => if y = s.rdUnusedFirst then
      { s.rdItems y with prev := s.rdActiveLast, next := kNullRD } else s.rdItems y }
    s.rdUnusedFirst hlast
  refine ⟨_, bind_eq_ok.mpr ⟨_, write_of_lt hrd, bind_eq_ok.mpr ⟨_, hlink,
    bind_eq_ok.mpr ⟨_, write_of_lt hrd, rfl⟩⟩⟩, fun y => ?_⟩
  simp only [hitems y, next]
  by_cases hy : y = s.rdUnusedFirst
  · have hy' : y ≠ s.rdActiveLast := fun heq => hne (heq.symm.trans hy)
    simp only [if_pos hy, hy', and_false, if_false]
    rfl
  · simp only [if_neg hy]
    rfl

/-! ## The lists stay lists -/

/-- **The first unused descriptor becomes the last active one.** -/
theorem Lists.allocateRd (h : s.Lists (rd :: unused) active) (now : Nat) (arg : α) :
    ∃ s', s.allocateRd now arg = .ok (rd, s') ∧ s'.Lists unused (active ++ [rd]) ∧
      s'.epoch = s.epoch ∧
      s'.expireTime = Function.update s.expireTime rd ((now + cfg.requestTimeout) % 2 ^ 64) ∧
      s'.arg = Function.update s.arg rd arg := by
  obtain ⟨hfirst, hunused⟩ := h.path
  have hrd := hfirst ▸ h.lt (mem_append_left _ mem_cons_self)
  have hnodup := nodup_append.mp h.nodup
  have hfresh : ∀ y ∈ active, y ≠ s.rdUnusedFirst := fun y hy heq =>
    hnodup.2.2 rd mem_cons_self y hy (hfirst ▸ heq.symm)
  have hnull : kNullRD ∉ active := fun hmem => h.null_notMem (mem_append_right _ hmem)
  have hlast : s.rdActiveFirst = kNullRD ∨ s.rdActiveLast ∈ active := by
    obtain ⟨-, -, hnull⟩ | hmem := h.walk.first_eq
    · exact .inl hnull
    · obtain ⟨rfl, -⟩ | hin := h.walk.last_eq
      · cases hmem
      · exact .inr hin
  have hne : s.rdActiveLast ≠ s.rdUnusedFirst := by
    obtain ⟨-, hnull⟩ | hmem := h.walk.last_eq
    · exact fun heq => ne_null hrd (heq.symm.trans hnull.symm)
    · exact hfresh _ hmem
  obtain ⟨_, hcall, hitems⟩ := allocateRd_returns now arg hrd
    (hlast.imp_right fun hmem => h.lt (mem_append_right _ hmem)) hne
  subst hfirst
  refine ⟨_, hcall, ⟨?_, ?_, ?_, ?_⟩, ?_, ?_, ?_⟩
  · refine hunused.congr fun y hy => ?_
    have hy₁ : y ≠ s.rdUnusedFirst := fun heq => (nodup_cons.mp hnodup.1).1 (heq ▸ hy)
    have hy₂ : ¬(s.rdActiveFirst ≠ kNullRD ∧ y = s.rdActiveLast) := by
      rintro ⟨hfirst, rfl⟩
      exact hnodup.2.2 _ (mem_cons_of_mem _ hy) _ (hlast.resolve_left hfirst) rfl
    simp only [next, hitems, if_neg hy₁, if_neg hy₂]
  · refine h.walk.concat hnodup.2.1 hnull hnull ?_ ?_ (fun y hy => ?_) fun y hy => ?_
    · simp only [next, hitems, if_true]
    · simp only [prev, hitems, if_true]
    · have hfirst : s.rdActiveFirst ≠ kNullRD := by
        obtain ⟨rfl, -⟩ | hmem := h.walk.first_eq
        · cases hy
        · exact fun heq => hnull (heq ▸ hmem)
      simp only [next, hitems, if_neg (hfresh y hy), ne_eq, hfirst, not_false_eq_true, true_and]
    · simp only [prev, hitems, if_neg (hfresh y hy)]
  · refine List.Perm.trans ?_ h.perm
    rw [← append_assoc]
    exact perm_append_singleton _ _
  · have hlength := h.length_eq
    have hcount := cfg.count_lt
    rw [length_cons] at hlength
    rw [length_append, length_singleton, h.count, Nat.mod_eq_of_lt (by omega)]
  · funext y
    simp only [epoch, hitems]
  · funext y
    simp only [expireTime, hitems, Function.update_apply]
  · funext y
    simp only [Descriptors.arg, hitems, Function.update_apply]

variable {s' : Descriptors cfg α}

theorem Lists.exists_cons_of_allocateRd {now : Nat} {arg : α} (h : s.Lists unused active)
    (hcall : s.allocateRd now arg = .ok (rd, s')) : ∃ rest, unused = rd :: rest := by
  cases unused with
  | nil =>
    have hnull := h.path
    have hcount := cfg.count_lt
    obtain ⟨_, hwrite, -⟩ := bind_eq_ok.mp hcall
    rw [hnull, write, if_neg (by unfold kNullRD; omega)] at hwrite
    cases hwrite
  | cons _ rest =>
    obtain ⟨_, hcall', -⟩ := h.allocateRd now arg
    cases hcall.symm.trans hcall'
    exact ⟨rest, rfl⟩

/-- What a release leaves of the descriptors, apart from the links. -/
structure Released (s s' : Descriptors cfg α) (rd : Nat) : Prop where
  epoch : ∀ y < cfg.kMaxOutstandingRequestCount,
    s'.epoch y = if y = rd then (s.epoch y + 1) % 2 ^ 16 else s.epoch y
  expireTime : ∀ y < cfg.kMaxOutstandingRequestCount, s'.expireTime y = s.expireTime y
  arg : ∀ y < cfg.kMaxOutstandingRequestCount, s'.arg y = s.arg y

/-- **An active descriptor becomes the first unused one**, in its next epoch. -/
theorem Lists.releaseRd (h : s.Lists unused (l₁ ++ rd :: l₂)) :
    ∃ s', s.releaseRd rd = .ok s' ∧ s'.Lists (rd :: unused) (l₁ ++ l₂) ∧ Released s s' rd := by
  have hlt : ∀ y ∈ l₁ ++ rd :: l₂, y < cfg.kMaxOutstandingRequestCount := fun y hy =>
    h.lt (mem_append_right _ hy)
  have hmem : rd ∈ l₁ ++ rd :: l₂ := mem_append_right _ mem_cons_self
  have hnodup := nodup_append.mp h.nodup
  have hnull : kNullRD ∉ l₁ ++ rd :: l₂ := fun hmem =>
    h.null_notMem (mem_append_right _ hmem)
  obtain ⟨m, n, hfront, hback⟩ := Walk.append.mp h.walk
  have hnext : s.next rd = kNullRD ∨ s.next rd ∈ l₂ := hback.next_eq.symm
  have hprev : s.prev rd = kNullRD ∨ s.prev rd ∈ l₁ := by
    rw [hback.2.1]
    obtain ⟨-, heq⟩ | hin := hfront.last_eq
    · exact .inl heq.symm
    · exact .inr hin
  obtain ⟨_, hcall, hitems⟩ := releaseRd_returns (hlt rd hmem)
    (hnext.imp_right fun hin => hlt _ (by simp [hin]))
    (hprev.imp_right fun hin => hlt _ (by simp [hin]))
  have hrd : rd ∉ l₁ ++ l₂ := (nodup_middle.mp hnodup.2.1 |> nodup_cons.mp).1
  have hsub : ∀ y ∈ l₁ ++ l₂, y ∈ l₁ ++ rd :: l₂ := fun y hy => by
    simp only [mem_append, mem_cons] at hy ⊢
    tauto
  refine ⟨_, hcall, ⟨?_, ?_, ?_, ?_⟩, ?_, ?_, ?_⟩
  · refine h.path.cons ?_ fun y hy => ?_
    · simp only [next, hitems rd (hlt rd hmem), if_true]
    · have hy₁ : y ≠ rd := hnodup.2.2 y hy rd hmem
      have hy₂ : y ≠ s.prev rd := by
        intro heq
        obtain hend | hin := hprev
        · exact h.null_notMem (mem_append_left _ (hend ▸ heq ▸ hy))
        · exact hnodup.2.2 y hy y (mem_append_left _ (heq ▸ hin)) rfl
      simp only [next, hitems y (h.lt (mem_append_left _ hy)), if_neg hy₁, if_neg hy₂]
  · refine h.walk.remove hnodup.2.1 hnull hnull (fun y hy => ?_) fun y hy => ?_
    · have hne : y ≠ rd := fun heq => hrd (heq ▸ hy)
      simp only [next, hitems y (hlt y (hsub y hy)), if_neg hne]
    · simp only [prev, hitems y (hlt y (hsub y hy))]
  · refine List.Perm.trans ?_ h.perm
    rw [cons_append, ← append_assoc, ← append_assoc]
    exact perm_middle.symm
  · have hlength := h.length_eq
    have hcount := cfg.count_lt
    have hactive := h.count
    rw [length_append, length_cons] at hlength hactive
    rw [length_append]
    change (s.outstandingRequestCount + (2 ^ 16 - 1)) % 2 ^ 16 = l₁.length + l₂.length
    omega
  · intro y hy
    simp only [epoch, hitems y hy]
  · intro y hy
    simp only [expireTime, hitems y hy]
  · intro y hy
    simp only [Descriptors.arg, hitems y hy]

theorem Released.ordered (h : Released s s' rd) (hs : s.Ordered active)
    (hactive : ∀ y ∈ active, y < cfg.kMaxOutstandingRequestCount) : s'.Ordered active := by
  refine hs.imp_of_mem fun {y y'} hy hy' hle => ?_
  rwa [h.expireTime y (hactive y hy), h.expireTime y' (hactive y' hy')]

end Operations

end Descriptors

end Testbed.Mica
