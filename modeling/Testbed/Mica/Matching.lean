import Mathlib.Data.List.Pairwise
import Testbed.Mica.Clients

/-! # Responses and descriptors

A response is matched by the number of the descriptor and its epoch; nothing tells whether the
descriptor is in use.  The lists of descriptors stay intact if and only if no record of a response
happens to name an unused descriptor with its epoch (`everyCall_intact_iff`).
-/
namespace Testbed.Mica

open Lib
open Client List

/-! ## One record and one timeout -/

namespace Descriptors
variable {cfg : ClientConfig} {α : Type} {s : Descriptors cfg α} {unused active : List Nat}
  {calls : List (HandlerCall cfg α)} {r : RequestBatchReader} {k now : Nat}

/-- **The lists are intact**, and the active one is in the order of the timeouts. -/
def WellFormed (s : Descriptors cfg α) : Prop :=
  ∃ unused active, s.Lists unused active ∧ s.Ordered active

/-- The same, and no request was made after the time. -/
def WellFormedAt (s : Descriptors cfg α) (clock : Nat) : Prop :=
  ∃ unused active, s.Lists unused active ∧ s.Ordered active ∧
    ∀ rd ∈ active, s.expireTime rd ≤ clock + cfg.requestTimeout

theorem WellFormedAt.wellFormed {clock : Nat} (h : s.WellFormedAt clock) : s.WellFormed := by
  obtain ⟨unused, active, hlists, hordered, -⟩ := h
  exact ⟨unused, active, hlists, hordered⟩

theorem WellFormedAt.mono {clock clock' : Nat} (h : s.WellFormedAt clock) (hle : clock ≤ clock') :
    s.WellFormedAt clock' := by
  obtain ⟨unused, active, hlists, hordered, hclock⟩ := h
  exact ⟨unused, active, hlists, hordered, fun rd hrd => by have := hclock rd hrd; omega⟩

theorem wellFormedAt_initRds (s : Descriptors cfg α) (clock : Nat) : s.initRds.WellFormedAt clock :=
  ⟨_, [], lists_initRds s, List.Pairwise.nil, fun _ hrd => absurd hrd not_mem_nil⟩

theorem Released.wellFormedAt {s' : Descriptors cfg α} {rd clock : Nat} {active' unused' : List Nat}
    (h : Released s s' rd) (hordered : s.Ordered active)
    (hclock : ∀ rd ∈ active, s.expireTime rd ≤ clock + cfg.requestTimeout)
    (hlists' : s'.Lists unused' active') (hsub : active'.Sublist active) :
    s'.WellFormedAt clock := by
  have hlt : ∀ y ∈ active', y < cfg.kMaxOutstandingRequestCount := fun y hy =>
    hlists'.lt (mem_append_right _ hy)
  refine ⟨unused', active', hlists', h.ordered (hordered.sublist hsub) hlt, fun y hy => ?_⟩
  rw [h.expireTime y (hlt y hy)]
  exact hclock y (hsub.subset hy)

/-- The record names a descriptor with its epoch. -/
def Matches (s : Descriptors cfg α) (r : RequestBatchReader) : Prop :=
  r.getRd < cfg.kMaxOutstandingRequestCount ∧ s.epoch r.getRd = r.getEpoch

theorem handleRecord_of_not_matches (h : ¬s.Matches r) :
    handleRecord (s, calls) (r, k) = .ok (s, calls) := by
  by_cases hrd : cfg.kMaxOutstandingRequestCount ≤ r.getRd
  · exact if_pos hrd
  · exact (if_neg hrd).trans (if_pos fun hepoch => h ⟨Nat.lt_of_not_le hrd, hepoch⟩)

theorem handleRecord_of_matches (h : s.Matches r) : handleRecord (s, calls) (r, k) =
    (s.releaseRd r.getRd >>= fun s' => .ok (s', calls ++ [.ofResponse s r k])) :=
  (if_neg (Nat.not_le_of_lt h.1)).trans (if_neg (not_not.mpr h.2))

theorem Lists.handleRecord (h : s.Lists unused active) (calls : List (HandlerCall cfg α)) (k : Nat)
    (hr : s.Matches r) (hmem : r.getRd ∈ active) :
    ∃ s', Descriptors.handleRecord (s, calls) (r, k) = .ok (s', calls ++ [.ofResponse s r k]) ∧
      s'.Lists (r.getRd :: unused) (active.erase r.getRd) ∧ Released s s' r.getRd := by
  obtain ⟨_, _, _, rfl, herase⟩ := exists_erase_eq hmem
  obtain ⟨s', hrelease, hlists, hreleased⟩ := h.releaseRd
  refine ⟨s', (handleRecord_of_matches hr).trans ?_, herase ▸ hlists, hreleased⟩
  exact bind_eq_ok.mpr ⟨s', hrelease, rfl⟩

theorem Lists.expire {fuel : Nat} (h : s.Lists unused active) (now : Nat)
    (calls : List (HandlerCall cfg α)) (hfuel : active.length < fuel)
    (I : Descriptors cfg α → List (HandlerCall cfg α) → Prop)
    (hstep : ∀ s calls unused rd rest s', I s calls → s.Lists unused (rd :: rest) →
      s'.Lists (rd :: unused) rest → Released s s' rd → I s' (calls ++ [.timedOut s]))
    (hI : I s calls) :
    ∃ s' calls' unused' active', Descriptors.expire now fuel (s, calls) = .ok (s', calls') ∧
      s'.Lists unused' active' ∧ I s' calls' ∧ (active' = [] ∨ ¬s'.overdue now = true) := by
  induction fuel generalizing s calls unused active with
  | zero => exact absurd hfuel (Nat.not_lt_zero _)
  | succ _ ih =>
    by_cases hnull : s.rdActiveFirst = kNullRD
    · have hend := h.walk.path
      rw [hnull] at hend
      exact ⟨s, calls, unused, active, if_pos hnull, h, hI, .inl (hend.eq_nil fun hmem =>
        h.null_notMem (mem_append_right _ hmem))⟩
    · obtain ⟨rest, rfl, -⟩ := h.walk.path.exists_cons hnull
      have hlt := h.lt (mem_append_right unused mem_cons_self)
      by_cases hoverdue : s.overdue now = true
      · obtain ⟨s', hrelease, hlists, hreleased⟩ :=
          (show s.Lists unused ([] ++ s.rdActiveFirst :: rest) from h).releaseRd
        have hI' := hstep s calls unused _ rest s' hI h hlists hreleased
        obtain ⟨s'', calls'', unused'', active'', hexpire, hlists', hI''⟩ :=
          ih hlists _ (Nat.lt_of_succ_lt_succ hfuel) hI'
        refine ⟨s'', calls'', unused'', active'', ?_, hlists', hI''⟩
        refine (if_neg hnull).trans ((if_neg (Nat.not_le_of_lt hlt)).trans ?_)
        exact (if_pos hoverdue).trans (bind_eq_ok.mpr ⟨s', hrelease, hexpire⟩)
      · refine ⟨s, calls, unused, _, ?_, h, hI, .inr hoverdue⟩
        refine (if_neg hnull).trans ((if_neg (Nat.not_le_of_lt hlt)).trans (if_neg hoverdue))

/-! ## The records of a call -/

/-- **No record asks for the wrong descriptor**: a record that names an unused descriptor has
another epoch than the descriptor has now, and one that comes after the response for an active
descriptor has another epoch than the descriptor has next. -/
structure Solicited (s : Descriptors cfg α) (records : List RequestBatchReader) : Prop where
  unused : ∀ r ∈ records, r.getRd < cfg.kMaxOutstandingRequestCount → r.getRd ∉ s.actives →
    r.getEpoch ≠ s.epoch r.getRd
  active : records.Pairwise fun r r' => r'.getRd = r.getRd → s.Matches r → r.getRd ∈ s.actives →
    r'.getEpoch ≠ (s.epoch r.getRd + 1) % 2 ^ 16

section
variable {records : List RequestBatchReader} {s' : Descriptors cfg α}

theorem solicited_cons_of_not_matches (h : ¬s.Matches r) :
    s.Solicited (r :: records) ↔ s.Solicited records := by
  constructor
  · intro hsol
    exact ⟨fun r' hr' => hsol.unused r' (mem_cons_of_mem r hr'), (pairwise_cons.mp hsol.active).2⟩
  · intro hsol
    refine ⟨fun r' hr' hrd hnot => ?_, pairwise_cons.mpr ⟨?_, hsol.active⟩⟩
    · obtain rfl | hr' := mem_cons.mp hr'
      · exact fun hepoch => h ⟨hrd, hepoch.symm⟩
      · exact hsol.unused r' hr' hrd hnot
    · exact fun r' _ _ hmatches => absurd hmatches h

theorem Solicited.mem_actives (hsol : s.Solicited (r :: records)) (h : s.Matches r) :
    r.getRd ∈ s.actives := by
  by_contra hnot
  exact hsol.unused r mem_cons_self h.1 hnot h.2.symm

theorem solicited_cons_of_matches (hlists : s.Lists unused active) (h : s.Matches r)
    (hmem : r.getRd ∈ active)
    (hlists' : s'.Lists (r.getRd :: unused) (active.erase r.getRd))
    (hreleased : Released s s' r.getRd) :
    s.Solicited (r :: records) ↔ s'.Solicited records := by
  have hactives := hlists.actives_eq
  have hactives' := hlists'.actives_eq
  have hnodup := (nodup_append.mp hlists.nodup).2.1
  have hnot : r.getRd ∉ s'.actives := by
    rw [hactives', hnodup.mem_erase_iff]
    exact fun hin => hin.1 rfl
  have hepoch : s'.epoch r.getRd = (s.epoch r.getRd + 1) % 2 ^ 16 := by
    rw [hreleased.epoch _ h.1, if_pos rfl]
  -- the other descriptors are as they were
  have hother : ∀ r' : RequestBatchReader, r'.getRd ≠ r.getRd →
      (r'.getRd ∈ s'.actives ↔ r'.getRd ∈ s.actives) := fun r' hne => by
    rw [hactives, hactives', hnodup.mem_erase_iff]
    exact and_iff_right hne
  have hepochs : ∀ r' : RequestBatchReader, r'.getRd ≠ r.getRd →
      r'.getRd < cfg.kMaxOutstandingRequestCount → s'.epoch r'.getRd = s.epoch r'.getRd :=
    fun r' hne hrd => by rw [hreleased.epoch _ hrd, if_neg hne]
  constructor
  · intro hsol
    obtain ⟨hfirst, hrest⟩ := pairwise_cons.mp hsol.active
    refine ⟨fun r' hr' hrd hin => ?_, hrest.imp_of_mem fun {r₁ r₂} hr₁ _ hpair hsame hm hin => ?_⟩
    · by_cases hne : r'.getRd = r.getRd
      · rw [hne, hepoch]
        exact hfirst r' hr' hne h (hactives ▸ hmem)
      · rw [hepochs r' hne hrd]
        exact hsol.unused r' (mem_cons_of_mem r hr') hrd fun hmem' =>
          hin ((hother r' hne).mpr hmem')
    · have hne : r₁.getRd ≠ r.getRd := fun heq => hnot (heq ▸ hin)
      rw [hepochs r₁ hne hm.1]
      exact hpair hsame ⟨hm.1, (hepochs r₁ hne hm.1).symm.trans hm.2⟩ ((hother r₁ hne).mp hin)
  · intro hsol
    have hnext : ∀ r' ∈ records, r'.getRd = r.getRd →
        r'.getEpoch ≠ (s.epoch r.getRd + 1) % 2 ^ 16 := fun r' hr' heq => by
      have hne := hsol.unused r' hr' (heq ▸ h.1) (heq ▸ hnot)
      rwa [heq, hepoch] at hne
    refine ⟨fun r' hr' hrd hin => ?_, pairwise_cons.mpr ⟨fun r' hr' heq _ _ => hnext r' hr' heq,
        hsol.active.imp_of_mem fun {r₁ r₂} _ hr₂ hpair hsame hm hin => ?_⟩⟩
    · obtain rfl | hr' := mem_cons.mp hr'
      · exact absurd (hactives ▸ hmem) hin
      · have hne : r'.getRd ≠ r.getRd := fun heq => hin (heq ▸ hactives ▸ hmem)
        rw [← hepochs r' hne hrd]
        exact hsol.unused r' hr' hrd fun hmem' => hin ((hother r' hne).mp hmem')
    · by_cases hne : r₁.getRd = r.getRd
      · rw [hne]
        exact hnext r₂ hr₂ (hsame.trans hne)
      · rw [← hepochs r₁ hne hm.1]
        exact hpair hsame ⟨hm.1, (hepochs r₁ hne hm.1).trans hm.2⟩ ((hother r₁ hne).mpr hin)

end

end Descriptors

/-! ## A call of `handle_response` -/

/-- The handler is called for an active descriptor. -/
def HandlerCall.Proper {cfg : ClientConfig} {α : Type} (call : HandlerCall cfg α) : Prop :=
  call.descriptors.WellFormed ∧ call.rd ∈ call.descriptors.actives

namespace Descriptors
variable {cfg : ClientConfig} {α : Type} {s s' : Descriptors cfg α} {now clock : Nat}
  {calls calls' : List (HandlerCall cfg α)} {records : List RequestBatchReader}

theorem handleRecord_calls {acc acc' : Descriptors cfg α × List (HandlerCall cfg α)}
    {record : RequestBatchReader × Nat} (h : handleRecord acc record = .ok acc') :
    acc.2 ⊆ acc'.2 := by
  obtain ⟨s, _⟩ := acc
  obtain ⟨r, k⟩ := record
  by_cases hr : s.Matches r
  · rw [handleRecord_of_matches hr] at h
    obtain ⟨_, -, h⟩ := bind_eq_ok.mp h
    cases h
    exact subset_append_left _ _
  · rw [handleRecord_of_not_matches hr] at h
    cases h
    exact List.Subset.refl _

theorem expire_calls {fuel : Nat} (h : expire now fuel (s, calls) = .ok (s', calls')) :
    calls ⊆ calls' := by
  induction fuel generalizing s calls with
  | zero => cases h
  | succ _ ih =>
    unfold expire at h
    dsimp only at h
    split at h
    · cases h
      exact List.Subset.refl _
    · split at h
      · cases h
      · split at h
        · obtain ⟨_, -, h⟩ := bind_eq_ok.mp h
          exact List.Subset.trans (subset_append_left _ _) (ih h)
        · cases h
          exact List.Subset.refl _

theorem WellFormedAt.handleRecords (h : s.WellFormedAt clock) (hsol : s.Solicited records)
    (k : Nat) (calls : List (HandlerCall cfg α)) (hcalls : ∀ call ∈ calls, call.Proper) :
    ∃ s' calls', (records.zipIdx k).foldlM handleRecord (s, calls) = .ok (s', calls') ∧
      s'.WellFormedAt clock ∧ ∀ call ∈ calls', call.Proper := by
  induction records generalizing s calls k with
  | nil => exact ⟨s, calls, rfl, h, hcalls⟩
  | cons r _ ih =>
    by_cases hr : s.Matches r
    · obtain ⟨_, active, hlists, hordered, hclock⟩ := id h
      have hin := hsol.mem_actives hr
      have hmem := hlists.actives_eq ▸ hin
      obtain ⟨s', hrecord, hlists', hreleased⟩ := hlists.handleRecord calls k hr hmem
      have hs' := hreleased.wellFormedAt hordered hclock hlists' erase_sublist
      have hrest := (solicited_cons_of_matches hlists hr hmem hlists' hreleased).mp hsol
      obtain ⟨s'', calls'', hfold, hresult⟩ := ih hs' hrest (k + 1)
        (calls ++ [.ofResponse s r k]) (by
          intro call hcall
          obtain hcall | hcall := mem_append.mp hcall
          · exact hcalls call hcall
          · rw [mem_singleton.mp hcall]
            exact ⟨h.wellFormed, hin⟩)
      exact ⟨s'', calls'', foldlM_cons_eq_ok.mpr ⟨_, hrecord, hfold⟩, hresult⟩
    · obtain ⟨s', calls', hfold, hresult⟩ := ih h
        ((solicited_cons_of_not_matches hr).mp hsol) (k + 1) calls hcalls
      exact ⟨s', calls', foldlM_cons_eq_ok.mpr ⟨_, handleRecord_of_not_matches hr, hfold⟩, hresult⟩

/-- If the handler is called for active descriptors only, the records asked for nothing wrong. -/
theorem WellFormedAt.solicited {k : Nat} (h : s.WellFormedAt clock)
    (hfold : (records.zipIdx k).foldlM handleRecord (s, calls) = .ok (s', calls'))
    (hcalls : ∀ call ∈ calls', call.Proper) : s.Solicited records := by
  induction records generalizing s calls k with
  | nil => exact ⟨fun _ hr => absurd hr not_mem_nil, .nil⟩
  | cons r _ ih =>
    obtain ⟨acc, hrecord, hfold⟩ := foldlM_cons_eq_ok.mp hfold
    by_cases hr : s.Matches r
    · rw [handleRecord_of_matches hr] at hrecord
      obtain ⟨_, hrelease, hrecord⟩ := bind_eq_ok.mp hrecord
      cases hrecord
      -- the call for this record is among those that are proper
      have hcall := foldlM_invariant (fun acc => HandlerCall.ofResponse s r k ∈ acc.2)
          (fun _ _ _ _ hin hstep => handleRecord_calls hstep hin)
          (mem_append_right _ mem_cons_self) hfold
      have hin := (hcalls _ hcall).2
      obtain ⟨_, active, hlists, hordered, hclock⟩ := h
      have hmem := hlists.actives_eq ▸ hin
      obtain ⟨_, hrecord, hlists', hreleased⟩ := hlists.handleRecord calls k hr hmem
      rw [handleRecord_of_matches hr, hrelease] at hrecord
      cases hrecord
      refine (solicited_cons_of_matches hlists hr hmem hlists' hreleased).mpr (ih ?_ hfold)
      exact hreleased.wellFormedAt hordered hclock hlists' erase_sublist
    · rw [handleRecord_of_not_matches hr] at hrecord
      cases hrecord
      exact (solicited_cons_of_not_matches hr).mpr (ih h hfold)

theorem WellFormedAt.expire (h : s.WellFormedAt clock) (now : Nat)
    (hcalls : ∀ call ∈ calls, call.Proper) :
    ∃ s' calls', Descriptors.expire now (2 ^ 64) (s, calls) = .ok (s', calls') ∧
      s'.WellFormedAt clock ∧ ∀ call ∈ calls', call.Proper := by
  obtain ⟨unused, active, hlists, hordered, hclock⟩ := id h
  have hfuel : active.length < 2 ^ 64 := by
    have hlength := hlists.length_eq
    have hcount := cfg.count_lt
    omega
  obtain ⟨s', calls', -, -, hexpire, -, hresult, -⟩ := hlists.expire now calls hfuel
    (fun s calls => s.WellFormedAt clock ∧ ∀ call ∈ calls, call.Proper)
    (fun s calls unused rd rest s' hI hlists hlists' hreleased => by
      obtain ⟨⟨unused₁, active₁, hlists₁, hordered, hclock⟩, hcalls⟩ := hI
      obtain rfl : active₁ = rd :: rest := hlists₁.actives_eq.symm.trans hlists.actives_eq
      refine ⟨hreleased.wellFormedAt hordered hclock hlists' (sublist_cons_self _ _),
        fun call hcall => ?_⟩
      obtain hcall | hcall := mem_append.mp hcall
      · exact hcalls call hcall
      · rw [mem_singleton.mp hcall]
        have hin : s.rdActiveFirst ∈ s.actives := by
          rw [hlists.actives_eq, hlists.walk.1]
          exact mem_cons_self
        exact ⟨⟨unused₁, _, hlists₁, hordered⟩, hin⟩)
    ⟨h, hcalls⟩
  exact ⟨s', calls', hexpire, hresult⟩

end Descriptors

namespace Client
variable {cfg : ClientConfig} {α : Type} {c : Client cfg α} {now clock : Nat}
  {received : Nat → List PacketBuffer} {q : RequestArguments α}

/-! ## Runs -/

/-- A call of a member function, and when it is made. -/
inductive Event (α : Type) where
  | request (now : Nat) (q : RequestArguments α)
  | handleResponse (now : Nat) (received : Nat → List PacketBuffer)

def Event.time : Event α → Nat
  | .request now _ => now
  | .handleResponse now _ => now

def step (c : Client cfg α) : Event α → Except Fault (Client cfg α)
  | .request now q => do
    let (_, c) ← c.appendRequest now q
    return c
  | .handleResponse now received => do
    let (c, _) ← c.handleResponse now received
    return c

/-- Something holds of each call, and of the client that it is made on. -/
def EveryCall (P : Client cfg α → Event α → Prop) : Client cfg α → List (Event α) → Prop
  | _, [] => True
  | c, event :: events => P c event ∧ ∀ c', c.step event = .ok c' → EveryCall P c' events

/-- **The call leaves the lists intact**: `handle_response` returns, and it calls the handler for
active descriptors only; a request returns if `can_request` holds. -/
def Intact (c : Client cfg α) : Event α → Prop
  | .request now q => c.descriptors.canRequest = true →
    ∃ rd c', c.appendRequest now q = .ok (rd, c') ∧ c'.descriptors.WellFormed
  | .handleResponse now received => ∃ c' calls, c.handleResponse now received = .ok (c', calls) ∧
    c'.descriptors.WellFormed ∧ ∀ call ∈ calls, call.Proper

/-- The packets that the call receives ask for nothing wrong. -/
def Solicited (c : Client cfg α) : Event α → Prop
  | .request _ _ => True
  | .handleResponse _ received => c.descriptors.Solicited (c.responses received)

variable {c' : Client cfg α}

theorem wellFormedAt_appendRequest {rd : Nat} (h : c.descriptors.WellFormedAt clock)
    (hclock : clock ≤ now) (hnow : now + cfg.requestTimeout < 2 ^ 64)
    (hcall : c.appendRequest now q = .ok (rd, c')) : c'.descriptors.WellFormedAt now := by
  obtain ⟨-, heq⟩ | hallocate := appendRequest_eq_ok hcall
  · rw [heq]
    exact h.mono hclock
  · obtain ⟨unused, active, hlists, hordered, hbound⟩ := h
    obtain ⟨unused, rfl⟩ := hlists.exists_cons_of_allocateRd hallocate
    obtain ⟨_, hallocate', hlists', -, hexpire, -⟩ := hlists.allocateRd now q.arg
    cases hallocate.symm.trans hallocate'
    have hfresh : ∀ y ∈ active, y ≠ rd := fun y hy heq =>
      (nodup_append.mp hlists.nodup).2.2 rd mem_cons_self y hy heq.symm
    have hnew : c'.descriptors.expireTime rd = now + cfg.requestTimeout := by
      rw [hexpire, Function.update_self, Nat.mod_eq_of_lt hnow]
    have hold : ∀ y ∈ active, c'.descriptors.expireTime y = c.descriptors.expireTime y :=
      fun y hy => by rw [hexpire, Function.update_of_ne (hfresh y hy)]
    refine ⟨unused, active ++ [rd], hlists', ?_, fun y hy => ?_⟩
    · refine pairwise_append.mpr ⟨?_, pairwise_singleton _ _, fun y hy z hz => ?_⟩
      · refine hordered.imp_of_mem fun {y z} hy hz hle => ?_
        rwa [hold y hy, hold z hz]
      · rw [mem_singleton.mp hz, hnew, hold y hy]
        have := hbound y hy
        omega
    · obtain hy | hy := mem_append.mp hy
      · rw [hold y hy]
        have := hbound y hy
        omega
      · rw [mem_singleton.mp hy, hnew]

theorem wellFormedAt_handleResponse (h : c.descriptors.WellFormedAt clock) (now : Nat)
    (hsol : c.descriptors.Solicited (c.responses received)) :
    ∃ c' calls, c.handleResponse now received = .ok (c', calls) ∧
      c'.descriptors.WellFormedAt clock ∧ ∀ call ∈ calls, call.Proper := by
  obtain ⟨_, _, hrecords, hs₁, hcalls₁⟩ := h.handleRecords hsol 0 [] fun _ hcall => nomatch hcall
  obtain ⟨_, calls₂, hexpire, hs₂, hcalls₂⟩ := hs₁.expire now hcalls₁
  obtain ⟨c', hc', hdescriptors, -⟩ := handleResponse_returns hrecords hexpire
  exact ⟨c', calls₂, hc', hdescriptors ▸ hs₂, hcalls₂⟩

theorem solicited_of_handleResponse {calls : List (HandlerCall cfg α)}
    (h : c.descriptors.WellFormedAt clock)
    (hcall : c.handleResponse now received = .ok (c', calls))
    (hcalls : ∀ call ∈ calls, call.Proper) : c.descriptors.Solicited (c.responses received) := by
  obtain ⟨⟨_, _⟩, hrecords, hexpire⟩ := handleResponse_eq_ok hcall
  exact h.solicited hrecords fun call hin => hcalls call (Descriptors.expire_calls hexpire hin)

section
variable {event : Event α}

theorem intact_iff (h : c.descriptors.WellFormedAt clock) (hclock : clock ≤ event.time)
    (hnow : event.time + cfg.requestTimeout < 2 ^ 64) : c.Intact event ↔ c.Solicited event := by
  cases event with
  | request now q =>
    refine iff_of_true (fun hroom => ?_) trivial
    obtain ⟨unused, _, hlists, -⟩ := id h
    obtain ⟨_, _, rfl⟩ := exists_cons_of_ne_nil (hlists.canRequest_iff.mp hroom)
    obtain ⟨_, hallocate, -⟩ := hlists.allocateRd now q.arg
    obtain ⟨rd', c', hcall⟩ := appendRequest_returns hallocate
    exact ⟨rd', c', hcall, (wellFormedAt_appendRequest h hclock hnow hcall).wellFormed⟩
  | handleResponse now =>
    constructor
    · rintro ⟨c', calls, hcall, -, hcalls⟩
      exact solicited_of_handleResponse h hcall hcalls
    · intro hsol
      obtain ⟨c', calls, hcall, hc', hcalls⟩ := wellFormedAt_handleResponse h now hsol
      exact ⟨c', calls, hcall, hc'.wellFormed, hcalls⟩

theorem wellFormedAt_step (h : c.descriptors.WellFormedAt clock) (hclock : clock ≤ event.time)
    (hnow : event.time + cfg.requestTimeout < 2 ^ 64) (hsol : c.Solicited event)
    (hstep : c.step event = .ok c') : c'.descriptors.WellFormedAt event.time := by
  cases event with
  | request =>
    obtain ⟨⟨_, c₁⟩, hcall, hstep⟩ := bind_eq_ok.mp hstep
    cases hstep
    exact wellFormedAt_appendRequest h hclock hnow hcall
  | handleResponse now =>
    obtain ⟨⟨_, _⟩, hcall, hstep⟩ := bind_eq_ok.mp hstep
    cases hstep
    obtain ⟨_, _, hcall₂, hc₂, -⟩ := wellFormedAt_handleResponse h now hsol
    cases hcall.symm.trans hcall₂
    exact hc₂.mono hclock

end

theorem WellFormedAt.everyCall {events : List (Event α)} (h : c.descriptors.WellFormedAt clock)
    (htimes : (clock :: events.map Event.time).Pairwise (· ≤ ·))
    (hnow : ∀ event ∈ events, event.time + cfg.requestTimeout < 2 ^ 64) :
    EveryCall Intact c events ↔ EveryCall Solicited c events := by
  induction events generalizing c clock with
  | nil => exact Iff.rfl
  | cons event _ ih =>
    obtain ⟨hclock, hrest⟩ := pairwise_cons.mp htimes
    have hle := hclock event.time mem_cons_self
    have hlt := hnow event mem_cons_self
    have hevents := fun event' h' => hnow event' (mem_cons_of_mem event h')
    have hiff := intact_iff h hle hlt
    constructor
    · rintro ⟨hfirst, hothers⟩
      have hsol := hiff.mp hfirst
      refine ⟨hsol, fun c' hstep => ?_⟩
      exact (ih (wellFormedAt_step h hle hlt hsol hstep) hrest hevents).mp (hothers c' hstep)
    · rintro ⟨hsol, hothers⟩
      refine ⟨hiff.mpr hsol, fun c' hstep => ?_⟩
      exact (ih (wellFormedAt_step h hle hlt hsol hstep) hrest hevents).mpr (hothers c' hstep)

/-- **Received packets cannot corrupt the lists** if and only if they ask for nothing wrong. -/
theorem everyCall_intact_iff (c : Client cfg α) (descriptors : Descriptors cfg α)
    (events : List (Event α)) (hinit : c.descriptors = descriptors.initRds)
    (htimes : (events.map Event.time).Pairwise (· ≤ ·))
    (hnow : ∀ event ∈ events, event.time + cfg.requestTimeout < 2 ^ 64) :
    EveryCall Intact c events ↔ EveryCall Solicited c events := by
  have hstart := hinit ▸ descriptors.wellFormedAt_initRds 0
  refine WellFormedAt.everyCall hstart ?_ hnow
  exact pairwise_cons.mpr ⟨fun _ _ => Nat.zero_le _, htimes⟩

end Client

/-! ## A response to an earlier client -/

/-- A client with one descriptor and one endpoint. -/
def oneDescriptor : ClientConfig where
  kMaxOutstandingRequestCount := 1
  count_pos := Nat.one_pos
  count_lt := by decide
  kRequestTimeout := 1000
  kMaxRequestBatchSize := 1
  kMaxEndpointsPerServer := 32
  kTXBurst := 32
  kTXMinBurst := 32
  kTXBurstTimeout := 10
  kSkipRX := false
  kIgnoreServerPartition := false
  c1Usec := 1

def emptyBuffer : PacketBuffer := ⟨fun _ => 0, 0⟩

/-- The descriptors before `init_rds`. -/
def rawDescriptors : Descriptors oneDescriptor Nat :=
  ⟨fun _ => ⟨0, 0, 0, 0, 0⟩, 0, 0, 0, 0⟩

def emptyBatch : PendingRequestBatch := ⟨.ofBuffer emptyBuffer, 0, false⟩

/-- The client after it has found a server with one partition and one endpoint. -/
def freshClient : Client oneDescriptor Nat where
  servers _ := ⟨true, true, 1, 1, fun _ => ⟨1, 1, 1, 0⟩, fun _ => 0⟩
  serverCount := 1
  endpointInfo _ := ⟨2, 2, 2⟩
  network := ⟨fun _ => emptyBuffer, 0, [], []⟩
  descriptors := rawDescriptors.initRds
  rxTxStates _ := ⟨0, [], 0⟩
  endpointCount := 1
  requestStates _ := ⟨fun _ => 0, emptyBatch, fun _ => emptyBatch⟩
  needToUpdateRemoteEid := false

/-- A response for the first descriptor in its first epoch. -/
def firstResponse : PacketBuffer :=
  RequestBatchBuilder.build emptyBuffer true
    [⟨.kNoopRead, .kSuccess, 0, 0, fun _ => 0, 0, fun _ => 0, 0⟩]

/-- A response that comes before the first request, such as one for a client that was there
before. -/
def earlyResponse : List (Event Nat) := [.handleResponse 0 fun _ => [firstResponse]]

theorem exists_responses_firstResponse {c : Client oneDescriptor Nat} (h : c.endpointCount = 1) :
    ∃ r, (c.responses fun _ => [firstResponse]) = [r] ∧
      r.getOpaque = 0 ∧ r.getRd = 0 ∧ r.getEpoch = 0 := by
  have hcode : (responsesOf firstResponse).map RequestBatchReader.getOpaque = [0] := by
    decide +kernel
  obtain ⟨r, hr, hzero⟩ := map_eq_singleton_iff.mp hcode
  unfold RequestBatchReader.getRd RequestBatchReader.getEpoch
  refine ⟨r, ?_, by simp only [hzero]; decide⟩
  unfold responses
  rw [h, if_neg (by decide), ← hr]
  simp

/-- The response is taken though no request is active. -/
theorem not_everyCall_intact_earlyResponse : freshClient.descriptors = rawDescriptors.initRds ∧
      (earlyResponse.map Event.time).Pairwise (· ≤ ·) ∧
      (∀ event ∈ earlyResponse, event.time + oneDescriptor.requestTimeout < 2 ^ 64) ∧
      ¬EveryCall Intact freshClient earlyResponse := by
  refine ⟨rfl, pairwise_singleton _ _, fun event hevent => ?_, fun h => ?_⟩
  · rw [mem_singleton.mp hevent]
    decide
  · obtain ⟨_, _, hcall, -, hcalls⟩ := h.1
    have hsol := solicited_of_handleResponse (c := freshClient)
      (rawDescriptors.wellFormedAt_initRds 0) hcall hcalls
    obtain ⟨r, hr, -, hrd, hepoch⟩ := exists_responses_firstResponse (c := freshClient) rfl
    refine hsol.unused r (hr ▸ mem_cons_self) (hrd ▸ Nat.one_pos) ?_ ?_
    · rw [show freshClient.descriptors.actives = [] from
        (Descriptors.lists_initRds rawDescriptors).actives_eq]
      exact not_mem_nil
    · rw [hrd, hepoch]
      decide

/-- A request, and the response to it. -/
def requestAndResponse : List (Event Nat) :=
  [.request 0 ⟨.kNoopRead, 0, fun _ => 0, 0, fun _ => 0, 0, 7⟩,
    .handleResponse 1 fun _ => [firstResponse]]

/-- The response is for the active descriptor, so that both calls leave the lists intact. -/
theorem everyCall_intact_requestAndResponse :
    EveryCall Intact freshClient requestAndResponse := by
  refine (everyCall_intact_iff freshClient rawDescriptors requestAndResponse rfl ?_ ?_).mpr ?_
  · decide
  · intro event hevent
    simp only [requestAndResponse, mem_cons, not_mem_nil, or_false] at hevent
    rcases hevent with rfl | rfl
    · decide
    · decide
  · refine ⟨trivial, fun c' hc' => ⟨?_, fun _ _ => trivial⟩⟩
    have hactives : c'.descriptors.actives = [0] := by
      cases hc'
      rfl
    have hcount : c'.endpointCount = 1 := by
      cases hc'
      rfl
    obtain ⟨r, hr, -, hrd, -⟩ := exists_responses_firstResponse hcount
    unfold Solicited
    dsimp only
    rw [hr]
    refine ⟨fun r' hr' _ hunused => absurd ?_ hunused, pairwise_singleton _ _⟩
    rw [mem_singleton.mp hr', hrd, hactives]
    exact mem_singleton_self 0

end Testbed.Mica
