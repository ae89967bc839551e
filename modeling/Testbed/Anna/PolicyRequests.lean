import Testbed.Anna.Policies
import Testbed.Anna.FactorChanges

/-! # What the loops of the policies request

Each loop goes through the access summary and requests new factors for the keys that it
selects; the factors depend only on the key (`Collects`).  Reading factors leaves entries
behind, but none of them reads otherwise (`Touched`).
-/
namespace Testbed.Anna

open Std Lib List

namespace KeyReplication

theorem touchLocal_same (rep : KeyReplication) (tier : Tier) : (rep.touchLocal tier).Same rep := by
  intro tier'
  refine ⟨rfl, ?_⟩
  unfold touchLocal setLocal localAt
  dsimp only
  by_cases htier : tier' = tier
  · subst htier
    rw [Function.update_self]
    rfl
  · rw [Function.update_of_ne htier]

end KeyReplication

namespace PolicyState
variable {policy : Policy} {s t t' : PolicyState policy} {obs : Observations policy.double}

/-! ## Reading factors -/

/-- The states differ in entries that reading factors has made. -/
structure Touched (s t : PolicyState policy) : Prop where
  frame : ∃ m, t = { s with keyReplicationMap := m }
  same : ∀ k, (t.factors k).Same (s.factors k)

theorem Touched.refl (s : PolicyState policy) : Touched s s := ⟨⟨_, rfl⟩, fun _ => .refl _⟩

theorem Touched.trans (h : Touched s t) (h' : Touched t t') : Touched s t' := by
  obtain ⟨m, hm⟩ := h.frame
  obtain ⟨m', hm'⟩ := h'.frame
  refine ⟨⟨m', ?_⟩, fun k => (h'.same k).trans (h.same k)⟩
  rw [hm', hm]

variable {key : Key}

theorem Touched.setFactors (h : Touched s t) {rep : KeyReplication}
    (hrep : rep.Same (t.factors key)) : Touched s (t.setFactors key rep) := by
  refine h.trans ⟨⟨_, rfl⟩, fun k => ?_⟩
  have hfactors : (t.setFactors key rep).factors k = if key = k then rep else t.factors k :=
    MonitorState.factors_setFactors t.toMonitorState key rep k
  rw [hfactors]
  split
  · rename_i heq
    exact heq ▸ hrep
  · exact .refl _

theorem Touched.touchGlobal (h : Touched s t) (key : Key) (tier : Tier) :
    Touched s (t.touchGlobal key tier) :=
  h.setFactors (KeyReplication.touchGlobal_same _ tier)

theorem Touched.touchLocal (h : Touched s t) (key : Key) (tier : Tier) :
    Touched s (t.touchLocal key tier) :=
  h.setFactors (KeyReplication.touchLocal_same _ tier)

theorem Touched.globalFactor (h : Touched s t) (key : Key) (tier : Tier) :
    t.globalFactor key tier = s.globalFactor key tier := by
  unfold PolicyState.globalFactor
  rw [(h.same key tier).1]

theorem Touched.localFactor (h : Touched s t) (key : Key) (tier : Tier) :
    t.localFactor key tier = s.localFactor key tier := by
  unfold PolicyState.localFactor
  rw [(h.same key tier).2]

/-! ## Collecting requests -/

/-- The entries of the access summary that were seen, and the requests made for those of
them that are selected; whether one is may depend on those before it. -/
structure Collects (s : PolicyState policy) (Selects : List (Key × UInt32) → Key × UInt32 → Prop)
    (value : Key → KeyReplication) (done : List (Key × UInt32)) (t : PolicyState policy)
    (requests : Requests) : Prop where
  touched : Touched s t
  requested : ∀ (key : Key) (rep : KeyReplication), requests[key]? = some rep ↔
    rep = value key ∧ ∃ pre entry post, done = pre ++ entry :: post ∧ entry.1 = key ∧
      Selects pre entry

namespace Collects
variable {Selects : List (Key × UInt32) → Key × UInt32 → Prop} {value : Key → KeyReplication}
  {done : List (Key × UInt32)} {requests : Requests} {entry : Key × UInt32}

theorem initial : Collects s Selects value [] s ∅ where
  touched := .refl s
  requested key rep := by simp

theorem exists_split_append {P : List (Key × UInt32) → Key × UInt32 → Prop} :
    (∃ pre e post, done ++ [entry] = pre ++ e :: post ∧ P pre e) ↔
      (∃ pre e post, done = pre ++ e :: post ∧ P pre e) ∨ P done entry := by
  constructor
  · rintro ⟨pre, e, post, hsplit, hP⟩
    rcases eq_nil_or_concat post with rfl | ⟨post, last, rfl⟩
    · obtain ⟨rfl, heq⟩ := append_inj' hsplit rfl
      cases heq
      exact .inr hP
    · have hsplit' : done ++ [entry] = (pre ++ e :: post) ++ [last] := by simpa using hsplit
      exact .inl ⟨pre, e, post, (append_inj' hsplit' rfl).1, hP⟩
  · rintro (⟨pre, e, post, rfl, hP⟩ | hP)
    · exact ⟨pre, e, post ++ [entry], by rw [append_assoc]; rfl, hP⟩
    · exact ⟨done, entry, [], rfl, hP⟩

section
variable (h : Collects s Selects value done t requests)
include h

theorem skip (htouched : Touched s t')
    (hnot : ¬ Selects done entry) : Collects s Selects value (done ++ [entry]) t' requests where
  touched := htouched
  requested key rep := by
    rw [h.requested, exists_split_append (P := fun pre e => e.1 = key ∧ Selects pre e),
      or_iff_left fun hlast => hnot hlast.2]

theorem take (htouched : Touched s t') (hselects : Selects done entry) :
    Collects s Selects value (done ++ [entry]) t' (requests.insert entry.1 (value entry.1)) where
  touched := htouched
  requested key rep := by
    rw [exists_split_append (P := fun pre e => e.1 = key ∧ Selects pre e),
      ExtTreeMap.getElem?_insert]
    simp only [Std.compare_eq_iff_eq]
    by_cases hkey : entry.1 = key
    · subst hkey
      rw [if_pos rfl, Option.some_inj, eq_comm]
      exact ⟨fun hrep => ⟨hrep, .inr ⟨rfl, hselects⟩⟩, fun hrep => hrep.1⟩
    · rw [if_neg hkey, h.requested, or_iff_left fun hlast => hkey hlast.1]

/-- What holds of all requests holds of the values at all entries that are selected. -/
theorem forall_iff (P : KeyReplication → Prop) :
    (∀ (key : Key) (rep : KeyReplication), requests[key]? = some rep → P rep) ↔
      ∀ pre entry post, done = pre ++ entry :: post → Selects pre entry → P (value entry.1) := by
  constructor
  · intro hall pre entry post hsplit hselects
    exact hall entry.1 _ ((h.requested _ _).mpr ⟨rfl, pre, entry, post, hsplit, rfl, hselects⟩)
  · intro hall key rep hrep
    obtain ⟨rfl, pre, entry, post, hsplit, rfl, hselects⟩ := (h.requested key rep).mp hrep
    exact hall pre entry post hsplit hselects

end

end Collects

/-! ## Loops over the access summary -/

/-- Only the empty key makes `is_metadata` fail. -/
theorem isMetadata_returns_iff : (∃ metadata, isMetadata key = .ok metadata) ↔ key ≠ "" := by
  constructor
  · rintro ⟨metadata, h⟩ rfl
    cases h
  · exact isMetadata_returns

/-- No key of the access summary is empty. -/
def Named (obs : Observations policy.double) : Prop := ∀ entry ∈ obs.keyAccessSummary, entry.1 ≠ ""

variable {σ : Type}

theorem classify_returns_iff {next : Bool → Except Fault σ}
    (hnext : ∀ metadata, ∃ acc, next metadata = .ok acc) :
    (∃ acc, (isMetadata key >>= next) = .ok acc) ↔ key ≠ "" := by
  rw [bind_returns_iff, ← isMetadata_returns_iff]
  exact ⟨fun ⟨metadata, h, _⟩ => ⟨metadata, h⟩, fun ⟨metadata, h⟩ => ⟨metadata, h, hnext metadata⟩⟩

theorem classify_cases {next : Bool → Except Fault σ} {acc : σ}
    (h : (isMetadata key >>= next) = .ok acc) :
    isMetadata key ≠ .ok false ∧ next true = .ok acc ∨
      isMetadata key = .ok false ∧ next false = .ok acc := by
  obtain ⟨metadata, hmetadata, hnext⟩ := bind_eq_ok.mp h
  cases metadata with
  | true => exact .inl ⟨by rw [hmetadata]; simp, hnext⟩
  | false => exact .inr ⟨hmetadata, hnext⟩

/-- A loop over the summary returns just if no key is empty. -/
theorem loop_returns_iff {f : σ → Key × UInt32 → Except Fault σ}
    (hf : ∀ acc entry, (∃ acc', f acc entry = .ok acc') ↔ entry.1 ≠ "") (acc : σ) :
    (∃ acc', obs.keyAccessSummary.foldlM f acc = .ok acc') ↔ Named obs := by
  rw [foldlM_returns_iff (fun _ entry => entry.1 ≠ "") fun pre entry post acc _ _ => hf acc entry]
  exact forall_split_iff

/-! ## Promotion and demotion -/

/-- The storage that the eligible ones of some entries need. -/
def required (obs : Observations policy.double) (Eligible : Key × UInt32 → Prop)
    [DecidablePred Eligible] (entries : List (Key × UInt32)) : UInt64 :=
  (entries.filter fun entry => Eligible entry).foldl
    (fun total entry => total + (obs.keySize.getD entry.1 0).toUInt64) 0

section
variable {Eligible : Key × UInt32 → Prop} [DecidablePred Eligible] {free : UInt64}
  {value : Key → KeyReplication} {done : List (Key × UInt32)} {entry : Key × UInt32}
  {acc : Movement policy}

theorem required_append_of_pos (h : Eligible entry) : required obs Eligible (done ++ [entry]) =
      required obs Eligible done + (obs.keySize.getD entry.1 0).toUInt64 := by
  unfold required
  rw [filter_append, filter_singleton, decide_eq_true h, foldl_append]
  rfl

theorem required_append_of_neg (h : ¬ Eligible entry) :
    required obs Eligible (done ++ [entry]) = required obs Eligible done := by
  unfold required
  rw [filter_append, filter_singleton, decide_eq_false h]
  simp

/-- The variables of one of the first two loops after some entries: an eligible key is
requested while there is room for it. -/
structure Moves (s : PolicyState policy) (obs : Observations policy.double)
    (Eligible : Key × UInt32 → Prop) [DecidablePred Eligible] (free : UInt64)
    (value : Key → KeyReplication) (done : List (Key × UInt32)) (acc : Movement policy) :
    Prop where
  collects : Collects s
    (fun pre entry => Eligible entry ∧ required obs Eligible (pre ++ [entry]) ≤ free)
    value done acc.state acc.requests
  storage : acc.requiredStorage = required obs Eligible done

theorem Moves.initial : Moves s obs Eligible free value [] { state := s } :=
  ⟨.initial, rfl⟩

section
variable (h : Moves s obs Eligible free value done acc)
include h

theorem Moves.touchGlobal (key : Key) (tier : Tier) :
    Moves s obs Eligible free value done { acc with state := acc.state.touchGlobal key tier } :=
  ⟨⟨h.collects.touched.touchGlobal key tier, h.collects.requested⟩, h.storage⟩

theorem Moves.skip (hnot : ¬ Eligible entry) (htouched : Touched s t) :
    Moves s obs Eligible free value (done ++ [entry]) { acc with state := t } where
  collects := h.collects.skip htouched fun hsel => hnot hsel.1
  storage := by rw [required_append_of_neg hnot]; exact h.storage

theorem Moves.require (heligible : Eligible entry)
    {rep : PolicyState policy → PolicyState policy × KeyReplication}
    (hrep : ∀ t, Touched s t → Touched s (rep t).1 ∧ (rep t).2 = value entry.1) :
    Moves s obs Eligible free value (done ++ [entry]) (acc.require obs free entry.1 rep) := by
  obtain ⟨htouched, hvalue⟩ := hrep acc.state h.collects.touched
  have hstorage : acc.requiredStorage + (obs.keySize.getD entry.1 0).toUInt64 =
      required obs Eligible (done ++ [entry]) := by
    rw [required_append_of_pos heligible, h.storage]
  unfold Movement.require
  dsimp only
  split
  · rename_i hfull
    refine ⟨h.collects.skip h.collects.touched fun hsel => ?_, hstorage⟩
    rw [hstorage] at hfull
    exact absurd hsel.2 (UInt64.not_le.mpr hfull)
  · rename_i hroom
    refine ⟨?_, hstorage⟩
    rw [hvalue]
    refine h.collects.take htouched ⟨heligible, ?_⟩
    rw [← hstorage]
    exact UInt64.not_lt.mp hroom

end

end

/-- A hot key that is not in memory. -/
def Promotable (s : PolicyState policy) (obs : Observations policy.double) (entry : Key × UInt32) :
    Prop :=
  isMetadata entry.1 = .ok false ∧ kKeyPromotionThreshold < entry.2 ∧
    s.globalFactor entry.1 .memory = 0 ∧ entry.1 ∈ obs.keySize

instance (s : PolicyState policy) (obs : Observations policy.double) :
    DecidablePred (Promotable s obs) :=
  fun _ => inferInstanceAs (Decidable (_ ∧ _ ∧ _ ∧ _))

/-- A cold key that is in memory. -/
def Demotable (s : PolicyState policy) (obs : Observations policy.double) (entry : Key × UInt32) :
    Prop :=
  isMetadata entry.1 = .ok false ∧ entry.2 < kKeyDemotionThreshold ∧
    0 < s.globalFactor entry.1 .memory ∧ entry.1 ∈ obs.keySize

instance (s : PolicyState policy) (obs : Observations policy.double) :
    DecidablePred (Demotable s obs) :=
  fun _ => inferInstanceAs (Decidable (_ ∧ _ ∧ _ ∧ _))

theorem Touched.promoted (h : Touched s t) (key : Key) : t.promoted key = s.promoted key := by
  unfold PolicyState.promoted
  rw [h.globalFactor, h.globalFactor, h.localFactor, h.localFactor]

variable {done : List (Key × UInt32)} {entry : Key × UInt32}

/-- **A step of the promotion** requests a hot key, if there is room. -/
theorem promoteKey_moves {acc acc' : Movement policy}
    (h : Moves s obs (Promotable s obs) (freeMemory obs) s.promoted done acc)
    (hstep : promoteKey obs acc entry = .ok acc') :
    Moves s obs (Promotable s obs) (freeMemory obs) s.promoted (done ++ [entry]) acc' := by
  have htouched := h.collects.touched
  have hread := h.touchGlobal entry.1 .memory
  have hfactor := hread.collects.touched.globalFactor entry.1 .memory
  obtain ⟨hmetadata, hstep⟩ | ⟨hmetadata, hstep⟩ := classify_cases hstep
  · cases hstep
    exact h.skip (fun hpromotable => hmetadata hpromotable.1) htouched
  · dsimp only at hstep
    rw [if_neg Bool.false_ne_true] at hstep
    split_ifs at hstep with hcount hmove <;> cases hstep
    · refine hread.require ⟨hmetadata, hcount, hfactor ▸ hmove.1, hmove.2⟩ fun t ht => ⟨?_, ?_⟩
      · exact (((ht.touchGlobal _ _).touchGlobal _ _).touchLocal _ _).touchLocal _ _
      · exact ht.promoted entry.1
    · refine hread.skip (fun hpromotable => hmove ⟨?_, hpromotable.2.2.2⟩) hread.collects.touched
      exact hfactor.trans hpromotable.2.2.1
    · exact h.skip (fun hpromotable => hcount hpromotable.2.1) htouched

/-- **A step of the demotion** requests a cold key, if there is room. -/
theorem demoteKey_moves {acc acc' : Movement policy}
    (h : Moves s obs (Demotable s obs) (freeEbs obs)
      (fun _ => replicationVector 0 policy.minimumReplicaNumber 1 1) done acc)
    (hstep : demoteKey obs acc entry = .ok acc') :
    Moves s obs (Demotable s obs) (freeEbs obs)
      (fun _ => replicationVector 0 policy.minimumReplicaNumber 1 1) (done ++ [entry]) acc' := by
  have htouched := h.collects.touched
  have hread := h.touchGlobal entry.1 .memory
  have hfactor := hread.collects.touched.globalFactor entry.1 .memory
  obtain ⟨hmetadata, hstep⟩ | ⟨hmetadata, hstep⟩ := classify_cases hstep
  · cases hstep
    exact h.skip (fun hdemotable => hmetadata hdemotable.1) htouched
  · dsimp only at hstep
    rw [if_neg Bool.false_ne_true] at hstep
    split_ifs at hstep with hcount hmove <;> cases hstep
    · exact hread.require ⟨hmetadata, hcount, hfactor ▸ hmove.1, hmove.2⟩ fun t ht => ⟨ht, rfl⟩
    · refine hread.skip (fun hdemotable => hmove ⟨?_, hdemotable.2.2.2⟩) hread.collects.touched
      rw [hfactor]
      exact hdemotable.2.2.1
    · exact h.skip (fun hdemotable => hcount hdemotable.2.1) htouched

theorem promoteKey_returns_iff (acc : Movement policy) (entry : Key × UInt32) :
    (∃ acc', promoteKey obs acc entry = .ok acc') ↔ entry.1 ≠ "" := by
  refine classify_returns_iff fun metadata => ?_
  dsimp only
  split_ifs <;> exact ⟨_, rfl⟩

theorem demoteKey_returns_iff (acc : Movement policy) (entry : Key × UInt32) :
    (∃ acc', demoteKey obs acc entry = .ok acc') ↔ entry.1 ≠ "" := by
  refine classify_returns_iff fun metadata => ?_
  dsimp only
  split_ifs <;> exact ⟨_, rfl⟩

/-! ## Dereplication -/

/-- A key that is not accessed often, with other factors than the smallest. -/
def Dereplicable (s : PolicyState policy) (obs : Observations policy.double)
    (entry : Key × UInt32) : Prop :=
  isMetadata entry.1 = .ok false ∧
    policy.double.le (policy.double.ofNat entry.2.toNat) obs.ss.keyAccessMean = true ∧
    ¬ (s.factors entry.1).equals (minimumRep policy) = true

/-- In this loop the entries that were made matter, since `operator==` sees them; a key is
compared as it was before the loop, for it comes only once. -/
structure Dereplicates (s : PolicyState policy) (obs : Observations policy.double)
    (done : List (Key × UInt32)) (acc : PolicyState policy × Requests) : Prop where
  collects : Collects s (fun _ entry => Dereplicable s obs entry) (fun _ => minimumRep policy)
    done acc.1 acc.2
  kept : ∀ k, (∀ entry ∈ done, entry.1 ≠ k) → acc.1.factors k = s.factors k

theorem factors_setFactors_of_ne {k : Key} (h : key ≠ k) (rep : KeyReplication) :
    (s.setFactors key rep).factors k = s.factors k :=
  (MonitorState.factors_setFactors s.toMonitorState key rep k).trans (if_neg h)

/-- **A step of the dereplication.** -/
theorem Dereplicates.step {acc acc' : PolicyState policy × Requests}
    (h : Dereplicates s obs done acc) (hnew : ∀ e ∈ done, e.1 ≠ entry.1)
    (hstep : dereplicateKey obs acc entry = .ok acc') :
    Dereplicates s obs (done ++ [entry]) acc' := by
  have htouched := h.collects.touched
  have hkept : ∀ k, (∀ e ∈ done ++ [entry], e.1 ≠ k) →
      acc.1.factors k = s.factors k ∧ entry.1 ≠ k := by
    intro k hk
    exact ⟨h.kept k fun e he => hk e (mem_append_left _ he), hk entry (by simp)⟩
  obtain ⟨hmetadata, hstep⟩ | ⟨hmetadata, hstep⟩ := classify_cases hstep
  · cases hstep
    exact ⟨h.collects.skip htouched fun hsel => hmetadata hsel.1, fun k hk => (hkept k hk).1⟩
  · dsimp only at hstep
    rw [if_neg Bool.false_ne_true] at hstep
    split at hstep
    · rename_i hcount
      have hself : Touched s (acc.1.setFactors entry.1 (acc.1.factors entry.1)) :=
        htouched.setFactors (.refl _)
      have hcompared : (acc.1.setFactors entry.1 (acc.1.factors entry.1)).factors entry.1 =
          s.factors entry.1 := by
        rw [← h.kept entry.1 hnew]
        exact (MonitorState.factors_setFactors acc.1.toMonitorState _ _ _).trans (if_pos rfl)
      rw [hcompared] at hstep
      split at hstep
      · rename_i hequals
        cases hstep
        refine ⟨h.collects.skip hself fun hsel => hsel.2.2 hequals, fun k hk => ?_⟩
        exact (factors_setFactors_of_ne (hkept k hk).2 _).trans (hkept k hk).1
      · rename_i hequals
        cases hstep
        refine ⟨h.collects.take ((hself.touchGlobal _ _).touchGlobal _ _)
          ⟨hmetadata, hcount, hequals⟩, fun k hk => ?_⟩
        obtain ⟨hk, hne⟩ := hkept k hk
        unfold touchGlobal
        rw [factors_setFactors_of_ne hne, factors_setFactors_of_ne hne,
          factors_setFactors_of_ne hne, hk]
    · rename_i hcount
      cases hstep
      exact ⟨h.collects.skip htouched fun hsel => hcount hsel.2.1, fun k hk => (hkept k hk).1⟩

variable (acc : PolicyState policy × Requests)

theorem dereplicateKey_returns_iff (entry : Key × UInt32) :
    (∃ acc', dereplicateKey obs acc entry = .ok acc') ↔ entry.1 ≠ "" := by
  refine classify_returns_iff fun metadata => ?_
  dsimp only
  split_ifs <;> exact ⟨_, rfl⟩

/-! ## Hot keys -/

/-- A key that is accessed too often, and whose latency was reported. -/
def Hot (obs : Observations policy.double) (entry : Key × UInt32) (ratio : policy.double.F) :
    Prop :=
  isMetadata entry.1 = .ok false ∧
    policy.double.lt (policy.double.add obs.ss.keyAccessMean obs.ss.keyAccessStd)
      (policy.double.ofNat entry.2.toNat) = true ∧
    obs.latencyMissRatioMap[entry.1]?.map Prod.fst = some ratio

/-- There is a memory node without a replica of the key, and it should have one. -/
def Spreads (s : PolicyState policy) (obs : Observations policy.double) (key : Key)
    (ratio : policy.double.F) : Prop :=
  s.globalFactor key .memory < s.targetRepFactor key ratio ∧
    s.globalFactor key .memory < obs.memoryNodeCount

instance (s : PolicyState policy) (obs : Observations policy.double) (key : Key)
    (ratio : policy.double.F) : Decidable (Spreads s obs key ratio) :=
  inferInstanceAs (Decidable (_ ∧ _))

/-- The memory factor that a hot key gets. -/
def spreadTo (s : PolicyState policy) (obs : Observations policy.double) (key : Key)
    (ratio : policy.double.F) : UInt32 :=
  min obs.memoryNodeCount (s.targetRepFactor key ratio)

/-- The ratio of a key that has one. -/
def ratioOf (obs : Observations policy.double) (key : Key) : policy.double.F :=
  (obs.latencyMissRatioMap[key]?.map Prod.fst).getD (policy.double.ofNat 0)

/-- The factors requested for a hot key. -/
def hotFactors (s : PolicyState policy) (obs : Observations policy.double) (key : Key) :
    KeyReplication :=
  if Spreads s obs key (ratioOf obs key) then
    s.rebalanced key (spreadTo s obs key (ratioOf obs key))
  else s.localReplicated key

/-- New factors are requested for the entry. -/
def HotRequest (s : PolicyState policy) (obs : Observations policy.double) (entry : Key × UInt32) :
    Prop :=
  Hot obs entry (ratioOf obs entry.1) ∧ (Spreads s obs entry.1 (ratioOf obs entry.1) ∨
    s.localFactor entry.1 .memory < policy.memoryThreadCount)

theorem Touched.targetRepFactor (h : Touched s t) (key : Key) (ratio : policy.double.F) :
    t.targetRepFactor key ratio = s.targetRepFactor key ratio := by
  unfold PolicyState.targetRepFactor
  rw [h.globalFactor]

theorem Touched.rebalanced (h : Touched s t) (key : Key) (newMemRep : UInt32) :
    t.rebalanced key newMemRep = s.rebalanced key newMemRep := by
  unfold PolicyState.rebalanced
  rw [h.localFactor, h.localFactor]

theorem Touched.localReplicated (h : Touched s t) (key : Key) :
    t.localReplicated key = s.localReplicated key := by
  unfold PolicyState.localReplicated
  rw [h.globalFactor, h.globalFactor, h.localFactor]

/-- **A step of the replication** of hot keys. -/
theorem hotKey_collects {acc acc' : PolicyState policy × Requests}
    (h : Collects s (fun _ entry => HotRequest s obs entry) (hotFactors s obs) done acc.1 acc.2)
    (hstep : hotKey obs acc entry = .ok acc') :
    Collects s (fun _ entry => HotRequest s obs entry) (hotFactors s obs) (done ++ [entry])
      acc'.1 acc'.2 := by
  have htouched := h.touched
  obtain ⟨hmetadata, hstep⟩ | ⟨hmetadata, hstep⟩ := classify_cases hstep
  · cases hstep
    exact h.skip htouched fun hsel => hmetadata hsel.1.1
  · rw [if_neg Bool.false_ne_true] at hstep
    split at hstep
    · rename_i hcount
      cases hratio : obs.latencyMissRatioMap[entry.1]? with
      | none =>
        rw [hratio] at hstep
        cases hstep
        refine h.skip htouched fun hsel => ?_
        have hsome := hsel.1.2.2
        rw [hratio] at hsome
        cases hsome
      | some ratio =>
        rw [hratio] at hstep
        cases hstep
        have hof : ratioOf obs entry.1 = ratio.1 := by rw [ratioOf, hratio]; rfl
        have hhot : Hot obs entry (ratioOf obs entry.1) :=
          ⟨hmetadata, hcount, by rw [hof, hratio]; rfl⟩
        have htouched' := htouched.touchGlobal entry.1 .memory
        unfold replicateKey
        dsimp only
        rw [htouched'.targetRepFactor, htouched'.globalFactor, htouched'.rebalanced, ← hof]
        by_cases hspreads : Spreads s obs entry.1 (ratioOf obs entry.1)
        · rw [if_pos (show _ ∧ _ from hspreads)]
          have hvalue : s.rebalanced entry.1 (min obs.memoryNodeCount
              (s.targetRepFactor entry.1 (ratioOf obs entry.1))) = hotFactors s obs entry.1 :=
            (if_pos hspreads).symm
          rw [hvalue]
          exact h.take ((htouched'.touchLocal _ _).touchLocal _ _) ⟨hhot, .inl hspreads⟩
        · have hlocal := htouched'.touchLocal entry.1 .memory
          rw [if_neg (show ¬ (_ ∧ _) from hspreads), hlocal.localFactor, hlocal.localReplicated]
          split
          · rename_i hthreads
            have hvalue : s.localReplicated entry.1 = hotFactors s obs entry.1 :=
              (if_neg hspreads).symm
            rw [hvalue]
            exact h.take ((hlocal.touchGlobal _ _).touchLocal _ _) ⟨hhot, .inr hthreads⟩
          · rename_i hthreads
            exact h.skip hlocal fun hsel => hsel.2.elim hspreads hthreads
    · rename_i hcount
      cases hstep
      exact h.skip htouched fun hsel => hcount hsel.1.2.1

theorem hotKey_returns_iff (entry : Key × UInt32) :
    (∃ acc', hotKey obs acc entry = .ok acc') ↔ entry.1 ≠ "" := by
  refine classify_returns_iff fun metadata => ?_
  split_ifs
  · exact ⟨_, rfl⟩
  · split <;> exact ⟨_, rfl⟩
  · exact ⟨_, rfl⟩

/-! ## Keys on all memory nodes -/

/-- A key that has a replica on every memory node. -/
def Everywhere (s : PolicyState policy) (entry : Key × UInt32) : Prop :=
  isMetadata entry.1 = .ok false ∧ (s.globalFactor entry.1 .memory).toNat =
    (s.globalHashRings .memory).nodes.nodes.size / kVirtualThreadNum

/-- The factors requested for a key when a memory node goes. -/
def withdrawn (s : PolicyState policy) (key : Key) : KeyReplication :=
  s.rebalanced key (s.globalFactor key .memory - 1)

/-- **A step of the removal of a node**, about keys that are everywhere. -/
theorem removalKey_collects {acc acc' : PolicyState policy × Requests}
    (h : Collects s (fun _ entry => Everywhere s entry) s.withdrawn done acc.1 acc.2)
    (hstep : removalKey acc entry = .ok acc') :
    Collects s (fun _ entry => Everywhere s entry) s.withdrawn (done ++ [entry]) acc'.1 acc'.2 := by
  have htouched := h.touched
  obtain ⟨hmetadata, hstep⟩ | ⟨hmetadata, hstep⟩ := classify_cases hstep
  · cases hstep
    exact h.skip htouched fun hsel => hmetadata hsel.1
  · dsimp only at hstep
    rw [if_neg Bool.false_ne_true] at hstep
    have htouched' := htouched.touchGlobal entry.1 .memory
    have hring : (acc.1.touchGlobal entry.1 .memory).globalHashRings .memory =
        s.globalHashRings .memory := by
      obtain ⟨m, hm⟩ := htouched'.frame
      rw [hm]
    rw [htouched'.globalFactor, hring, htouched'.rebalanced] at hstep
    split at hstep
    · rename_i hall
      cases hstep
      exact h.take (((htouched'.touchLocal _ _).touchLocal _ _).touchGlobal _ _) ⟨hmetadata, hall⟩
    · rename_i hall
      cases hstep
      exact h.skip htouched' fun hsel => hall hsel.2

theorem removalKey_returns_iff (entry : Key × UInt32) :
    (∃ acc', removalKey acc entry = .ok acc') ↔ entry.1 ≠ "" := by
  refine classify_returns_iff fun metadata => ?_
  dsimp only
  split_ifs <;> exact ⟨_, rfl⟩

end PolicyState

end Testbed.Anna
