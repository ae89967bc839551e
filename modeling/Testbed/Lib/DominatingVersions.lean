import Mathlib.Order.Lattice
import Mathlib.Order.BoundedOrder.Lattice
import Mathlib.Data.List.Induction
import Mathlib.Order.Preorder.Finite
import Mathlib.Data.Multiset.Fintype
import Testbed.Lib.Delivery

/-! # Registers that keep the dominating version

A version is a clock and a value, both from join-semilattices with a least
element.  A register holds one version and `absorb`s incoming ones: its clock
becomes the join; an incoming version whose clock already is the join replaces
the value, one whose clock adds nothing is dropped, and one that is concurrent
with the register has its value joined in.

`absorb` is neither commutative nor associative.  What a replica ends up with is
described by **concurrent chains**: lists of versions each of which is concurrent
with the join of the clocks before it.  Every replay keeps exactly the values of
one such chain (`register_spec`), and every chain that builds the full join is
kept by some replay (`register_chain`), so a multiset of versions converges iff
its dominating versions agree and, when it has none, all its chains carry the
same joined value (`Decided`, `converges_iff`).

The second half answers for which *clocks* this holds whatever the values are:
`Settled` (`converges_of_settled`, `exists_relabelling_of_not_settled`).
-/
namespace Testbed.Lib.DominatingVersions

section
variable {α L : Type*} [SemilatticeSup L] [OrderBot L]

/-- The join of `f` over a list. -/
def joinOf (f : α → L) : List α → L
  | [] => ⊥
  | p :: l => f p ⊔ joinOf f l

@[simp] theorem joinOf_nil (f : α → L) : joinOf f [] = ⊥ := rfl

@[simp] theorem joinOf_cons (f : α → L) (p : α) (l : List α) :
    joinOf f (p :: l) = f p ⊔ joinOf f l := rfl

variable {f : α → L} {l : List α}

theorem joinOf_le_iff {c : L} : joinOf f l ≤ c ↔ ∀ p ∈ l, f p ≤ c := by
  induction l with
  | nil => simp
  | cons _ _ ih => simp [ih]

theorem le_joinOf {p : α} (h : p ∈ l) : f p ≤ joinOf f l :=
  joinOf_le_iff.mp le_rfl p h

theorem joinOf_congr {l' : List α} (h : ∀ p, p ∈ l ↔ p ∈ l') : joinOf f l = joinOf f l' :=
  le_antisymm (joinOf_le_iff.mpr fun p hp => le_joinOf ((h p).mp hp))
    (joinOf_le_iff.mpr fun p hp => le_joinOf ((h p).mpr hp))

theorem joinOf_concat (f : α → L) (l : List α) (p : α) :
    joinOf f (l ++ [p]) = joinOf f l ⊔ f p := by
  have h : joinOf f (l ++ [p]) = joinOf f (p :: l) := joinOf_congr (by simp [or_comm])
  rw [h, joinOf_cons, sup_comm]

end

section
variable {C V : Type*} [SemilatticeSup C] [DecidableEq C] [SemilatticeSup V]

/-- The register `s` takes in the version `p`. -/
def absorb (s p : C × V) : C × V :=
  if s.1 ⊔ p.1 = p.1 then (s.1 ⊔ p.1, p.2)
  else if s.1 ⊔ p.1 = s.1 then (s.1 ⊔ p.1, s.2)
  else (s.1 ⊔ p.1, s.2 ⊔ p.2)

variable {p : C × V} {s : C × V}

theorem absorb_dominating (h : s.1 ≤ p.1) : absorb s p = p := by
  have : s.1 ⊔ p.1 = p.1 := sup_eq_right.mpr h
  simp [absorb, this]

theorem absorb_dominated (h : p.1 < s.1) : absorb s p = s := by
  have h1 := sup_eq_left.mpr h.le
  have h2 := h.ne'
  simp [absorb, h1, h2]

theorem absorb_concurrent (h₁ : ¬ s.1 ≤ p.1) (h₂ : ¬ p.1 ≤ s.1) :
    absorb s p = (s.1 ⊔ p.1, s.2 ⊔ p.2) := by
  simp [absorb, h₁, h₂]

/-- `absorb`, with the test for concurrent clocks before that for a dominated one. -/
theorem absorb_eq_ite (s p : C × V) : absorb s p =
    if s.1 ⊔ p.1 = p.1 then (s.1 ⊔ p.1, p.2)
    else if ¬ s.1 ⊔ p.1 = s.1 then (s.1 ⊔ p.1, s.2 ⊔ p.2) else (s.1 ⊔ p.1, s.2) := by
  rw [ite_not]
  rfl

@[simp] theorem absorb_fst (s p : C × V) : (absorb s p).1 = s.1 ⊔ p.1 := by
  unfold absorb
  split_ifs <;> rfl

end

section Chains
variable {C V : Type*} [SemilatticeSup C] [OrderBot C]

/-- A concurrent chain, latest version first: each version is concurrent with the
join of the clocks of those before it. -/
def ConcurrentChain : List (C × V) → Prop
  | [] => True
  | [_] => True
  | p :: q :: l =>
    ¬ p.1 ≤ joinOf Prod.fst (q :: l) ∧ ¬ joinOf Prod.fst (q :: l) ≤ p.1 ∧ ConcurrentChain (q :: l)

/-- `t` dominates `S`: it is a version of `S` whose clock is above all others. -/
def Dominates (S : Multiset (C × V)) (t : C × V) : Prop :=
  t ∈ S ∧ ∀ p ∈ S, p.1 ≤ t.1

/-- `K` builds up `S`: a concurrent chain of versions of `S` whose clocks join to
a bound of all clocks of `S`. -/
def Builds (S : Multiset (C × V)) (K : List (C × V)) : Prop :=
  ConcurrentChain K ∧ (∀ p ∈ K, p ∈ S) ∧ ∀ p ∈ S, p.1 ≤ joinOf Prod.fst K

variable {K : List (C × V)}

theorem concurrentChain_cons (hK : ConcurrentChain K) (h₁ : ¬ p.1 ≤ joinOf Prod.fst K)
    (h₂ : ¬ joinOf Prod.fst K ≤ p.1) : ConcurrentChain (p :: K) := by
  cases K with
  | nil => trivial
  | cons => exact ⟨h₁, h₂, hK⟩

theorem ConcurrentChain.tail (h : ConcurrentChain (p :: K)) : ConcurrentChain K := by
  cases K with
  | nil => trivial
  | cons => exact h.2.2

variable {l : List (C × V)}

theorem Builds.join_eq (h : Builds (l : Multiset (C × V)) K) :
    joinOf Prod.fst K = joinOf Prod.fst l :=
  le_antisymm (joinOf_le_iff.mpr fun p hp => le_joinOf (Multiset.mem_coe.mp (h.2.1 p hp)))
    (joinOf_le_iff.mpr fun p hp => h.2.2 p (Multiset.mem_coe.mpr hp))

variable {S : Multiset (C × V)} {T : Multiset (C × V)}

omit [OrderBot C] in
theorem dominates_congr (h : ∀ p, p ∈ S ↔ p ∈ T) (t : C × V) : Dominates S t ↔ Dominates T t := by
  simp [Dominates, h]

theorem builds_congr (h : ∀ p, p ∈ S ↔ p ∈ T) (K : List (C × V)) : Builds S K ↔ Builds T K := by
  simp [Builds, h]

/-- `K` is a chain that builds `l`; if a version of `l` dominates, then `K` is a
dominating version alone. -/
def Kept (l K : List (C × V)) : Prop :=
  Builds (l : Multiset (C × V)) K ∧ ((∃ t, Dominates (l : Multiset (C × V)) t) →
      ∃ t, Dominates (l : Multiset (C × V)) t ∧ K = [t])

theorem kept_dominating (h : joinOf Prod.fst l ≤ p.1) : Kept (l ++ [p]) [p] := by
  have hp : Dominates ((l ++ [p] : List (C × V)) : Multiset (C × V)) p := by
    refine ⟨by simp, fun q hq => ?_⟩
    rcases List.mem_append.mp (Multiset.mem_coe.mp hq) with hq | hq
    · exact (le_joinOf hq).trans h
    · rw [List.mem_singleton.mp hq]
  exact ⟨⟨trivial, by simp, by simpa using hp.2⟩, fun _ => ⟨p, hp, rfl⟩⟩

theorem Kept.dominated (hK : Kept l K) (h₁ : ¬ joinOf Prod.fst l ≤ p.1)
    (h₂ : p.1 ≤ joinOf Prod.fst l) : Kept (l ++ [p]) K := by
  obtain ⟨hB, htop⟩ := hK
  have hcases : ∀ q ∈ ((l ++ [p] : List (C × V)) : Multiset (C × V)), q ∈ l ∨ q = p :=
    fun q hq => by simpa using hq
  refine ⟨⟨hB.1, fun q hq => by simpa using .inl (hB.2.1 q hq), fun q hq => ?_⟩, ?_⟩
  · rcases hcases q hq with hq | rfl
    · exact hB.2.2 q (Multiset.mem_coe.mpr hq)
    · rw [hB.join_eq]
      exact h₂
  · -- what dominates now is not `p`, so it dominated before
    rintro ⟨t, ht, htop'⟩
    have htl : t ∈ l := by
      rcases hcases t ht with h | rfl
      · exact h
      · exact absurd (joinOf_le_iff.mpr fun q hq => htop' q (by simp [hq])) h₁
    obtain ⟨t', ht', rfl⟩ := htop ⟨t, Multiset.mem_coe.mpr htl, fun q hq =>
      htop' q (by simpa using .inl (Multiset.mem_coe.mp hq))⟩
    refine ⟨t', ⟨by simpa using .inl ht'.1, fun q hq => ?_⟩, rfl⟩
    rcases hcases q hq with hq | rfl
    · exact ht'.2 q (Multiset.mem_coe.mpr hq)
    · exact h₂.trans (joinOf_le_iff.mpr fun r hr => ht'.2 r (Multiset.mem_coe.mpr hr))

theorem Kept.concurrent (hK : Kept l K) (h₁ : ¬ joinOf Prod.fst l ≤ p.1)
    (h₂ : ¬ p.1 ≤ joinOf Prod.fst l) : Kept (l ++ [p]) (p :: K) := by
  have hB := hK.1
  have hcases : ∀ q ∈ ((l ++ [p] : List (C × V)) : Multiset (C × V)), q ∈ l ∨ q = p :=
    fun q hq => by simpa using hq
  refine ⟨⟨concurrentChain_cons hB.1 (by rwa [hB.join_eq]) (by rwa [hB.join_eq]), ?_, ?_⟩, ?_⟩
  · intro q hq
    rcases List.mem_cons.mp hq with rfl | hq
    · simp
    · simpa using .inl (hB.2.1 q hq)
  · intro q hq
    rcases hcases q hq with hq | rfl
    · exact (hB.2.2 q (Multiset.mem_coe.mpr hq)).trans le_sup_right
    · exact le_sup_left
  · rintro ⟨t, ht, htop'⟩
    exfalso
    rcases hcases t ht with h | rfl
    · exact h₂ ((htop' p (by simp)).trans (le_joinOf h))
    · exact h₁ (joinOf_le_iff.mpr fun q hq => htop' q (by simp [hq]))

/-! ### New values -/

variable {V' : Type*} (label : C × V → V')

/-- The versions with new values. -/
def relabel (p : C × V) : C × V' := (p.1, label p)

theorem joinOf_fst_relabel (l : List (C × V)) :
    joinOf Prod.fst (l.map (relabel label)) = joinOf Prod.fst l := by
  induction l with
  | nil => rfl
  | cons _ _ ih =>
    rw [List.map_cons, joinOf_cons, joinOf_cons, ih]
    rfl

omit [SemilatticeSup C] [OrderBot C] in
theorem joinOf_snd_relabel [SemilatticeSup V'] [OrderBot V'] (l : List (C × V)) :
    joinOf Prod.snd (l.map (relabel label)) = joinOf label l := by
  induction l with
  | nil => rfl
  | cons _ _ ih =>
    rw [List.map_cons, joinOf_cons, joinOf_cons, ih]
    rfl

theorem ConcurrentChain.relabel (h : ConcurrentChain l) :
    ConcurrentChain (l.map (DominatingVersions.relabel label)) := by
  induction l with
  | nil => trivial
  | cons _ l ih =>
    cases l with
    | nil => trivial
    | cons =>
      refine concurrentChain_cons (ih h.2.2) ?_ ?_
      · rw [joinOf_fst_relabel]
        exact h.1
      · rw [joinOf_fst_relabel]
        exact h.2.1

theorem Builds.relabel (h : Builds S l) : Builds (S.map (DominatingVersions.relabel label))
      (l.map (DominatingVersions.relabel label)) := by
  refine ⟨h.1.relabel label, fun q hq => ?_, fun q hq => ?_⟩
  · obtain ⟨r, hr, rfl⟩ := List.mem_map.mp hq
    exact Multiset.mem_map_of_mem _ (h.2.1 r hr)
  · obtain ⟨r, hr, rfl⟩ := Multiset.mem_map.mp hq
    rw [joinOf_fst_relabel]
    exact h.2.2 r hr

omit [OrderBot C] in
theorem Dominates.relabel {t : C × V} (h : Dominates S t) :
    Dominates (S.map (DominatingVersions.relabel label)) (DominatingVersions.relabel label t) := by
  refine ⟨Multiset.mem_map_of_mem _ h.1, fun q hq => ?_⟩
  obtain ⟨p, hp, rfl⟩ := Multiset.mem_map.mp hq
  exact h.2 p hp

omit [OrderBot C] in
theorem exists_dominates_of_relabel (h : ∃ t, Dominates (S.map (relabel label)) t) :
    ∃ t, Dominates S t := by
  obtain ⟨t, ht, htop⟩ := h
  obtain ⟨r, hr, rfl⟩ := Multiset.mem_map.mp ht
  exact ⟨r, hr, fun q hq => htop _ (Multiset.mem_map_of_mem _ hq)⟩

end Chains

variable {C V : Type*} [SemilatticeSup C] [OrderBot C] [DecidableEq C]
variable [SemilatticeSup V] [OrderBot V]

/-! ## What a replay keeps -/

variable (l : List (C × V))

/-- The register after merging `l` into the empty one. -/
def register : C × V := replay absorb ⊥ l

theorem register_concat (p : C × V) :
    register (l ++ [p]) = absorb (register l) p := replay_concat ..

theorem register_fst : (register l).1 = joinOf Prod.fst l := by
  induction l using List.reverseRecOn with
  | nil => rfl
  | append_singleton _ _ ih => rw [register_concat, absorb_fst, ih, joinOf_concat]

/-- **A replay keeps one concurrent chain.**  The register holds the values of a
chain of merged versions that builds the join of all merged clocks; when a merged
version dominates, the chain is a dominating version alone. -/
theorem register_spec : ∃ K, Kept l K ∧ (register l).2 = joinOf Prod.snd K := by
  induction l using List.reverseRecOn with
  | nil =>
    refine ⟨[], ⟨⟨trivial, by simp, by simp⟩, ?_⟩, rfl⟩
    rintro ⟨t, ht, -⟩
    simp at ht
  | append_singleton l p ih =>
    obtain ⟨K, hK, hval⟩ := ih
    rw [register_concat]
    by_cases h₁ : joinOf Prod.fst l ≤ p.1
    · refine ⟨[p], kept_dominating h₁, ?_⟩
      rw [absorb_dominating (by rw [register_fst]; exact h₁)]
      simp
    · by_cases h₂ : p.1 ≤ joinOf Prod.fst l
      · refine ⟨K, hK.dominated h₁ h₂, ?_⟩
        rw [absorb_dominated (by rw [register_fst]; exact lt_of_le_not_ge h₂ h₁)]
        exact hval
      · refine ⟨p :: K, hK.concurrent h₁ h₂, ?_⟩
        rw [absorb_concurrent (by rwa [register_fst]) (by rwa [register_fst]), joinOf_cons, hval]
        exact sup_comm ..

/-- **Every chain is kept by a replay**, the one that merges it oldest first. -/
theorem register_chain {K : List (C × V)} (h : ConcurrentChain K) :
    register K.reverse = (joinOf Prod.fst K, joinOf Prod.snd K) := by
  induction K with
  | nil => rfl
  | cons p K ih =>
    rw [List.reverse_cons, register_concat, ih h.tail]
    cases K with
    | nil => rw [absorb_dominating (by simp)]; simp
    | cons =>
      rw [absorb_concurrent h.2.1 h.1, joinOf_cons _ p, joinOf_cons _ p, sup_comm, sup_comm _ p.2]

theorem register_dominating_last {S : Multiset (C × V)} {t : C × V} (ht : Dominates S t) :
    register (S.toList ++ [t]) = t := by
  rw [register_concat]
  refine absorb_dominating ?_
  rw [register_fst]
  exact joinOf_le_iff.mpr fun p hp => ht.2 p (Multiset.mem_toList.mp hp)

/-- Merging a chain that builds up `S` first decides the value, unless a version
of `S` dominates: everything that follows is below the chain's join. -/
theorem register_chain_first {S : Multiset (C × V)} (hno : ¬ ∃ t, Dominates S t)
    {K : List (C × V)} (hK : Builds S K) :
    (register (K.reverse ++ S.toList)).2 = joinOf Prod.snd K := by
  have hk : replay absorb ⊥ K.reverse = (joinOf Prod.fst K, joinOf Prod.snd K) :=
    register_chain hK.1
  rw [register, replay_append, hk]
  refine congrArg Prod.snd (replay_fixed fun p hp => absorb_dominated ?_)
  rw [Multiset.mem_toList] at hp
  refine lt_of_le_of_ne (hK.2.2 p hp) ?_
  intro he
  refine hno ⟨p, hp, fun q hq => ?_⟩
  rw [he]
  exact hK.2.2 q hq

variable (S : Multiset (C × V))

/-- The versions of `S` decide on one value: all dominating versions carry the
same value and, when there is none, all concurrent chains that build up `S` carry
the same joined value. -/
def Decided : Prop :=
  (∀ t t', Dominates S t → Dominates S t' → t.2 = t'.2) ∧
  ((¬ ∃ t, Dominates S t) → ∀ K K', Builds S K → Builds S K' →
    joinOf Prod.snd K = joinOf Prod.snd K')

/-- **When replicas converge**: all deliveries of `S` end in the same register iff
the versions of `S` decide on one value. -/
theorem converges_iff : Converges absorb ⊥ S ↔ Decided S := by
  constructor
  · intro hc
    constructor
    · intro t t' ht ht'
      have h := hc _ _ (delivers_toList_append (l := [t]) (by simpa using ht.1))
        (delivers_toList_append (l := [t']) (by simpa using ht'.1))
      change register _ = register _ at h
      rw [register_dominating_last ht, register_dominating_last ht'] at h
      exact congrArg Prod.snd h
    · intro hno K _ hK hK'
      have mem : ∀ {K}, Builds S K → ∀ p ∈ K.reverse, p ∈ S :=
        fun hK p hp => hK.2.1 p (List.mem_reverse.mp hp)
      have h := hc _ _ (delivers_append_toList (mem hK)) (delivers_append_toList (mem hK'))
      rw [← register_chain_first hno hK, ← register_chain_first hno hK']
      exact congrArg Prod.snd h
  · rintro ⟨hdom, hchain⟩ l₁ l₂ h₁ h₂
    have mem : ∀ {l}, Delivers S l → ∀ p, p ∈ (l : Multiset (C × V)) ↔ p ∈ S :=
      fun h p => Multiset.mem_coe.trans (h.mem_iff p)
    obtain ⟨K₁, ⟨hK₁, ht₁⟩, hv₁⟩ := register_spec l₁
    obtain ⟨K₂, ⟨hK₂, ht₂⟩, hv₂⟩ := register_spec l₂
    refine Prod.ext ?_ ?_
    · change (register l₁).1 = (register l₂).1
      rw [register_fst, register_fst]
      exact joinOf_congr fun p => (h₁.mem_iff p).trans (h₂.mem_iff p).symm
    · change (register l₁).2 = (register l₂).2
      rw [hv₁, hv₂]
      by_cases hd : ∃ t, Dominates S t
      · obtain ⟨t, ht⟩ := hd
        obtain ⟨t₁, hd₁, rfl⟩ := ht₁ ⟨t, (dominates_congr (mem h₁) t).mpr ht⟩
        obtain ⟨t₂, hd₂, rfl⟩ := ht₂ ⟨t, (dominates_congr (mem h₂) t).mpr ht⟩
        simpa using hdom t₁ t₂ ((dominates_congr (mem h₁) t₁).mp hd₁)
          ((dominates_congr (mem h₂) t₂).mp hd₂)
      · exact hchain hd K₁ K₂ ((builds_congr (mem h₁) K₁).mp hK₁)
          ((builds_congr (mem h₂) K₂).mp hK₂)

/-! ## Which clocks converge whatever the values -/

/-- `m` is a version of `S` whose clock no clock of `S` exceeds. -/
def Undominated (m : C × V) : Prop := MaximalFor (· ∈ S) Prod.fst m

/-- The clocks of `S` decide the outcome by themselves.  Either one version alone
dominates; or none does, the other versions never cover an undominated one, and
every other version is below all undominated ones. -/
def Settled : Prop :=
  (∀ t t', Dominates S t → Dominates S t' → t = t') ∧
  ((¬ ∃ t, Dominates S t) → (∀ m, Undominated S m → ∃ c, (∀ p ∈ S, p ≠ m → p.1 ≤ c) ∧ ¬ m.1 ≤ c) ∧
    (∀ p m, p ∈ S → ¬ Undominated S p → Undominated S m → p.1 ≤ m.1))

omit [OrderBot C] [DecidableEq C] [SemilatticeSup V] [OrderBot V] in
theorem exists_undominated {S : Multiset (C × V)} {q : C × V} (hq : q ∈ S) :
    ∃ m, Undominated S m ∧ q.1 ≤ m.1 := by
  have hfin : {r | r ∈ S ∧ q.1 ≤ r.1}.Finite := S.finite_toSet.subset fun r hr => hr.1
  obtain ⟨m, ⟨hm, hqm⟩, hmax⟩ := hfin.exists_maximalFor Prod.fst _ ⟨q, hq, le_rfl⟩
  exact ⟨m, ⟨hm, fun r hr hmr => hmax ⟨hr, hqm.trans hmr⟩ hmr⟩, hqm⟩

omit [DecidableEq C] [SemilatticeSup V] [OrderBot V] in
theorem ConcurrentChain.undominated {S : Multiset (C × V)}
    (hbelow : ∀ p m, p ∈ S → ¬ Undominated S p → Undominated S m → p.1 ≤ m.1) :
    ∀ {K : List (C × V)}, ConcurrentChain K → (∀ p ∈ K, p ∈ S) →
      (∃ m ∈ K, Undominated S m) → ∀ p ∈ K, Undominated S p
  | [], _, _, _ => by simp
  | [q], _, _, h => by simpa using h
  | q :: r :: l, hK, hS, h => by
    have hS' : ∀ p ∈ r :: l, p ∈ S := fun p hp => hS p (List.mem_cons_of_mem _ hp)
    by_cases hl : ∃ m ∈ r :: l, Undominated S m
    · have ih := ConcurrentChain.undominated hbelow hK.2.2 hS' hl
      intro p hp
      rcases List.mem_cons.mp hp with rfl | hp
      · by_contra hnot
        obtain ⟨m, hm, hund⟩ := hl
        exact hK.1 ((hbelow p m (hS p (by simp)) hnot hund).trans (le_joinOf hm))
      · exact ih p hp
    · -- then `q` is the undominated one, and it dominates everything before it
      obtain ⟨m, hm, hund⟩ := h
      exfalso
      rcases List.mem_cons.mp hm with rfl | hm
      · refine hK.2.1 (joinOf_le_iff.mpr fun p hp => ?_)
        exact hbelow p m (hS' p hp) (fun hp' => hl ⟨p, hp, hp'⟩) hund
      · exact hl ⟨m, hm, hund⟩

omit [DecidableEq C] [SemilatticeSup V] [OrderBot V] in
theorem Settled.mem_iff {S : Multiset (C × V)} (hS : Settled S) (hno : ¬ ∃ t, Dominates S t)
    {K : List (C × V)} (hK : Builds S K) (p : C × V) : p ∈ K ↔ Undominated S p := by
  obtain ⟨huncov, hbelow⟩ := hS.2 hno
  have hin : ∀ m, Undominated S m → m ∈ K := by
    intro m hm
    by_contra hmK
    obtain ⟨c, hc, hmc⟩ := huncov m hm
    refine hmc ((hK.2.2 m hm.1).trans (joinOf_le_iff.mpr fun q hq => ?_))
    exact hc q (hK.2.1 q hq) fun he => hmK (he ▸ hq)
  refine ⟨fun hp => ?_, hin p⟩
  obtain ⟨m, hm, -⟩ := exists_undominated (hK.2.1 p hp)
  exact ConcurrentChain.undominated hbelow hK.1 hK.2.1 ⟨m, hin m hm, hm⟩ p hp

/-- **Settled clocks converge**, whatever the values. -/
theorem converges_of_settled {S : Multiset (C × V)} (hS : Settled S) : Converges absorb ⊥ S := by
  refine (converges_iff S).mpr ⟨fun t t' ht ht' => congrArg Prod.snd (hS.1 t t' ht ht'), ?_⟩
  intro hno K _ hK hK'
  exact joinOf_congr fun p => (hS.mem_iff hno hK p).trans (hS.mem_iff hno hK' p).symm

omit [DecidableEq C] [SemilatticeSup V] [OrderBot V] in
/-- A chain that no version of `S` overrides extends to one that builds up `S`;
what is added is not below the chain's join. -/
theorem exists_builds_of_chain {S : Multiset (C × V)} (K₀ : List (C × V))
    (h₀ : ConcurrentChain K₀) (hS : ∀ p ∈ K₀, p ∈ S)
    (hover : ∀ q ∈ S, joinOf Prod.fst K₀ ≤ q.1 → q.1 ≤ joinOf Prod.fst K₀) :
    ∃ K, Builds S K ∧ (∀ p ∈ K₀, p ∈ K) ∧ ∀ p ∈ K, p ∈ K₀ ∨ ¬ p.1 ≤ joinOf Prod.fst K₀ := by
  have key : ∀ l : List (C × V), (∀ p ∈ l, p ∈ S) →
      ∃ K, ConcurrentChain K ∧ (∀ p ∈ K, p ∈ S) ∧ (∀ p ∈ l, p.1 ≤ joinOf Prod.fst K) ∧
        (∀ p ∈ K₀, p ∈ K) ∧ ∀ p ∈ K, p ∈ K₀ ∨ ¬ p.1 ≤ joinOf Prod.fst K₀ := by
    intro l hl
    induction l with
    | nil => exact ⟨K₀, h₀, hS, by simp, fun _ h => h, fun _ h => .inl h⟩
    | cons q _ ih =>
      obtain ⟨K, hK, hKS, hKl, h₀K, hnew⟩ := ih fun p hp => hl p (List.mem_cons_of_mem _ hp)
      have hmono : joinOf Prod.fst K₀ ≤ joinOf Prod.fst K :=
        joinOf_le_iff.mpr fun p hp => le_joinOf (h₀K p hp)
      by_cases hq : q.1 ≤ joinOf Prod.fst K
      · refine ⟨K, hK, hKS, ?_, h₀K, hnew⟩
        intro p hp
        rcases List.mem_cons.mp hp with rfl | hp
        · exact hq
        · exact hKl p hp
      · have hq' : ¬ joinOf Prod.fst K ≤ q.1 := fun h =>
          hq ((hover q (hl q (by simp)) (hmono.trans h)).trans hmono)
        refine ⟨q :: K, concurrentChain_cons hK hq hq', ?_, ?_, ?_, ?_⟩
        · intro p hp
          rcases List.mem_cons.mp hp with rfl | hp
          · exact hl p (by simp)
          · exact hKS p hp
        · intro p hp
          rw [joinOf_cons]
          rcases List.mem_cons.mp hp with rfl | hp
          · exact le_sup_left
          · exact (hKl p hp).trans le_sup_right
        · exact fun p hp => List.mem_cons_of_mem _ (h₀K p hp)
        · intro p hp
          rcases List.mem_cons.mp hp with rfl | hp
          · exact .inr fun h => hq (h.trans hmono)
          · exact hnew p hp
  obtain ⟨K, hK, hKS, hKl, h₀K, hnew⟩ := key S.toList fun p hp => Multiset.mem_toList.mp hp
  exact ⟨K, ⟨hK, hKS, fun p hp => hKl p (Multiset.mem_toList.mpr hp)⟩, h₀K, hnew⟩

/-- If all chains that build up `S` use the same versions, the undominated
versions are uncovered and above all others. -/
theorem settled_of_chains {S : Multiset (C × V)}
    (hsame : ∀ K K', Builds S K → Builds S K' → ∀ p ∈ K, p ∈ K') :
    (∀ m, Undominated S m → ∃ c, (∀ p ∈ S, p ≠ m → p.1 ≤ c) ∧ ¬ m.1 ≤ c) ∧
    (∀ p m, p ∈ S → ¬ Undominated S p → Undominated S m → p.1 ≤ m.1) := by
  classical
  constructor
  · intro m hm
    -- one chain goes through `m`, another is made of the other versions only
    obtain ⟨K, hK, hmK, -⟩ := exists_builds_of_chain (S := S) [m] trivial
      (by simpa using hm.1) (fun q hq h => by simpa using hm.2 hq (by simpa using h))
    set others := S.toList.filter (· ≠ m) with hothers
    have hmem : ∀ p, p ∈ others ↔ p ∈ S ∧ p ≠ m := by intro p; simp [hothers]
    refine ⟨joinOf Prod.fst others, fun p hp hpm => le_joinOf ((hmem p).mpr ⟨hp, hpm⟩), ?_⟩
    intro hcov
    obtain ⟨K', ⟨hK', -⟩, -⟩ := register_spec others
    have hB : Builds S K' := by
      refine ⟨hK'.1, fun p hp => ((hmem p).mp (hK'.2.1 p hp)).1, fun p hp => ?_⟩
      rw [hK'.join_eq]
      by_cases hpm : p = m
      · exact hpm ▸ hcov
      · exact le_joinOf ((hmem p).mpr ⟨hp, hpm⟩)
    have := hsame K K' hK hB m (hmK m (by simp))
    exact ((hmem m).mp (hK'.2.1 m this)).2 rfl
  · intro p m hp hpund hm
    by_contra hpm
    have hmp : ¬ m.1 ≤ p.1 := fun h => hpm (hm.2 hp h)
    -- one chain goes through `p`: it starts with `m`, and nothing is above both
    obtain ⟨K, hK, hpK, -⟩ := exists_builds_of_chain (S := S) [p, m]
      ⟨by simpa using hpm, by simpa using hmp, trivial⟩ (by simpa using ⟨hp, hm.1⟩) (by
        intro q hq h
        simp only [joinOf_cons, joinOf_nil, sup_bot_eq, sup_le_iff] at h
        exact absurd (h.1.trans (hm.2 hq h.2)) hpm)
    -- another starts with an undominated version above `p`, which `p` cannot join
    have hex : ∃ q, q ∈ S ∧ p.1 ≤ q.1 ∧ ¬ q.1 ≤ p.1 := by
      by_contra hnone
      push Not at hnone
      exact hpund ⟨hp, fun q hq h => hnone q hq h⟩
    obtain ⟨q, hq, hpq, hqp⟩ := hex
    obtain ⟨m', hm', hqm'⟩ := exists_undominated hq
    obtain ⟨K', hK', -, hnew⟩ := exists_builds_of_chain (S := S) [m'] trivial
      (by simpa using hm'.1) (fun r hr h => by simpa using hm'.2 hr (by simpa using h))
    rcases hnew p (hsame K K' hK hK' p (hpK p (by simp))) with h | h
    · rw [List.mem_singleton.mp h] at hqp
      exact hqp hqm'
    · exact h (by simpa using hpq.trans hqm')

/-- **Unsettled clocks diverge for some values.**  If the clocks of `S` are not
settled, giving every version of `S` a label of its own makes two deliveries end
in different registers. -/
theorem exists_relabelling_of_not_settled {V' : Type*} [SemilatticeSup V'] [OrderBot V']
    {S : Multiset (C × V)} (label : C × V → V')
    (hlabel : ∀ p ∈ S, ∀ l : List (C × V), (∀ q ∈ l, q ∈ S) → label p ≤ joinOf label l → p ∈ l)
    (hS : ¬ Settled S) : ¬ Converges absorb ⊥ (S.map fun p => (p.1, label p)) := by
  intro hc
  obtain ⟨hdom, hchain⟩ := (converges_iff _).mp hc
  apply hS
  refine ⟨fun t t' ht ht' => ?_, fun hno => settled_of_chains fun K K' hK hK' p hp => ?_⟩
  · have h : label t = label t' := hdom _ _ (ht.relabel label) (ht'.relabel label)
    have hmem := hlabel t ht.1 [t'] (by simpa using ht'.1) (by simpa using le_of_eq h)
    simpa using hmem
  · have h := hchain (fun hno' => hno (exists_dominates_of_relabel label hno')) _ _
      (hK.relabel label) (hK'.relabel label)
    rw [joinOf_snd_relabel, joinOf_snd_relabel] at h
    exact hlabel p (hK.2.1 p hp) K' hK'.2.1 ((le_joinOf hp).trans h.le)

end Testbed.Lib.DominatingVersions
