import Mathlib.Tactic.Common

/-! # Runs of operations that can fail

A fallible operation on a state is a function into `Except ε σ`, and a run of
operations is a `foldlM`.  These are the rules that take such runs apart: a
sequence returns iff each part returns (`bind_eq_ok`), a run that fails does so at one
of its operations (`foldlM_eq_error`, `FailsOnly`), and what every operation
preserves holds after every run that returns (`foldlM_invariant`; `foldlM_reachable`
when only the states of the run matter, `foldlM_done` when the operations done so far do),
or until one of them does something else (`foldlM_until`).
-/
namespace Testbed.Lib

open List

variable {ε σ α β : Type} {x : Except ε α}

theorem bind_eq_ok {f : α → Except ε β} {b : β} :
    x >>= f = .ok b ↔ ∃ a, x = .ok a ∧ f a = .ok b := by
  cases x with
  | error => simp [bind, Except.bind]
  | ok => simp [bind, Except.bind]

theorem bind_eq_error {f : α → Except ε β} {e : ε} :
    x >>= f = .error e ↔ x = .error e ∨ ∃ a, x = .ok a ∧ f a = .error e := by
  cases x with
  | error => simp [bind, Except.bind]
  | ok => simp [bind, Except.bind]

theorem bind_returns_iff {f : α → Except ε β} :
    (∃ b, x >>= f = .ok b) ↔ ∃ a, x = .ok a ∧ ∃ b, f a = .ok b := by
  simp only [bind_eq_ok]
  exact ⟨fun ⟨b, a, ha, hb⟩ => ⟨a, ha, b, hb⟩, fun ⟨a, ha, b, hb⟩ => ⟨b, a, ha, hb⟩⟩

variable {f : σ → α → Except ε σ} {a : α} {s s' : σ} {l : List α}

theorem pure_eq_ok {b : α} : (pure a : Except ε α) = .ok b ↔ a = b := by
  simp [pure, Except.pure]

theorem foldlM_nil_eq_ok : [].foldlM f s = .ok s' ↔ s = s' := by
  rw [foldlM_nil, pure_eq_ok]

theorem foldlM_cons_eq_ok :
    (a :: l).foldlM f s = .ok s' ↔ ∃ t, f s a = .ok t ∧ l.foldlM f t = .ok s' := by
  rw [foldlM_cons, bind_eq_ok]

theorem foldlM_append_eq_ok {l₁ l₂ : List α} :
    (l₁ ++ l₂).foldlM f s = .ok s' ↔ ∃ t, l₁.foldlM f s = .ok t ∧ l₂.foldlM f t = .ok s' := by
  rw [foldlM_append, bind_eq_ok]

theorem foldlM_concat_eq_ok :
    (l ++ [a]).foldlM f s = .ok s' ↔ ∃ t, l.foldlM f s = .ok t ∧ f t a = .ok s' := by
  rw [foldlM_append_eq_ok]
  refine exists_congr fun t => and_congr_right fun _ => ?_
  rw [foldlM_cons_eq_ok]
  exact ⟨fun ⟨_, h, hnil⟩ => foldlM_nil_eq_ok.mp hnil ▸ h, fun h => ⟨s', h, rfl⟩⟩

theorem foldlM_eq_error {e : ε} (h : l.foldlM f s = .error e) :
    ∃ pre a post t, l = pre ++ a :: post ∧ pre.foldlM f s = .ok t ∧ f t a = .error e := by
  induction l generalizing s with
  | nil => cases h
  | cons a l ih =>
    rcases bind_eq_error.mp h with ha | ⟨t, ha, hl⟩
    · exact ⟨[], a, l, s, rfl, rfl, ha⟩
    · obtain ⟨pre, b, post, u, rfl, hpre, hb⟩ := ih hl
      exact ⟨a :: pre, b, post, u, rfl, foldlM_cons_eq_ok.mpr ⟨t, ha, hpre⟩, hb⟩

/-- The operation fails only in the ways that `P` allows. -/
def FailsOnly (P : ε → Prop) (x : Except ε α) : Prop := ∀ ⦃e⦄, x = .error e → P e

namespace FailsOnly
variable {P Q : ε → Prop} {x : Except ε α}

theorem ok (a : α) : FailsOnly P (.ok a) := fun _ h => by cases h

theorem mono (h : FailsOnly P x) (hPQ : ∀ e, P e → Q e) : FailsOnly Q x :=
  fun e he => hPQ e (h he)

theorem bind {f : α → Except ε β} (hx : FailsOnly P x) (hf : ∀ a, FailsOnly P (f a)) :
    FailsOnly P (x >>= f) := by
  intro e h
  rcases bind_eq_error.mp h with hx' | ⟨a, -, ha⟩
  · exact hx hx'
  · exact hf a ha

theorem foldlM (hf : ∀ t a, FailsOnly P (f t a)) : FailsOnly P (l.foldlM f s) := by
  intro e h
  obtain ⟨_, a, _, t, -, -, ha⟩ := foldlM_eq_error h
  exact hf t a ha

end FailsOnly

variable (P : σ → Prop)

theorem foldlM_done (P : List α → σ → Prop)
    (hstep : ∀ pre a post t t', l = pre ++ a :: post → P pre t → f t a = .ok t' → P (pre ++ [a]) t')
    (hs : P [] s) (h : l.foldlM f s = .ok s') : P l s' := by
  suffices hrest : ∀ (rest done : List α) (t : σ), l = done ++ rest → P done t →
      rest.foldlM f t = .ok s' → P l s' from hrest l [] s rfl hs h
  intro rest
  induction rest with
  | nil =>
    intro done t hsplit ht h
    rw [hsplit, append_nil, ← foldlM_nil_eq_ok.mp h]
    exact ht
  | cons a rest ih =>
    intro done t hsplit ht h
    obtain ⟨t', ha, h⟩ := foldlM_cons_eq_ok.mp h
    refine ih (done ++ [a]) t' ?_ (hstep done a rest t t' hsplit ht ha) h
    rw [hsplit, append_assoc]
    rfl

theorem foldlM_reachable
    (hstep : ∀ pre a post t t', l = pre ++ a :: post → pre.foldlM f s = .ok t → P t →
      f t a = .ok t' → P t') (hs : P s) (h : l.foldlM f s = .ok s') : P s' := by
  refine (foldlM_done (fun pre t => pre.foldlM f s = .ok t ∧ P t) ?_ ⟨rfl, hs⟩ h).2
  rintro pre a post t t' hsplit ⟨hpre, ht⟩ ha
  exact ⟨foldlM_concat_eq_ok.mpr ⟨t, hpre, ha⟩, hstep pre a post t t' hsplit hpre ht ha⟩

theorem map_of_mapM_eq_ok {γ : Type} {f : α → Except ε β} {g : β → γ} {k : α → γ}
    {results : List β} (h : l.mapM f = .ok results) (hf : ∀ a b, f a = .ok b → g b = k a) :
    results.map g = l.map k := by
  induction l generalizing results with
  | nil =>
    cases h
    rfl
  | cons a _ ih =>
    rw [mapM_cons] at h
    obtain ⟨b, hb, h⟩ := bind_eq_ok.mp h
    obtain ⟨_, hrest, h⟩ := bind_eq_ok.mp h
    cases h
    rw [map_cons, map_cons, hf a b hb, ih hrest]

theorem exists_of_mapM_eq_ok {f : α → Except ε β} {results : List β} (h : l.mapM f = .ok results)
    (ha : a ∈ l) : ∃ b ∈ results, f a = .ok b := by
  induction l generalizing results with
  | nil => cases ha
  | cons _ _ ih =>
    rw [mapM_cons] at h
    obtain ⟨b, hb, h⟩ := bind_eq_ok.mp h
    obtain ⟨_, hrest, h⟩ := bind_eq_ok.mp h
    cases h
    rcases mem_cons.mp ha with rfl | ha
    · exact ⟨b, mem_cons_self, hb⟩
    · obtain ⟨b', hmem, hb'⟩ := ih hrest ha
      exact ⟨b', mem_cons_of_mem b hmem, hb'⟩

theorem forall_split_iff {Q : α → Prop} :
    (∀ pre a post, l = pre ++ a :: post → Q a) ↔ ∀ a ∈ l, Q a := by
  constructor
  · intro h a hmem
    obtain ⟨pre, post, hsplit⟩ := append_of_mem hmem
    exact h pre a post hsplit
  · rintro h pre a post rfl
    exact h a (mem_append_right _ mem_cons_self)

theorem foldlM_returns_iff (P : List α → α → Prop)
    (hstep : ∀ pre a post t, l = pre ++ a :: post → pre.foldlM f s = .ok t →
      ((∃ t', f t a = .ok t') ↔ P pre a)) :
    (∃ t, l.foldlM f s = .ok t) ↔ ∀ pre a post, l = pre ++ a :: post → P pre a := by
  suffices hrest : ∀ (rest done : List α) (t : σ), l = done ++ rest → done.foldlM f s = .ok t →
      ((∃ t', rest.foldlM f t = .ok t') ↔
        ∀ pre a post, rest = pre ++ a :: post → P (done ++ pre) a) from hrest l [] s rfl rfl
  intro rest
  induction rest with
  | nil =>
    intro done t _ _
    exact iff_of_true ⟨t, rfl⟩ fun pre a post h => absurd h.symm (by simp)
  | cons a rest ih =>
    intro done t hl hdone
    have hfirst : ∀ t', f t a = .ok t' → (done ++ [a]).foldlM f s = .ok t' := fun t' ht' =>
      foldlM_append_eq_ok.mpr ⟨t, hdone, foldlM_cons_eq_ok.mpr ⟨t', ht', rfl⟩⟩
    have hl' : l = done ++ [a] ++ rest := by rw [hl, append_assoc, singleton_append]
    constructor
    · rintro ⟨t'', h⟩ pre b post hsplit
      obtain ⟨t', ht', h⟩ := foldlM_cons_eq_ok.mp h
      cases pre with
      | nil =>
        cases hsplit
        rw [append_nil]
        exact (hstep done a rest t hl hdone).mp ⟨t', ht'⟩
      | cons _ pre =>
        cases hsplit
        have hlater := (ih (done ++ [a]) t' hl' (hfirst t' ht')).mp ⟨t'', h⟩ pre b post rfl
        rwa [append_assoc] at hlater
    · intro h
      have ha := h [] a rest rfl
      rw [append_nil] at ha
      obtain ⟨t', ht'⟩ := (hstep done a rest t hl hdone).mpr ha
      have hrest := ih (done ++ [a]) t' hl' (hfirst t' ht')
      obtain ⟨t'', ht''⟩ := hrest.mpr fun pre b post hsplit => by
        rw [append_assoc]
        exact h (a :: pre) b post (congrArg (a :: ·) hsplit)
      exact ⟨t'', foldlM_cons_eq_ok.mpr ⟨t', ht', ht''⟩⟩

theorem foldlM_invariant (hstep : ∀ a ∈ l, ∀ t t', P t → f t a = .ok t' → P t')
    (hs : P s) (h : l.foldlM f s = .ok s') : P s' :=
  foldlM_reachable P (fun _ a _ t t' heq _ ht ha => hstep a (by simp [heq]) t t' ht ha) hs h

/-- What every operation preserves unless it does something holds after the run,
or one of the operations has done it. -/
theorem foldlM_until (Q : σ → α → σ → Prop)
    (hstep : ∀ pre a post t t', l = pre ++ a :: post → pre.foldlM f s = .ok t → f t a = .ok t' →
      P t → P t' ∨ Q t a t') (hs : P s) (h : l.foldlM f s = .ok s') :
    P s' ∨ ∃ pre a post t t', l = pre ++ a :: post ∧ pre.foldlM f s = .ok t ∧ f t a = .ok t' ∧
      Q t a t' := by
  refine foldlM_reachable (fun t => P t ∨ _) (fun pre a post t t' hsplit hpre ht ha => ?_)
    (.inl hs) h
  rcases ht with ht | hdone
  · exact (hstep pre a post t t' hsplit hpre ha ht).imp_right fun hdone =>
      ⟨pre, a, post, t, t', hsplit, hpre, ha, hdone⟩
  · exact .inr hdone

/-- A part of the state that every operation changes by a function of that part
alone is, after a run, what the functions make of it. -/
theorem foldlM_view {τ : Type} (view : σ → τ) (g : τ → α → τ)
    (hstep : ∀ a ∈ l, ∀ t t', f t a = .ok t' → view t' = g (view t) a) (h : l.foldlM f s = .ok s') :
    view s' = l.foldl g (view s) := by
  refine foldlM_done (fun pre t => view t = pre.foldl g (view s)) ?_ rfl h
  rintro pre a _ t t' rfl ht ha
  rw [hstep a (mem_append_right pre mem_cons_self) t t' ha, ht, foldl_append]
  rfl

end Testbed.Lib
