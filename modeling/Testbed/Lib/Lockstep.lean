import Mathlib.Data.List.Forall2

/-! # Two machines in lockstep

A machine takes one operation after the other and answers each.  If a relation
between the states of two machines is kept by every operation, and related states
give related answers, then all answers of a run are related (`Lockstep.outputs`).
In any case the answers of two runs are related just if they are after every part of
the run (`forall₂_outputs_iff`).
-/
namespace Testbed.Lib

variable {σ τ Op Out Out' : Type}

/-- The answers of a run. -/
def outputs (step : σ → Op → Out × σ) : σ → List Op → List Out
  | _, [] => []
  | s, op :: ops => (step s op).1 :: outputs step (step s op).2 ops

variable (step : σ → Op → Out × σ)

/-- The state after a run. -/
def finalState (s : σ) (ops : List Op) : σ :=
  ops.foldl (fun s op => (step s op).2) s

theorem finalState_concat (s : σ) (ops : List Op) (op : Op) :
    finalState step s (ops ++ [op]) = (step (finalState step s ops) op).2 := by
  rw [finalState, List.foldl_append]
  rfl

variable {step' : τ → Op → Out' × τ} {step : σ → Op → Out × σ} {Q : Out → Out' → Prop}

/-- The outputs agree just if they do after each start of the run. -/
theorem forall₂_outputs_iff {s : σ} {t : τ} {ops : List Op} :
    List.Forall₂ Q (outputs step s ops) (outputs step' t ops) ↔
      ∀ before op after, ops = before ++ op :: after →
        Q (step (finalState step s before) op).1 (step' (finalState step' t before) op).1 := by
  induction ops generalizing s t with
  | nil =>
    refine ⟨fun _ before op after h => ?_, fun _ => List.Forall₂.nil⟩
    cases before <;> cases h
  | cons op ops ih =>
    rw [outputs, outputs, List.forall₂_cons, ih]
    constructor
    · rintro ⟨hfirst, hrest⟩ before op' after h
      cases before with
      | nil =>
        cases h
        exact hfirst
      | cons _ before =>
        obtain ⟨rfl, hops⟩ := List.cons.inj h
        exact hrest before op' after hops
    · intro h
      refine ⟨h [] op ops rfl, fun before op' after hops => ?_⟩
      exact h (op :: before) op' after (by rw [hops]; rfl)

/-- `R` is kept by every operation, and the answers are related by `Q`. -/
structure Lockstep (step : σ → Op → Out × σ) (step' : τ → Op → Out' × τ) (R : σ → τ → Prop)
    (Q : Out → Out' → Prop) : Prop where
  answer : ∀ {s t}, R s t → ∀ op, Q (step s op).1 (step' t op).1
  next : ∀ {s t}, R s t → ∀ op, R (step s op).2 (step' t op).2

/-- **Two machines in lockstep** have related outputs. -/
theorem Lockstep.outputs {R : σ → τ → Prop} (h : Lockstep step step' R Q) {s : σ} {t : τ}
    (hR : R s t) (ops : List Op) :
    List.Forall₂ Q (Lib.outputs step s ops) (Lib.outputs step' t ops) := by
  induction ops generalizing s t with
  | nil => exact List.Forall₂.nil
  | cons op ops ih => exact List.Forall₂.cons (h.answer hR op) (ih (h.next hR op))

end Testbed.Lib
