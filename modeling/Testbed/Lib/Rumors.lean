import Mathlib.Data.Finset.Card
import Mathlib.Data.Prod.Lex
import Mathlib.Order.WellFounded
import Mathlib.Order.Bounds.Basic
import Mathlib.Algebra.Order.Group.Int

/-! # Rumors

Nodes pass rumors on: one that is news to a node is told to others, one that is not is
dropped.  When knowledge only grows and the rumors come from a finite set, every node
finds finitely many of them new (`news_lt`), so all talk ends: a step either uses up news
or shortens the queue of rumors that are under way (`no_infinite_run`).  A count that is
raised by every rumor is the largest of them in the end (`isGreatest_elim`).
-/
namespace Testbed.Lib

open Finset

/-! ## News -/

section
variable {K M : Type} (isNew : K → M → Prop) (rumors : Finset M)

open Classical in
/-- How many rumors are still news. -/
noncomputable def news (known : K) : Nat := (rumors.filter (isNew known)).card

variable {isNew rumors} {known known' : K}

theorem news_le (h : ∀ m, isNew known' m → isNew known m) :
    news isNew rumors known' ≤ news isNew rumors known := by
  classical
  exact card_le_card (monotone_filter_right rumors fun m _ => h m)

theorem news_lt (h : ∀ m, isNew known' m → isNew known m) {m : M} (hm : m ∈ rumors)
    (hnew : isNew known m) (hold : ¬ isNew known' m) :
    news isNew rumors known' < news isNew rumors known := by
  classical
  have hsubset := monotone_filter_right rumors fun m _ => h m
  refine card_lt_card ((ssubset_iff_of_subset hsubset).mpr ⟨m, ?_, ?_⟩)
  · exact mem_filter.mpr ⟨hm, hnew⟩
  · exact fun hmem => hold (mem_filter.mp hmem).2

end

/-! ## Counts that only rise -/

theorem isGreatest_some {o : Option Int} {c : Int} :
    IsGreatest {d | o = some d} c ↔ o = some c := by
  refine ⟨fun h => h.1, fun h => ⟨h, fun d hd => ?_⟩⟩
  exact (Option.some.inj (h.symm.trans hd)).ge

theorem isGreatest_elim {o : Option Int} {c x : Int} {T : Set Int} :
    IsGreatest ({d | some (o.elim c (max c)) = some d} ∪ T) x ↔
      IsGreatest ({d | o = some d} ∪ Insert.insert c T) x := by
  simp only [IsGreatest, mem_upperBounds, Set.mem_union, Set.mem_ofPred_eq, Set.mem_insert_iff,
    Option.some.injEq]
  cases o with
  | none => simp [eq_comm]
  | some d =>
    simp only [Option.elim_some, Option.some.injEq]
    constructor
    · rintro ⟨hx, hle⟩
      have hmax := hle _ (.inl rfl)
      refine ⟨?_, ?_⟩
      · rcases hx with rfl | hx
        · rcases le_total c d with h | h
          · exact .inl (max_eq_right h).symm
          · exact .inr (.inl (max_eq_left h))
        · exact .inr (.inr hx)
      · rintro y (rfl | rfl | hy)
        · exact (le_max_right _ _).trans hmax
        · exact (le_max_left _ _).trans hmax
        · exact hle y (.inr hy)
    · rintro ⟨hx, hle⟩
      have hd := hle d (.inl rfl)
      have hc := hle c (.inr (.inl rfl))
      refine ⟨?_, ?_⟩
      · rcases hx with rfl | rfl | hx
        · exact .inl (max_eq_right hc)
        · exact .inl (max_eq_left hd)
        · exact .inr hx
      · rintro y (rfl | hy)
        · exact max_le hc hd
        · exact hle y (.inr (.inr hy))

/-! ## Runs -/

/-- No run goes on forever when every step uses up some of a budget, or leaves the budget
and shortens a queue. -/
theorem no_infinite_run {S : Type} (budget queue : S → Nat) (run : Nat → S)
    (hstep : ∀ n, budget (run (n + 1)) < budget (run n) ∨
      budget (run (n + 1)) = budget (run n) ∧ queue (run (n + 1)) < queue (run n)) : False := by
  have hdecreasing : ∀ n, toLex (budget (run (n + 1)), queue (run (n + 1))) <
      toLex (budget (run n), queue (run n)) := fun n => Prod.Lex.toLex_lt_toLex.mpr (hstep n)
  obtain ⟨_, ⟨n, rfl⟩, hmin⟩ := wellFounded_lt.has_min
    (Set.range fun n => toLex (budget (run n), queue (run n))) ⟨_, 0, rfl⟩
  exact hmin _ ⟨n + 1, rfl⟩ (hdecreasing n)

end Testbed.Lib
