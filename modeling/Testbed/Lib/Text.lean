import Mathlib.Tactic.Common

/-! # Decimal numbers and delimited text

Names built from text, a delimiter and a decimal number can be taken apart again:
the number's text has no delimiter in it (`notMem_toString`), so the last
delimiter splits the name (`append_cons_inj`), and a number is determined by its
digits (`toString_injective`).
-/
namespace Testbed.Lib.Text

theorem toList_toString (n : Nat) : (toString n).toList = Nat.toDigits 10 n := by
  simp [Nat.repr]

theorem toString_injective : Function.Injective (toString : Nat → String) := by
  intro m n h
  have hdigits := congrArg (fun s => Nat.ofDigitChars 10 s.toList 0) h
  simpa only [toList_toString, Nat.ofDigitChars_ten_toDigits] using hdigits

theorem notMem_toString {c : Char} (hc : c.isDigit = false) (n : Nat) :
    c ∉ (toString n).toList := by
  rw [toList_toString]
  intro hmem
  rw [Nat.isDigit_of_mem_toDigits (by omega) (by omega) hmem] at hc
  exact absurd hc (by decide)

theorem append_cons_inj {α : Type} {c : α} {l₁ l₂ r₁ r₂ : List α} (h₁ : c ∉ r₁) (h₂ : c ∉ r₂)
    (h : l₁ ++ c :: r₁ = l₂ ++ c :: r₂) : l₁ = l₂ ∧ r₁ = r₂ := by
  -- one of the two left parts extends the other by text that ends before its own delimiter
  rcases List.append_eq_append_iff.mp h with ⟨m, hl, hr⟩ | ⟨m, hl, hr⟩
  · cases m with
    | nil => simp_all
    | cons x m =>
      obtain ⟨-, rfl⟩ := List.cons.inj hr
      exact absurd (by simp) h₁
  · cases m with
    | nil => simp_all
    | cons x m =>
      obtain ⟨-, rfl⟩ := List.cons.inj hr
      exact absurd (by simp) h₂

end Testbed.Lib.Text
