import Mathlib.Data.List.Nodup

/-! # Linked lists

Nodes that are threaded by `next` and `prev`.  `Walk next prev p a l q b` says that a walk that
comes from `p` to `a` and follows `next` passes the nodes of `l`, whose `prev` point back, and
then is at `b`, coming from `q`.  A list with two null ends is a walk from null to null; a list
that is linked in one direction only is a `Path`.

The usual operations write to a few nodes, and what they wrote is told for the nodes of the list
(`Walk.cons`, `Walk.concat`, `Walk.remove`): the links may live anywhere, as in memory that holds
other things as well.
-/
namespace Testbed.Lib

open List

variable {α : Type}

/-! ## One direction -/

/-- The nodes from `a` on, by `next`, up to `b`. -/
def Path (next : α → α) : α → List α → α → Prop
  | a, [], b => a = b
  | a, x :: l, b => a = x ∧ Path next (next x) l b

namespace Path
variable {next next' : α → α} {a b x : α} {l : List α}

theorem congr (h : Path next a l b) (hsame : ∀ y ∈ l, next' y = next y) : Path next' a l b := by
  induction l generalizing a with
  | nil => exact h
  | cons x l ih =>
    refine ⟨h.1, ?_⟩
    rw [hsame x mem_cons_self]
    exact ih h.2 fun y hy => hsame y (mem_cons_of_mem x hy)

theorem cons (h : Path next a l b) (hnext : next' x = a)
    (hsame : ∀ y ∈ l, next' y = next y) : Path next' x (x :: l) b := by
  refine ⟨rfl, ?_⟩
  rw [hnext]
  exact h.congr hsame

theorem eq_nil (h : Path next b l b) (hb : b ∉ l) : l = [] := by
  cases l with
  | nil => rfl
  | cons x l => exact absurd (h.1 ▸ mem_cons_self) hb

/-- A path that has not ended goes on. -/
theorem exists_cons (h : Path next a l b) (hne : a ≠ b) :
    ∃ l', l = a :: l' ∧ Path next (next a) l' b := by
  cases l with
  | nil => exact absurd h hne
  | cons x l =>
    obtain ⟨rfl, hrest⟩ := h
    exact ⟨l, rfl, hrest⟩

end Path

/-! ## Two directions -/

/-- A walk from `a`, coming from `p`, along the nodes of the list to `b`, coming from `q`. -/
def Walk (next prev : α → α) : α → α → List α → α → α → Prop
  | p, a, [], q, b => p = q ∧ a = b
  | p, a, x :: l, q, b => a = x ∧ prev x = p ∧ Walk next prev x (next x) l q b

namespace Walk
variable {next prev next' prev' : α → α} {p a q b x : α} {l l₁ l₂ : List α}

theorem congr (h : Walk next prev p a l q b) (hnext : ∀ y ∈ l, next' y = next y)
    (hprev : ∀ y ∈ l, prev' y = prev y) : Walk next' prev' p a l q b := by
  induction l generalizing p a with
  | nil => exact h
  | cons x l ih =>
    refine ⟨h.1, ?_, ?_⟩
    · rw [hprev x mem_cons_self]
      exact h.2.1
    · rw [hnext x mem_cons_self]
      exact ih h.2.2 (fun y hy => hnext y (mem_cons_of_mem x hy))
        fun y hy => hprev y (mem_cons_of_mem x hy)

/-- A walk along two lists is a walk along each, where the first ends and the second begins. -/
theorem append : Walk next prev p a (l₁ ++ l₂) q b ↔
    ∃ m n, Walk next prev p a l₁ m n ∧ Walk next prev m n l₂ q b := by
  induction l₁ generalizing p a with
  | nil =>
    constructor
    · intro h
      exact ⟨p, a, ⟨rfl, rfl⟩, h⟩
    · rintro ⟨m, n, ⟨rfl, rfl⟩, h⟩
      exact h
  | cons x l₁ ih =>
    constructor
    · rintro ⟨hx, hp, h⟩
      obtain ⟨m, n, h₁, h₂⟩ := ih.mp h
      exact ⟨m, n, ⟨hx, hp, h₁⟩, h₂⟩
    · rintro ⟨m, n, ⟨hx, hp, h₁⟩, h₂⟩
      exact ⟨hx, hp, ih.mpr ⟨m, n, h₁, h₂⟩⟩

theorem path (h : Walk next prev p a l q b) : Path next a l b := by
  induction l generalizing p a with
  | nil => exact h.2
  | cons x l ih => exact ⟨h.1, ih h.2.2⟩

theorem first_eq (h : Walk next prev p a l q b) : (l = [] ∧ p = q ∧ a = b) ∨ a ∈ l := by
  cases l with
  | nil => exact .inl ⟨rfl, h⟩
  | cons x l => exact .inr (h.1 ▸ mem_cons_self)

theorem last_eq (h : Walk next prev p a l q b) : (l = [] ∧ p = q) ∨ q ∈ l := by
  induction l generalizing p a with
  | nil => exact .inl ⟨rfl, h.1⟩
  | cons x l ih =>
    obtain ⟨-, rfl⟩ | hq := ih h.2.2
    · exact .inr mem_cons_self
    · exact .inr (mem_cons_of_mem x hq)

theorem next_eq (h : Walk next prev p a (x :: l) q b) : next x ∈ l ∨ next x = b := by
  obtain ⟨-, -, hend⟩ | hmem := h.2.2.first_eq
  · exact .inr hend
  · exact .inl hmem

variable [DecidableEq α]

/-- **A node is linked behind the last one.** -/
theorem concat (h : Walk next prev p a l q b) (hnodup : l.Nodup) (hp : p ∉ l) (hb : b ∉ l)
    (hnext : next' x = b) (hprev : prev' x = q)
    (hnexts : ∀ y ∈ l, next' y = if y = q then x else next y)
    (hprevs : ∀ y ∈ l, prev' y = prev y) :
    Walk next' prev' p (if a = b then x else a) (l ++ [x]) x b := by
  induction l generalizing p a with
  | nil =>
    obtain ⟨rfl, rfl⟩ := h
    rw [if_pos rfl]
    exact ⟨rfl, hprev, rfl, hnext⟩
  | cons y l ih =>
    obtain ⟨rfl, hy, hrest⟩ := h
    obtain ⟨hyl, hl⟩ := nodup_cons.mp hnodup
    have hbl : b ∉ l := fun hmem => hb (mem_cons_of_mem _ hmem)
    have hstep := ih hrest hl hyl hbl (fun z hz => hnexts z (mem_cons_of_mem _ hz))
      fun z hz => hprevs z (mem_cons_of_mem _ hz)
    have hab : a ≠ b := fun heq => hb (heq ▸ mem_cons_self)
    rw [if_neg hab]
    refine ⟨rfl, (hprevs _ mem_cons_self).trans hy, ?_⟩
    rw [hnexts _ mem_cons_self]
    -- the first node is the last one if it leads to the end
    obtain ⟨-, hq, hend⟩ | hmem := hrest.first_eq
    · rw [if_pos hq]
      rwa [if_pos hend] at hstep
    · have hne : next a ≠ b := fun heq => hbl (heq ▸ hmem)
      have haq : a ≠ q := by
        rintro rfl
        obtain ⟨hnil, -⟩ | hin := hrest.last_eq
        · exact not_mem_nil (hnil ▸ hmem)
        · exact hyl hin
      rw [if_neg haq]
      rwa [if_neg hne] at hstep

/-- **A node is unlinked**, wherever it is. -/
theorem remove (h : Walk next prev p a (l₁ ++ x :: l₂) q b) (hnodup : (l₁ ++ x :: l₂).Nodup)
    (hp : p ∉ l₁ ++ x :: l₂) (hb : b ∉ l₁ ++ x :: l₂)
    (hnexts : ∀ y ∈ l₁ ++ l₂, next' y = if y = prev x then next x else next y)
    (hprevs : ∀ y ∈ l₁ ++ l₂, prev' y = if y = next x then prev x else prev y) :
    Walk next' prev' p (if a = x then next x else a) (l₁ ++ l₂) (if q = x then prev x else q)
      b := by
  induction l₁ generalizing p a with
  | nil =>
    obtain ⟨rfl, rfl, hrest⟩ := h
    obtain ⟨hxl, hl⟩ := nodup_cons.mp hnodup
    rw [if_pos rfl]
    cases l₂ with
    | nil =>
      obtain ⟨rfl, hend⟩ := hrest
      rw [if_pos rfl]
      exact ⟨rfl, hend⟩
    | cons y l =>
      have hq : q ≠ a := by
        obtain ⟨hnil, -⟩ | hin := hrest.last_eq
        · cases hnil
        · exact fun heq => hxl (heq ▸ hin)
      obtain ⟨hy, -, hrest⟩ := hrest
      rw [if_neg hq]
      refine ⟨hy, (hprevs _ mem_cons_self).trans (if_pos hy.symm), ?_⟩
      -- no other node is a neighbour of the one that goes
      have hapart : ∀ z ∈ y :: l, z ≠ prev a := fun z hz heq =>
        hp (heq ▸ mem_cons_of_mem _ hz)
      rw [(hnexts y mem_cons_self).trans (if_neg (hapart y mem_cons_self))]
      refine hrest.congr (fun z hz => ?_) fun z hz => ?_
      · have hmem := mem_cons_of_mem y hz
        exact (hnexts z hmem).trans (if_neg (hapart z hmem))
      · have hne : z ≠ next a := fun heq =>
          (nodup_cons.mp hl).1 (hy ▸ heq ▸ hz)
        exact (hprevs z (mem_cons_of_mem y hz)).trans (if_neg hne)
  | cons w l₁ ih =>
    obtain ⟨rfl, hw, hrest⟩ := h
    obtain ⟨hwl, hl⟩ := nodup_cons.mp hnodup
    have hbl : b ∉ l₁ ++ x :: l₂ := fun hmem => hb (mem_cons_of_mem _ hmem)
    have hstep := ih hrest hl hwl hbl (fun z hz => hnexts z (mem_cons_of_mem _ hz))
      fun z hz => hprevs z (mem_cons_of_mem _ hz)
    have hx : x ∈ l₁ ++ x :: l₂ := mem_append_right l₁ mem_cons_self
    have hax : a ≠ x := fun heq => hwl (heq ▸ hx)
    rw [if_neg hax]
    obtain ⟨m, n, hfront, hback⟩ := append.mp hrest
    -- the node after the one that goes comes later
    have hprev : prev' a = p := by
      have hne : a ≠ next x := by
        intro heq
        obtain hin | hend := hback.next_eq
        · exact hwl (heq ▸ mem_append_right l₁ (mem_cons_of_mem x hin))
        · exact hb (hend ▸ heq ▸ mem_cons_self)
      exact ((hprevs a mem_cons_self).trans (if_neg hne)).trans hw
    have hnext : next' a = if next a = x then next x else next a := by
      rw [hnexts a mem_cons_self, hback.2.1]
      obtain ⟨rfl, rfl, hend⟩ | hmem := hfront.first_eq
      · rw [if_pos rfl, if_pos (hend.trans hback.1)]
      · have hne : next a ≠ x := fun heq =>
          (nodup_append.mp hl).2.2 _ hmem x mem_cons_self heq
        have ham : a ≠ m := by
          rintro rfl
          obtain ⟨rfl, -⟩ | hin := hfront.last_eq
          · exact not_mem_nil hmem
          · exact hwl (mem_append_left _ hin)
        rw [if_neg hne, if_neg ham]
    refine ⟨rfl, hprev, ?_⟩
    rwa [hnext]

end Walk

/-! ## Following the links -/

variable [DecidableEq α]

/-- The nodes from `a` on until `b`, at most `n` of them. -/
def follow (next : α → α) (b : α) : Nat → α → List α
  | 0, _ => []
  | n + 1, a => if a = b then [] else a :: follow next b n (next a)

/-- Following the links gives the list. -/
theorem Path.follow_eq {next : α → α} {a b : α} {l : List α} {n : Nat} (h : Path next a l b)
    (hb : b ∉ l) (hn : l.length ≤ n) : follow next b n a = l := by
  induction l generalizing a n with
  | nil =>
    cases n with
    | zero => rfl
    | succ n => exact if_pos h
  | cons x l ih =>
    obtain ⟨rfl, hrest⟩ := h
    obtain ⟨n, rfl⟩ := Nat.exists_eq_add_of_le' (Nat.succ_le_of_lt (Nat.lt_of_lt_of_le
      (length_pos_of_mem mem_cons_self) hn))
    have hne : a ≠ b := fun heq => hb (heq ▸ mem_cons_self)
    refine (if_neg hne).trans (congrArg (List.cons a) ?_)
    exact ih hrest (fun hmem => hb (mem_cons_of_mem a hmem)) (by simpa using hn)

end Testbed.Lib
