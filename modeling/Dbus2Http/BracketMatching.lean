import Mathlib.Data.List.Count
import Mathlib.Data.List.Infix

set_option autoImplicit false

/-! Brackets of one kind in a text over any alphabet. -/

namespace Brackets

variable {α : Type}

/-- The prefixes of a longer text are the empty one and those that begin with its first
character. -/
theorem forall_prefix_cons {P : List α → Prop} {c : α} {s : List α} (empty : P []) :
    (∀ t, t <+: c :: s → P t) ↔ ∀ t, t <+: s → P (c :: t) := by
  constructor
  · intro all t start
    exact all _ ((List.prefix_cons_inj c).mpr start)
  · intro all t start
    rcases List.prefix_cons_iff.mp start with rfl | ⟨u, rfl, inner⟩
    · exact empty
    · exact all u inner

variable [DecidableEq α] {left right : α}

/-- The text closes `depth` brackets opened before it, and none beyond these. -/
def Encloses (left right : α) (depth : Nat) (s : List α) : Prop :=
  s.count right = s.count left + depth ∧ ∀ t, t <+: s → t.count right ≤ t.count left + depth

/-- Every bracket of the text is opened and closed in it. -/
abbrev Balanced (left right : α) (s : List α) : Prop := Encloses left right 0 s

/-- The last bracket of the text closes the first one. -/
def Closed (left right : α) (s : List α) : Prop :=
  ∃ inner, s = left :: (inner ++ [right]) ∧ Balanced left right inner

/-- No bracket of the text closes one opened just before it. -/
def Unmatched (left right : α) (s : List α) : Prop :=
  ∀ before after, s = before ++ right :: after → ¬ Balanced left right before

theorem encloses_nil (depth : Nat) : Encloses left right depth [] ↔ depth = 0 := by
  constructor
  · intro encloses
    have total := encloses.1
    simp only [List.count_nil, Nat.zero_add] at total
    exact total.symm
  · intro zero
    refine ⟨by simp [zero], ?_⟩
    intro t start
    simp [List.prefix_nil.mp start]

theorem encloses_open (different : right ≠ left) (depth : Nat) (s : List α) :
    Encloses left right depth (left :: s) ↔ Encloses left right (depth + 1) s := by
  unfold Encloses
  rw [forall_prefix_cons (by simp)]
  simp only [List.count_cons_self, List.count_cons_of_ne different.symm, Nat.add_assoc,
    Nat.add_comm 1]

theorem encloses_close (different : right ≠ left) (depth : Nat) (s : List α) :
    Encloses left right (depth + 1) (right :: s) ↔ Encloses left right depth s := by
  unfold Encloses
  rw [forall_prefix_cons (by simp)]
  simp only [List.count_cons_self, List.count_cons_of_ne different, ← Nat.add_assoc,
    Nat.add_right_cancel_iff, Nat.add_le_add_iff_right]

/-- A bracket that was not opened is not closed. -/
theorem not_encloses_close (different : right ≠ left) (s : List α) :
    ¬ Encloses left right 0 (right :: s) := by
  intro encloses
  have first := encloses.2 [right] ⟨s, rfl⟩
  simp [List.count_cons_of_ne different] at first

theorem encloses_other {c : α} (notLeft : c ≠ left) (notRight : c ≠ right) (depth : Nat)
    (s : List α) : Encloses left right depth (c :: s) ↔ Encloses left right depth s := by
  unfold Encloses
  rw [forall_prefix_cons (by simp)]
  simp only [List.count_cons_of_ne notLeft, List.count_cons_of_ne notRight]

end Brackets
