import Mathlib.Order.Defs.Unbundled
import Mathlib.Data.List.Basic

set_option autoImplicit false

/-! # Search trees

The entries of a map in a binary tree of any shape, found with whatever order holds when it is
searched. -/

inductive SearchTree (α : Type)
  | leaf
  | node (left : SearchTree α) (entry : α) (right : SearchTree α)

namespace SearchTree

section Descent

variable {α : Type}

def toList : SearchTree α → List α
  | leaf => []
  | node left entry right => left.toList ++ entry :: right.toList

/-- The number of entries that a descent leaves on its left: it goes to the right of an entry that
is before the place it looks for, and to the left of any other. -/
def passed (before : α → Bool) : SearchTree α → Nat
  | leaf => 0
  | node left entry right =>
      if before entry then left.toList.length + 1 + right.passed before else left.passed before

theorem passed_le (before : α → Bool) (tree : SearchTree α) :
    tree.passed before ≤ tree.toList.length := by
  induction tree with
  | leaf => exact Nat.le_refl _
  | node left entry right ihLeft ihRight =>
      rw [passed, toList, List.length_append, List.length_cons]
      split <;> omega

/-- What is before the place comes first. -/
def Monotone (before : α → Bool) (entries : List α) : Prop :=
  entries.Pairwise fun a b => before b = true → before a = true

/-- Where what is before the place comes first, the descent passes just that. -/
theorem cut_passed {before : α → Bool} {tree : SearchTree α} (monotone : Monotone before tree.toList) :
    tree.toList.take (tree.passed before) = tree.toList.filter before ∧
      tree.toList.drop (tree.passed before) = tree.toList.filter fun e => !before e := by
  induction tree with
  | leaf => exact ⟨rfl, rfl⟩
  | node left entry right ihLeft ihRight =>
      rw [toList, Monotone, List.pairwise_append, List.pairwise_cons] at monotone
      obtain ⟨onLeft, ⟨below, onRight⟩, across⟩ := monotone
      rw [passed, toList, List.filter_append, List.filter_append]
      by_cases here : before entry = true
      · have all : ∀ e ∈ left.toList, before e = true := fun e inside =>
          across e inside entry List.mem_cons_self here
        have none : (left.toList.filter fun e => !before e) = [] := by
          rw [List.filter_eq_nil_iff]
          intro e inside
          simp [all e inside]
        have place : left.toList.length + 1 + right.passed before =
            left.toList.length + (right.passed before + 1) := by omega
        rw [if_pos here, place, List.take_length_add_append, List.drop_length_add_append, none,
          List.filter_eq_self.mpr all, List.take_succ_cons, List.drop_succ_cons, (ihRight onRight).1,
          (ihRight onRight).2]
        simp [here]
      · have none : ∀ e ∈ right.toList, before e = false := by
          intro e inside
          rw [← Bool.not_eq_true]
          exact fun later => here (below e inside later)
        have empty : right.toList.filter before = [] := by
          rw [List.filter_eq_nil_iff]
          intro e inside
          simp [none e inside]
        have all : (right.toList.filter fun e => !before e) = right.toList := by
          rw [List.filter_eq_self]
          intro e inside
          simp [none e inside]
        have short := passed_le before left
        rw [if_neg here, List.take_append_of_le_length short, List.drop_append_of_le_length short,
          (ihLeft onLeft).1, (ihLeft onLeft).2]
        simp [here, empty, all]

end Descent

/-! ### The operations of a map -/

section Map

variable {κ ν : Type}

/-- The place of the first entry whose key is not less. -/
def lowerBound (less : κ → κ → Bool) (tree : SearchTree (κ × ν)) (key : κ) : Nat :=
  tree.passed fun e => less e.1 key

/-- The place of the first entry whose key is greater. -/
def upperBound (less : κ → κ → Bool) (tree : SearchTree (κ × ν)) (key : κ) : Nat :=
  tree.passed fun e => !less key e.1

/-- The entries after `m[key] = value`: an entry that is found keeps its key. -/
def assigned (less : κ → κ → Bool) (tree : SearchTree (κ × ν)) (key : κ) (value : ν) :
    List (κ × ν) :=
  tree.toList.take (tree.lowerBound less key) ++
    match tree.toList.drop (tree.lowerBound less key) with
    | [] => [(key, value)]
    | (other, old) :: rest =>
        if less key other then (key, value) :: (other, old) :: rest else (other, value) :: rest

/-- The entries after `m.erase(key)`: those between the two bounds are gone. -/
def erased (less : κ → κ → Bool) (tree : SearchTree (κ × ν)) (key : κ) : List (κ × ν) :=
  tree.toList.take (tree.lowerBound less key) ++ tree.toList.drop (tree.upperBound less key)

def Sorted (less : κ → κ → Bool) (entries : List (κ × ν)) : Prop :=
  entries.Pairwise fun a b => less a.1 b.1 = true

theorem Sorted.congr {less less' : κ → κ → Bool} {entries : List (κ × ν)}
    (sorted : Sorted less entries)
    (same : ∀ a ∈ entries, ∀ b ∈ entries, less' a.1 b.1 = less a.1 b.1) : Sorted less' entries := by
  apply List.Pairwise.imp_of_mem _ sorted
  intro a b inside inside' ascends
  rw [same a inside b inside', ascends]

variable {less : κ → κ → Bool} (weak : IsStrictWeakOrder κ fun a b => less a b = true)

include weak

theorem Sorted.lower {entries : List (κ × ν)} (sorted : Sorted less entries) (key : κ) :
    Monotone (fun e => less e.1 key) entries :=
  sorted.imp fun ascends below => weak.trans _ _ _ ascends below

theorem Sorted.upper {entries : List (κ × ν)} (sorted : Sorted less entries) (key : κ) :
    Monotone (fun e => !less key e.1) entries := by
  apply sorted.imp
  intro a b ascends
  simp only [Bool.not_eq_true', ← Bool.not_eq_true]
  exact fun notAbove above => notAbove (weak.trans _ _ _ above ascends)

/-- In a sorted map the entries whose keys are equivalent are erased, and no others. -/
theorem erased_of_sorted {tree : SearchTree (κ × ν)} (sorted : Sorted less tree.toList) (key : κ) :
    tree.erased less key = tree.toList.filter fun e => less e.1 key || less key e.1 := by
  have lower := cut_passed (sorted.lower weak key)
  have upper := cut_passed (sorted.upper weak key)
  have whole := List.take_append_drop (tree.lowerBound less key) tree.toList
  have front : tree.toList.take (tree.lowerBound less key) =
      (tree.toList.take (tree.lowerBound less key)).filter fun e => less e.1 key || less key e.1 := by
    rw [lowerBound, lower.1, List.filter_filter]
    apply List.filter_congr
    intro e _
    cases less e.1 key <;> simp
  have back : tree.toList.drop (tree.upperBound less key) =
      (tree.toList.drop (tree.lowerBound less key)).filter fun e => less e.1 key || less key e.1 := by
    rw [upperBound, upper.2, lowerBound, lower.2, List.filter_filter]
    apply List.filter_congr
    intro e _
    cases above : less key e.1 with
    | false => cases less e.1 key <;> rfl
    | true =>
        have notBelow : less e.1 key = false := by
          rw [← Bool.not_eq_true]
          exact fun below => weak.irrefl key (weak.trans _ _ _ above below)
        simp [notBelow]
  rw [erased, front, back, ← List.filter_append, whole]

theorem ne_of_less {a b : κ} (ascends : less a b = true) : a ≠ b := by
  rintro rfl
  exact weak.irrefl a ascends

/-- A new entry stands between those before it and those after it. -/
theorem sorted_insert {front back : List (κ × ν)} (entry : κ × ν)
    (sorted : Sorted less (front ++ back)) (before : ∀ e ∈ front, less e.1 entry.1 = true)
    (after : ∀ e ∈ back, less entry.1 e.1 = true) :
    Sorted less (front ++ entry :: back) ∧
      ∀ e, e ∈ front ++ entry :: back ↔ e = entry ∨ e ∈ front ++ back ∧ e.1 ≠ entry.1 := by
  obtain ⟨sortedFront, sortedBack, across⟩ := List.pairwise_append.mp sorted
  constructor
  · apply List.pairwise_append.mpr
    refine ⟨sortedFront, List.pairwise_cons.mpr ⟨after, sortedBack⟩, fun a inside b inside' => ?_⟩
    rcases List.mem_cons.mp inside' with rfl | later
    · exact before a inside
    · exact across a inside b later
  · intro e
    have apart : e ∈ front ++ back → e.1 ≠ entry.1 := by
      intro inside
      rcases List.mem_append.mp inside with early | late
      · exact ne_of_less weak (before e early)
      · exact (ne_of_less weak (after e late)).symm
    constructor
    · intro inside
      rcases List.mem_append.mp inside with early | late
      · have old : e ∈ front ++ back := List.mem_append_left _ early
        exact .inr ⟨old, apart old⟩
      · rcases List.mem_cons.mp late with same | later
        · exact .inl same
        · have old : e ∈ front ++ back := List.mem_append_right _ later
          exact .inr ⟨old, apart old⟩
    · rintro (rfl | ⟨old, _⟩)
      · exact List.mem_append_right _ List.mem_cons_self
      · rcases List.mem_append.mp old with early | late
        · exact List.mem_append_left _ early
        · exact List.mem_append_right _ (List.mem_cons_of_mem _ late)

/-- A key to which only itself is equivalent is put in its place, or its value is replaced. -/
theorem sorted_assigned {tree : SearchTree (κ × ν)} (sorted : Sorted less tree.toList) {key : κ}
    (alone : ∀ other, less other key = false → less key other = false → other = key) (value : ν) :
    Sorted less (tree.assigned less key value) ∧
      ∀ e, e ∈ tree.assigned less key value ↔ e = (key, value) ∨ e ∈ tree.toList ∧ e.1 ≠ key := by
  have lower := cut_passed (sorted.lower weak key)
  have whole := List.take_append_drop (tree.lowerBound less key) tree.toList
  have before : ∀ e ∈ tree.toList.take (tree.lowerBound less key), less e.1 key = true := by
    intro e inside
    rw [lowerBound, lower.1] at inside
    exact (List.mem_filter.mp inside).2
  have notBefore : ∀ e ∈ tree.toList.drop (tree.lowerBound less key), less e.1 key = false := by
    intro e inside
    rw [lowerBound, lower.2] at inside
    simpa using (List.mem_filter.mp inside).2
  rw [← whole] at sorted ⊢
  rw [assigned]
  generalize tree.toList.take (tree.lowerBound less key) = front at *
  generalize tree.toList.drop (tree.lowerBound less key) = back at *
  cases back with
  | nil => exact sorted_insert weak (key, value) sorted before (by simp)
  | cons found rest =>
      obtain ⟨other, old⟩ := found
      obtain ⟨sortedFront, sortedBack, across⟩ := List.pairwise_append.mp sorted
      obtain ⟨ascends, sortedRest⟩ := List.pairwise_cons.mp sortedBack
      by_cases new : less key other = true
      · simp only [new, ↓reduceIte]
        apply sorted_insert weak (key, value) sorted before
        rw [List.forall_mem_cons]
        exact ⟨new, fun e inside => weak.trans _ _ _ new (ascends e inside)⟩
      · obtain rfl : other = key :=
          alone other (notBefore _ List.mem_cons_self) (Bool.not_eq_true _ ▸ new)
        have others : Sorted less (front ++ rest) := by
          apply List.Pairwise.sublist _ sorted
          exact (List.sublist_cons_self _ _).append_left front
        have placed := sorted_insert weak (other, value) others before ascends
        simp only [new, Bool.false_eq_true, ↓reduceIte]
        refine ⟨placed.1, fun e => ?_⟩
        rw [placed.2 e]
        refine or_congr_right (and_congr_left fun different => ?_)
        have notOld : e ≠ (other, old) := by
          rintro rfl
          exact different rfl
        rw [List.mem_append, List.mem_append, List.mem_cons, or_iff_right notOld]

/-! ### Whatever the order of the entries -/

omit weak in
theorem passed_mono {α : Type} {before before' : α → Bool}
    (weaker : ∀ e, before e = true → before' e = true) (tree : SearchTree α) :
    tree.passed before ≤ tree.passed before' := by
  induction tree with
  | leaf => exact Nat.le_refl _
  | node left entry right ihLeft ihRight =>
      have short := passed_le before left
      rw [passed, passed]
      cases here : before entry with
      | true =>
          simp only [weaker entry here, ↓reduceIte]
          omega
      | false =>
          cases before' entry <;> simp only [Bool.false_eq_true, ↓reduceIte] <;> omega

/-- Erasing takes entries out and leaves the others in their order. -/
theorem erased_sublist (tree : SearchTree (κ × ν)) (key : κ) :
    (tree.erased less key).Sublist tree.toList := by
  have below : ∀ e : κ × ν, less e.1 key = true → (!less key e.1) = true := by
    intro e ascends
    rw [Bool.not_eq_true', ← Bool.not_eq_true]
    exact fun descends => weak.irrefl _ (weak.trans _ _ _ ascends descends)
  have bounds : tree.lowerBound less key ≤ tree.upperBound less key := passed_mono below tree
  have rest : (tree.toList.drop (tree.upperBound less key)).Sublist
      (tree.toList.drop (tree.lowerBound less key)) := List.drop_sublist_drop_left _ bounds
  conv_rhs => rw [← List.take_append_drop (tree.lowerBound less key) tree.toList]
  exact rest.append_left _

omit weak in
/-- An assignment puts in its value for one value at most. -/
theorem values_assigned (tree : SearchTree (κ × ν)) (key : κ) (value : ν) :
    ∃ front back kept, tree.toList.map Prod.snd = front ++ back ∧ kept.Sublist back ∧
      (tree.assigned less key value).map Prod.snd = front ++ value :: kept := by
  refine ⟨(tree.toList.take (tree.lowerBound less key)).map Prod.snd,
    (tree.toList.drop (tree.lowerBound less key)).map Prod.snd, ?_⟩
  rw [← List.map_append, List.take_append_drop, assigned, List.map_append]
  cases tree.toList.drop (tree.lowerBound less key) with
  | nil => exact ⟨[], rfl, .slnil, rfl⟩
  | cons found rest =>
      obtain ⟨other, old⟩ := found
      cases new : less key other with
      | true =>
          refine ⟨old :: rest.map Prod.snd, rfl, .refl _, ?_⟩
          simp only [new, ↓reduceIte, List.map_cons]
      | false =>
          refine ⟨rest.map Prod.snd, rfl, List.sublist_cons_self _ _, ?_⟩
          simp only [new, Bool.false_eq_true, ↓reduceIte, List.map_cons]

end Map

end SearchTree
