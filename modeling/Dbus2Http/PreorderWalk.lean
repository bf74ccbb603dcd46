import Mathlib.Logic.Relation
import Mathlib.Data.Set.Finite.Lattice
import Mathlib.Order.Bounds.Basic

set_option autoImplicit false

/-- `PreorderWalk children forest walk`: `walk` visits every root of `forest` in order, each one
right before everything below it. A node met twice is visited twice. -/
inductive PreorderWalk {α : Type} (children : α → List α) : List α → List α → Prop
  | nil : PreorderWalk children [] []
  | cons {x : α} {rest below after : List α} (down : PreorderWalk children (children x) below)
      (next : PreorderWalk children rest after) :
      PreorderWalk children (x :: rest) (x :: (below ++ after))

namespace PreorderWalk

variable {α : Type} {children : α → List α}

/-- What can be reached by going from a node to one of its children. -/
abbrev Below (children : α → List α) : α → α → Prop :=
  Relation.ReflTransGen fun x y => y ∈ children x

theorem single {x : α} {below : List α} (down : PreorderWalk children (children x) below) :
    PreorderWalk children [x] (x :: below) := by
  simpa using PreorderWalk.cons down .nil

/-- The walk visits exactly what can be reached from a root. -/
theorem mem_iff {forest walk : List α} (walked : PreorderWalk children forest walk) (y : α) :
    y ∈ walk ↔ ∃ x ∈ forest, Below children x y := by
  induction walked with
  | nil => simp
  | @cons x rest below after down next ihDown ihNext =>
      rw [List.mem_cons, List.mem_append, ihDown, ihNext]
      constructor
      · rintro (same | ⟨child, inside, reached⟩ | ⟨root, inside, reached⟩)
        · exact ⟨x, List.mem_cons_self, by rw [same]⟩
        · exact ⟨x, List.mem_cons_self, .head inside reached⟩
        · exact ⟨root, List.mem_cons_of_mem _ inside, reached⟩
      · rintro ⟨root, inside, reached⟩
        rcases List.mem_cons.mp inside with same | later
        · subst same
          cases reached.cases_head with
          | inl same => exact Or.inl same.symm
          | inr step =>
              obtain ⟨child, below, further⟩ := step
              exact Or.inr (Or.inl ⟨child, below, further⟩)
        · exact Or.inr (Or.inr ⟨root, later, reached⟩)

theorem exists_forest {forest : List α}
    (each : ∀ x ∈ forest, ∃ walk, PreorderWalk children [x] walk) :
    ∃ walk, PreorderWalk children forest walk := by
  induction forest with
  | nil => exact ⟨[], .nil⟩
  | cons x rest ih =>
      obtain ⟨own, walked⟩ := each x List.mem_cons_self
      obtain ⟨after, next⟩ := ih fun y inside => each y (List.mem_cons_of_mem _ inside)
      cases walked with
      | cons down _ => exact ⟨_, .cons down next⟩

/-- A walk exists below a node from which no infinite chain of children starts. -/
theorem exists_of_acc {x : α} (ends : Acc (fun y x => y ∈ children x) x) :
    ∃ walk, PreorderWalk children [x] walk := by
  induction ends with
  | intro x _ ih =>
      obtain ⟨below, down⟩ := exists_forest fun y inside => ih y inside
      exact ⟨_, single down⟩

/-- Where children always grow and only finitely many nodes are reached, every chain ends. -/
theorem acc_of_finite {size : α → Nat} {x : α}
    (grows : ∀ y, Below children x y → ∀ child ∈ children y, size y < size child)
    (finite : {y | Below children x y}.Finite) : Acc (fun y x => y ∈ children x) x := by
  obtain ⟨bound, bounded⟩ := (finite.image size).bddAbove
  have descend : ∀ fuel y, Below children x y → bound - size y < fuel →
      Acc (fun y x => y ∈ children x) y := by
    intro fuel
    induction fuel with
    | zero => intro y _ less; omega
    | succ fuel ih =>
        intro y reached less
        refine .intro y fun child inside => ?_
        have below : Below children x child := reached.tail inside
        have larger := grows y reached child inside
        have within : size child ≤ bound := bounded ⟨child, below, rfl⟩
        exact ih child below (by omega)
  exact descend (bound - size x + 1) x .refl (by omega)

theorem exists_of_finite (size : α → Nat) {x : α}
    (grows : ∀ y, Below children x y → ∀ child ∈ children y, size y < size child)
    (finite : {y | Below children x y}.Finite) : ∃ walk, PreorderWalk children [x] walk :=
  exists_of_acc (acc_of_finite grows finite)

end PreorderWalk
