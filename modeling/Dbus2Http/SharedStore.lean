import Mathlib.Logic.Relation

set_option autoImplicit false

/-! # A store with one writer and any number of readers

Every step is atomic: the writer changes the store, a reader arrives, or a reader takes its next
step, which looks at the store as it is then. -/

namespace SharedStore

structure System (σ π : Type) where
  write : σ → σ → Prop
  arrives : π → Prop
  read : σ → π → π → Prop

structure State (σ π : Type) where
  store : σ
  readers : List π

variable {σ π : Type}

/-- One step of any interleaving. `fits` restricts what is written while readers are there. -/
inductive Step (system : System σ π) (fits : σ → σ → π → Prop) : State σ π → State σ π → Prop
  | write {before after : σ} (readers : List π) (written : system.write before after)
      (fitting : ∀ reader ∈ readers, fits before after reader) :
      Step system fits ⟨before, readers⟩ ⟨after, readers⟩
  | arrive (store : σ) (readers : List π) {reader : π} (arrived : system.arrives reader) :
      Step system fits ⟨store, readers⟩ ⟨store, reader :: readers⟩
  | read (store : σ) (front back : List π) {before after : π}
      (taken : system.read store before after) :
      Step system fits ⟨store, front ++ before :: back⟩ ⟨store, front ++ after :: back⟩

abbrev Run (system : System σ π) (fits : σ → σ → π → Prop) : State σ π → State σ π → Prop :=
  Relation.ReflTransGen (Step system fits)

/-- Nothing is asked of what is written. -/
def Anything (_ _ : σ) (_ : π) : Prop := True

/-- The writer may go on for any number of steps. -/
theorem run_writes {system : System σ π} {fits : σ → σ → π → Prop} {before after : σ}
    (written : Relation.ReflTransGen system.write before after) (readers : List π)
    (fitting : ∀ earlier later, ∀ reader ∈ readers, fits earlier later reader) :
    Run system fits ⟨before, readers⟩ ⟨after, readers⟩ := by
  induction written with
  | refl => exact .refl
  | tail _ step run => exact run.tail (.write readers step (fitting _ _))

/-- An invariant of the store, and an assertion of each reader that holds when it arrives and that
neither its own steps nor fitting writes break. -/
structure Outline (system : System σ π) (fits : σ → σ → π → Prop) (invariant : σ → Prop)
    (asserts : σ → π → Prop) : Prop where
  kept : ∀ {before after}, invariant before → system.write before after → invariant after
  arrives : ∀ {store reader}, invariant store → system.arrives reader → asserts store reader
  own : ∀ {store before after}, invariant store → asserts store before →
    system.read store before after → asserts store after
  stable : ∀ {before after reader}, invariant before → asserts before reader →
    system.write before after → fits before after reader → asserts after reader

/-- The store is as it should be and so is every reader. -/
def Holds (invariant : σ → Prop) (asserts : σ → π → Prop) (state : State σ π) : Prop :=
  invariant state.store ∧ ∀ reader ∈ state.readers, asserts state.store reader

section Outlined

variable {system : System σ π} {fits : σ → σ → π → Prop} {invariant : σ → Prop}
  {asserts : σ → π → Prop} (outline : Outline system fits invariant asserts)

include outline

theorem Step.holds {before after : State σ π} (step : Step system fits before after)
    (holds : Holds invariant asserts before) : Holds invariant asserts after := by
  obtain ⟨good, asserted⟩ := holds
  cases step with
  | write readers written fitting =>
      refine ⟨outline.kept good written, ?_⟩
      intro reader inside
      exact outline.stable good (asserted reader inside) written (fitting reader inside)
  | arrive store readers arrived =>
      exact ⟨good, List.forall_mem_cons.mpr ⟨outline.arrives good arrived, asserted⟩⟩
  | read store front back taken =>
      refine ⟨good, ?_⟩
      simp only [List.forall_mem_append, List.forall_mem_cons] at asserted ⊢
      exact ⟨asserted.1, outline.own good asserted.2.1 taken, asserted.2.2⟩

/-- What the outline asserts is true in every state of every interleaving. -/
theorem Run.holds {before after : State σ π} (run : Run system fits before after)
    (holds : Holds invariant asserts before) : Holds invariant asserts after := by
  induction run with
  | refl => exact holds
  | tail _ step earlier => exact step.holds outline earlier

end Outlined

end SharedStore
