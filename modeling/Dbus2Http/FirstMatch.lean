import Mathlib.Data.List.Nodup
import Mathlib.Data.List.Perm.Basic

set_option autoImplicit false

/-! Tables of rules of which the first that matches answers, and what depends on their order. -/

namespace FirstMatch

variable {ρ α β : Type} (answer? : ρ → α → Option β)

def dispatch : List ρ → α → Option (ρ × β)
  | [], _ => none
  | rule :: table, request =>
      match answer? rule request with
      | some answer => some (rule, answer)
      | none => dispatch table request

/-- Two rules that match a common request. -/
def Rivals (rule other : ρ) : Prop :=
  ∃ request, (answer? rule request).isSome ∧ (answer? other request).isSome

/-- The one rule stands before the other. -/
def Before (table : List ρ) (rule other : ρ) : Prop := [rule, other].Sublist table

section Order

variable {answer?} {table later : List ρ} {request : α}

theorem Before.mem {rule other : ρ} (before : Before table rule other) : rule ∈ table ∧ other ∈ table :=
  ⟨before.subset (by simp), before.subset (by simp)⟩

theorem Before.asymm (nodup : table.Nodup) {rule other : ρ} (before : Before table rule other) :
    ¬ Before table other rule := by
  induction table with
  | nil => exact absurd before.mem.1 List.not_mem_nil
  | cons head table ih =>
      obtain ⟨fresh, nodup⟩ := List.nodup_cons.mp nodup
      intro back
      rw [Before, List.cons_sublist_cons'] at before back
      rcases before with before | ⟨rfl, before⟩
      · rcases back with back | ⟨rfl, back⟩
        · exact ih nodup before back
        · exact fresh (before.subset (by simp))
      · rcases back with back | ⟨rfl, back⟩
        · exact fresh (back.subset (by simp))
        · exact fresh (List.singleton_sublist.mp back)

theorem dispatch_eq_none : dispatch answer? table request = none ↔
    ∀ rule ∈ table, answer? rule request = none := by
  induction table with
  | nil => simp [dispatch]
  | cons head table ih =>
      rw [dispatch, List.forall_mem_cons, ← ih]
      cases answer? head request <;> simp

theorem before_cons {head rule other : ρ} (different : rule ≠ head) :
    Before (head :: table) rule other ↔ Before table rule other := by
  rw [Before, List.cons_sublist_cons']
  exact or_iff_left fun same => different same.1

theorem before_head {head other : ρ} (inside : other ∈ table) : Before (head :: table) head other :=
  List.cons_sublist_cons.mpr (List.singleton_sublist.mpr inside)

/-- The rule that answers matches, and it comes before every other one that does. -/
theorem dispatch_eq_some (nodup : table.Nodup) {rule : ρ} {answer : β} :
    dispatch answer? table request = some (rule, answer) ↔
      rule ∈ table ∧ answer? rule request = some answer ∧
      ∀ other ∈ table, other ≠ rule → (answer? other request).isSome → Before table rule other := by
  induction table with
  | nil => simp [dispatch]
  | cons head table ih =>
      have whole := nodup
      obtain ⟨fresh, nodup⟩ := List.nodup_cons.mp nodup
      rw [dispatch]
      cases matched : answer? head request with
      | some first =>
          constructor
          · rintro answered
            obtain ⟨rfl, rfl⟩ := Prod.mk.inj (Option.some.inj answered)
            refine ⟨List.mem_cons_self, matched, fun other inside different _ => ?_⟩
            exact before_head ((List.mem_cons.mp inside).resolve_left different)
          · rintro ⟨inside, answers, order⟩
            rcases List.mem_cons.mp inside with rfl | later
            · rw [Option.some.inj (matched.symm.trans answers)]
            · have different : head ≠ rule := fun same => fresh (same ▸ later)
              have back := order head List.mem_cons_self different (by rw [matched]; rfl)
              exact absurd back ((before_head later).asymm whole)
      | none =>
          have apart {rule : ρ} {answer : β} (answers : answer? rule request = some answer) :
              rule ≠ head := by
            rintro rfl
            rw [matched] at answers
            cases answers
          refine (ih nodup).trans ?_
          constructor
          · rintro ⟨inside, answers, order⟩
            refine ⟨List.mem_cons_of_mem _ inside, answers, fun other there different some => ?_⟩
            obtain ⟨_, found⟩ := Option.isSome_iff_exists.mp some
            exact (before_cons (apart answers)).mpr
              (order other ((List.mem_cons.mp there).resolve_left (apart found)) different some)
          · rintro ⟨inside, answers, order⟩
            refine ⟨(List.mem_cons.mp inside).resolve_left (apart answers), answers,
              fun other there different some => ?_⟩
            exact (before_cons (apart answers)).mp
              (order other (List.mem_cons_of_mem _ there) different some)

/-- Rules may change places as long as no rivals do. -/
theorem dispatch_eq_of_order (nodup : table.Nodup) (perm : table.Perm later)
    (order : ∀ rule other, Rivals answer? rule other → Before table rule other → Before later rule other) :
    dispatch answer? later = dispatch answer? table := by
  funext request
  cases found : dispatch answer? table request with
  | none =>
      rw [dispatch_eq_none] at found ⊢
      exact fun rule inside => found rule (perm.mem_iff.mpr inside)
  | some result =>
      obtain ⟨rule, answer⟩ := result
      obtain ⟨inside, answers, first⟩ := (dispatch_eq_some nodup).mp found
      refine (dispatch_eq_some (perm.nodup_iff.mp nodup)).mpr ⟨perm.mem_iff.mp inside, answers, ?_⟩
      intro other there different some
      refine order rule other ⟨request, by rw [answers]; rfl, some⟩ ?_
      exact first other (perm.mem_iff.mpr there) different some

/-- Where two rules are the only ones that match, the answer tells their order. -/
theorem before_of_dispatch (nodup : table.Nodup) {rule other : ρ} {answer : β}
    (answered : dispatch answer? table request = some (rule, answer)) (inside : other ∈ table)
    (different : other ≠ rule) (matched : (answer? other request).isSome) : Before table rule other :=
  ((dispatch_eq_some nodup).mp answered).2.2 other inside different matched

end Order

end FirstMatch
