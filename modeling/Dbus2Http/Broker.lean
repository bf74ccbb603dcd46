import Mathlib.Data.List.Basic
import Mathlib.Logic.Function.Basic

set_option autoImplicit false

/-! # Publish and subscribe

Members join under a rule and leave again. What is published is chosen for each member under its
rule; something may also be handed to one member directly. -/

namespace Broker

inductive Event (Id Rule Out : Type)
  | join (id : Id) (rule : Rule)
  | leave (gone : Id → Bool)
  | direct (id : Id) (out : Out)
  | publish (chosen : Id → Rule → Option Out)

section One

variable {Id Rule Out : Type} [DecidableEq Id]

/-- The rule of one member after an event. -/
def ruleAfter (id : Id) (rule : Option Rule) : Event Id Rule Out → Option Rule
  | .join other new => if other = id then some new else rule
  | .leave gone => if gone id then none else rule
  | .direct _ _ => rule
  | .publish _ => rule

/-- What an event gives to one member. -/
def given (id : Id) (rule : Option Rule) : Event Id Rule Out → List Out
  | .direct other out => if other = id ∧ rule.isSome then [out] else []
  | .publish chosen => (rule.bind (chosen id)).toList
  | _ => []

/-- What a run of events gives to a member that has a rule or none. -/
def seen (id : Id) : Option Rule → List (Event Id Rule Out) → List Out
  | _, [] => []
  | rule, event :: later => given id rule event ++ seen id (ruleAfter id rule event) later

/-- The rules of all members after an event. -/
def step (rules : Id → Option Rule) (event : Event Id Rule Out) : Id → Option Rule :=
  fun id => ruleAfter id (rules id) event

end One

end Broker
