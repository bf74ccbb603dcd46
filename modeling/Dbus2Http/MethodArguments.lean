import Dbus2Http.ArgumentNames
import Dbus2Http.DbusSerialization
import Dbus2Http.FilledValues

set_option autoImplicit false

namespace Dbus2Http.DbusSerialization

open Cxx (Str)
open Dbus (Ty Draft LawfulWriter)
open Json2Message (ArgumentPart fillArguments)

/-! ### What a method element declares -/

/-- The attribute is optional: an argument without it is an input. -/
def DeclaredOut (argNode : Element) : Prop := argNode.attribute? "direction".toList = some "out".toList

instance (argNode : Element) : Decidable (DeclaredOut argNode) :=
  inferInstanceAs (Decidable (_ = _))

/-- The argument of an element, with a name after its position where it has none. -/
def declaredArgument (p : Element × Nat) : Argument :=
  { parseArgument p.1 with name := nameOf (parseArgument p.1, p.2) }

def argElements (methodNode : Element) : List (Element × Nat) :=
  (methodNode.childElements "arg".toList).zipIdx

def declaredInputs (methodNode : Element) : List Argument :=
  ((argElements methodNode).filter fun p => ¬ DeclaredOut p.1).map declaredArgument

def declaredOutputs (methodNode : Element) : List Argument :=
  ((argElements methodNode).filter fun p => DeclaredOut p.1).map declaredArgument

theorem parseMethod_args (methodNode : Element) :
    (parseMethod methodNode).args = (argElements methodNode).map declaredArgument := by
  have built := add_args ((methodNode.childElements "arg".toList).map parseArgument)
    { name := (methodNode.attribute? "name".toList).getD [] }
  rw [List.foldl_map, List.zipIdx_map, List.map_map, List.nil_append, List.length_nil] at built
  exact built

theorem parseArgument_out {argNode : Element} :
    (parseArgument argNode).direction = "out".toList ↔ DeclaredOut argNode := by
  rw [parseArgument, DeclaredOut]
  cases argNode.attribute? "direction".toList with
  | none => simp
  | some direction => simp

theorem parseArgument_in {argNode : Element} :
    (parseArgument argNode).direction = "in".toList ↔
      argNode.attribute? "direction".toList = some "in".toList := by
  rw [parseArgument]
  cases argNode.attribute? "direction".toList with
  | none => simp
  | some direction => simp

theorem outArgs_declared (methodNode : Element) :
    (parseMethod methodNode).outArgs = declaredOutputs methodNode := by
  rw [Method.outArgs, parseMethod_args, List.filter_map, declaredOutputs]
  congr 1
  apply List.filter_congr
  intro p _
  exact decide_eq_decide.mpr parseArgument_out

/-- The inputs are the arguments that say so. -/
theorem inArgs_eq (methodNode : Element) :
    (parseMethod methodNode).inArgs =
      ((argElements methodNode).filter fun p =>
        p.1.attribute? "direction".toList = some "in".toList).map declaredArgument := by
  rw [Method.inArgs, parseMethod_args, List.filter_map]
  congr 1
  apply List.filter_congr
  intro p _
  exact decide_eq_decide.mpr parseArgument_in

theorem not_declaredOut_of_in {argNode : Element}
    (input : argNode.attribute? "direction".toList = some "in".toList) : ¬ DeclaredOut argNode := by
  rw [DeclaredOut, input]
  decide

/-- The inputs are all that are declared exactly when each of those says that it is one. -/
theorem inArgs_declared_iff (methodNode : Element) :
    (parseMethod methodNode).inArgs = declaredInputs methodNode ↔
      ∀ arg ∈ methodNode.childElements "arg".toList, ¬ DeclaredOut arg →
        arg.attribute? "direction".toList = some "in".toList := by
  rw [inArgs_eq, declaredInputs]
  constructor
  · intro same arg inside input
    have fewer : List.Sublist
        ((argElements methodNode).filter fun p =>
          p.1.attribute? "direction".toList = some "in".toList)
        ((argElements methodNode).filter fun p => ¬ DeclaredOut p.1) := by
      apply List.monotone_filter_right
      intro p stated
      exact decide_eq_true (not_declaredOut_of_in (of_decide_eq_true stated))
    have lengths := congrArg List.length same
    rw [List.length_map, List.length_map] at lengths
    have all := fewer.eq_of_length lengths
    rw [← List.zipIdx_map_fst 0 (methodNode.childElements "arg".toList)] at inside
    obtain ⟨p, numbered, rfl⟩ := List.mem_map.mp inside
    have among : p ∈ (argElements methodNode).filter fun p => ¬ DeclaredOut p.1 :=
      List.mem_filter.mpr ⟨numbered, decide_eq_true input⟩
    rw [← all] at among
    exact of_decide_eq_true (List.mem_filter.mp among).2
  · intro stated
    congr 1
    apply List.filter_congr
    intro p numbered
    have inside : p.1 ∈ methodNode.childElements "arg".toList := by
      rw [← List.zipIdx_map_fst 0 (methodNode.childElements "arg".toList)]
      exact List.mem_map_of_mem numbered
    exact decide_eq_decide.mpr ⟨not_declaredOut_of_in, stated p.1 inside⟩

/-! ### Every argument is used -/

/-- Each argument of the method is an input or an output and not both, those without `out` are the
inputs, and a request that is sent has given each of these its values: one value where the type
is a single one and no descriptor. -/
structure UsesArguments (methodNode : Element) : Prop where
  each : ∀ arg ∈ (parseMethod methodNode).args,
    (arg ∈ (parseMethod methodNode).inArgs ∧ arg ∉ (parseMethod methodNode).outArgs) ∨
      (arg ∈ (parseMethod methodNode).outArgs ∧ arg ∉ (parseMethod methodNode).inArgs)
  inputs : (parseMethod methodNode).inArgs = declaredInputs methodNode
  outputs : (parseMethod methodNode).outArgs = declaredOutputs methodNode
  sends : ∀ {M : Type} [LawfulWriter M] (message filled : M) request,
    fillArguments message (parseMethod methodNode).inArgs request = .ok filled →
    ∃ parts : List ArgumentPart, parts.map ArgumentPart.arg = declaredInputs methodNode ∧
      (∀ p ∈ parts, p.Given request ∧ ∀ t, p.types = [t] → t ≠ .basic .unixFd →
        ∃ v, p.values = [v] ∧ v.typeOf = t) ∧
      (LawfulWriter.draft message).putAll (parts.flatMap ArgumentPart.values) =
        some (LawfulWriter.draft filled)

theorem fillArguments_parts {M : Type} [LawfulWriter M] {message filled : M} {args : List Argument}
    {request : Json} (done : fillArguments message args request = .ok filled) :
    ∃ parts : List ArgumentPart, parts.map ArgumentPart.arg = args ∧
      (∀ p ∈ parts, p.Given request ∧ ∀ t, p.types = [t] → t ≠ .basic .unixFd →
        ∃ v, p.values = [v] ∧ v.typeOf = t) ∧
      (LawfulWriter.draft message).putAll (parts.flatMap ArgumentPart.values) =
        some (LawfulWriter.draft filled) := by
  have alike := Json2Message.fillArguments_draft message args request
  rw [done] at alike
  obtain ⟨d, ok, same⟩ := alike.ok_left
  obtain ⟨parts, rfl, given, added⟩ := Json2Message.fillArguments_eq_ok.mp ok
  refine ⟨parts, rfl, fun p member => ⟨given p member, fun t single other => ?_⟩, ?_⟩
  · have filled := (given p member).filled
    rw [single] at filled
    exact filled.one.resolve_left fun descriptor => other descriptor.1
  · rw [added, same]

theorem one_of_direction {arg : Argument} {method : Method} (inside : arg ∈ method.args)
    (known : arg.direction = "in".toList ∨ arg.direction = "out".toList) :
    (arg ∈ method.inArgs ∧ arg ∉ method.outArgs) ∨ (arg ∈ method.outArgs ∧ arg ∉ method.inArgs) := by
  rw [Method.inArgs, Method.outArgs]
  simp only [List.mem_filter, inside, true_and, decide_eq_true_eq]
  rcases known with input | output
  · exact .inl ⟨input, by rw [input]; decide⟩
  · exact .inr ⟨output, by rw [output]; decide⟩

/-- Where each argument is declared with a direction of the format or with none, they are all used
exactly when none is declared without. -/
theorem usesArguments_iff {methodNode : Element}
    (known : ∀ arg ∈ methodNode.childElements "arg".toList,
      arg.attribute? "direction".toList = none ∨
      arg.attribute? "direction".toList = some "in".toList ∨
      arg.attribute? "direction".toList = some "out".toList) :
    UsesArguments methodNode ↔
      ∀ arg ∈ methodNode.childElements "arg".toList,
        arg.attribute? "direction".toList ≠ none := by
  constructor
  · intro uses arg inside missing
    have input : ¬ DeclaredOut arg := by
      rw [DeclaredOut, missing]
      exact Option.some_ne_none _ ∘ Eq.symm
    have stated := (inArgs_declared_iff methodNode).mp uses.inputs arg inside input
    rw [missing] at stated
    contradiction
  · intro directed
    have inputs : (parseMethod methodNode).inArgs = declaredInputs methodNode := by
      apply (inArgs_declared_iff methodNode).mpr
      intro arg inside input
      rcases known arg inside with missing | stated | output
      · exact absurd missing (directed arg inside)
      · exact stated
      · exact absurd output input
    constructor
    · intro arg inside
      apply one_of_direction inside
      rw [parseMethod_args] at inside
      obtain ⟨p, numbered, rfl⟩ := List.mem_map.mp inside
      have among : p.1 ∈ methodNode.childElements "arg".toList := by
        rw [← List.zipIdx_map_fst 0 (methodNode.childElements "arg".toList)]
        exact List.mem_map_of_mem numbered
      rcases known p.1 among with missing | stated | output
      · exact absurd missing (directed p.1 among)
      · exact .inl (parseArgument_in.mpr stated)
      · exact .inr (parseArgument_out.mpr output)
    · exact inputs
    · exact outArgs_declared methodNode
    · intro M _ message filled request done
      rw [inputs] at done
      exact fillArguments_parts done

def argument (attributes : List (String × String)) : Element :=
  .mk "arg".toList (attributes.map fun pair => (pair.1.toList, pair.2.toList)) []

/-- A method that takes a string and returns a number. -/
def lengthMethod : Element :=
  .mk "method".toList [("name".toList, "Length".toList)] [
    argument [("type", "s"), ("direction", "in")], argument [("type", "u"), ("direction", "out")]]

theorem lengthMethod_uses : UsesArguments lengthMethod := by
  apply (usesArguments_iff _).mpr
  · decide
  · decide

/-- A method whose one argument has no direction is called with nothing. -/
theorem echo_loses_argument :
    (parseMethod (.mk "method".toList [("name".toList, "Echo".toList)]
        [argument [("type", "s")]])).inArgs = [] ∧
      (declaredInputs (.mk "method".toList [("name".toList, "Echo".toList)]
        [argument [("type", "s")]])).map Argument.type = ["s".toList] ∧
      ¬ UsesArguments (.mk "method".toList [("name".toList, "Echo".toList)]
        [argument [("type", "s")]]) := by
  refine ⟨by decide, by decide, fun uses => ?_⟩
  have lengths := congrArg List.length uses.inputs
  exact absurd lengths (by decide)

end Dbus2Http.DbusSerialization
