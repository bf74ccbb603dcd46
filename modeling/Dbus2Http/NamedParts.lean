import Dbus2Http.CodecRoundTrip

set_option autoImplicit false

namespace Dbus2Http

open Cxx (Str)
open Dbus (Ty Value Draft LawfulWriter)
open Json2Message (Filled Converted)

/-- Two lists with the same images are paired up. -/
theorem exists_paired {α β γ : Type} {f : α → γ} {g : β → γ} {xs : List α} {ys : List β}
    (same : xs.map f = ys.map g) :
    ∃ zs : List (α × β), xs = zs.map Prod.fst ∧ ys = zs.map Prod.snd ∧ ∀ z ∈ zs, f z.1 = g z.2 := by
  have length : xs.length = ys.length := by
    have images := congrArg List.length same
    rwa [List.length_map, List.length_map] at images
  refine ⟨xs.zip ys, (List.map_fst_zip (Nat.le_of_eq length)).symm,
    (List.map_snd_zip (Nat.le_of_eq length.symm)).symm, ?_⟩
  intro z inside
  obtain ⟨i, inRange, here⟩ := List.mem_iff_getElem.mp inside
  rw [List.length_zip] at inRange
  rw [← here, List.getElem_zip]
  have images := List.getElem_of_eq same (by rw [List.length_map]; omega : i < (xs.map f).length)
  rwa [List.getElem_map, List.getElem_map] at images

/-- A finished call with these values. -/
def calling (vs : List Value) : Draft := ⟨⟨none, .any, vs⟩, []⟩

/-- Members that are there under the names of the arguments are filled in, one value for each. -/
theorem Json2Message.fillArguments_named {ω : Type} {parts : List ω} {name : ω → Str} {type : ω → Ty}
    {json : ω → Json} {value : ω → Value} {request : Json}
    (members : ∀ p ∈ parts, request.member? (name p) = some (json p))
    (fills : ∀ p ∈ parts, Filled Converted [type p] (json p) [value p])
    (single : ∀ p ∈ parts, (value p).typeOf.Single) {args : List Argument}
    (same : args.map (fun arg => (arg.name, arg.type)) = parts.map fun p => (name p, (type p).text))
    {M : Type} [LawfulWriter M] {message : M} (empty : LawfulWriter.draft message = Draft.empty) :
    ∃ filled, fillArguments message args request = .ok filled ∧
      LawfulWriter.draft filled = calling (parts.map value) := by
  obtain ⟨pairs, rfl, rfl, each⟩ := exists_paired same
  have added : Draft.empty.putAll ((pairs.map Prod.snd).map value) =
      some (calling ((pairs.map Prod.snd).map value)) := by
    refine (Draft.putAll_any rfl).mpr ⟨?_, rfl⟩
    intro v inside
    obtain ⟨p, member, rfl⟩ := List.mem_map.mp inside
    exact single p member
  have complete : fillArguments Draft.empty (pairs.map Prod.fst) request =
      .ok (calling ((pairs.map Prod.snd).map value)) := by
    apply fillArguments_eq_ok.mpr
    refine ⟨pairs.map fun pair =>
      ⟨pair.1, json pair.2, [type pair.2], [value pair.2]⟩, ?_, ?_, ?_⟩
    · rw [List.map_map]
      rfl
    · intro p inside
      obtain ⟨pair, member, rfl⟩ := List.mem_map.mp inside
      have here := List.mem_map_of_mem (f := Prod.snd) member
      obtain ⟨sameName, sameType⟩ := Prod.mk.inj (each pair member)
      refine ⟨?_, ?_, fills pair.2 here⟩
      · rw [sameName]
        exact members pair.2 here
      · rw [sameType, Ty.texts_singleton]
    · rw [List.flatMap_map, ← added, List.map_map, List.map_eq_flatMap]
      rfl
  have alike := fillArguments_draft message (pairs.map Prod.fst) request
  rw [empty, complete] at alike
  exact alike.ok_right

end Dbus2Http
