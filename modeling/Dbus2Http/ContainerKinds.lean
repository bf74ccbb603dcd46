import Dbus2Http.FillTermination
import Dbus2Http.FillWalk

set_option autoImplicit false

namespace Dbus2Http.Json2Message

open Cxx (Str Ends Throws)
open Dbus (Ty Value Draft LawfulWriter)

/-! ### The kinds of JSON containers -/

/-- A dict is given as an object and any other array as an array; no other type has a
container of its own. -/
def RightKind : Ty → Json → Prop
  | .array (.entry _ _), json => json.isObject = true
  | .array _, json => json.isArray = true
  | _, _ => True

/-- A dict given as an array, or any other array given as an object. -/
def Swapped : Ty → Json → Prop
  | .array (.entry _ _), json => json.isArray = true
  | .array _, json => json.isObject = true
  | _, _ => False

theorem Swapped.not_rightKind {t : Ty} {json : Json} (swapped : Swapped t json) : ¬ RightKind t json := by
  cases json with
  | array items =>
      cases t with
      | array elem => cases elem <;> simp_all [Swapped, RightKind, Json.isArray, Json.isObject]
      | _ => exact swapped.elim
  | object members =>
      cases t with
      | array elem => cases elem <;> simp_all [Swapped, RightKind, Json.isArray, Json.isObject]
      | _ => exact swapped.elim
  | _ =>
      cases t with
      | array elem => cases elem <;> simp [Swapped, Json.isArray, Json.isObject] at swapped
      | _ => exact swapped.elim

/-- The only kinds that are filled in for an array type are the two containers. -/
theorem Filled.container {rule : IntegerRule} {elem : Ty} {json : Json} {vs : List Value}
    (filled : Filled rule [.array elem] json vs) : json.isArray = true ∨ json.isObject = true := by
  generalize one : [Ty.array elem] = ts at filled
  cases filled with
  | several parts several => exact absurd one (one_ne_several several _)
  | array element splits plain container => simpa using container
  | dict element container => simpa using container
  | _ => cases one

theorem Filled.rightKind {rule : IntegerRule} {t : Ty} {json : Json} {vs : List Value}
    (filled : Filled rule [t] json vs) (kept : ¬ Swapped t json) : RightKind t json := by
  cases t with
  | array elem =>
      rcases filled.container with array | object
      · cases elem with
        | entry key value => exact absurd array kept
        | _ => exact array
      · cases elem with
        | entry key value => exact object
        | _ => exact absurd object kept
  | _ => trivial

/-! ### Places with the wrong kind -/

/-- The promise about containers: a request with the wrong kind of JSON value at any place
that is reached is refused, so what is accepted has arrays and objects where its types do. -/
structure KeepsContainers {M : Type} [LawfulWriter M] (message : M) (sig : Str) (json : Json) : Prop where
  refuses : ∀ ts t place, sig = Ty.texts ts → Reaches (ts, json) ([t], place) → ¬ RightKind t place →
    Throws (fillMessage message sig json)
  accepts : ∀ ts t place message', sig = Ty.texts ts → Reaches (ts, json) ([t], place) →
    fillMessage message sig json = .ok message' → RightKind t place

/-- The values that a request stands for and the message takes, if there are any, are
found without a swapped container. -/
def Unswapped (d : Draft) (sig : Str) (json : Json) : Prop :=
  ∀ ts vs, sig = Ty.texts ts → Filled Converted ts json vs → (d.putAll vs).isSome →
    ∀ t place, Reaches (ts, json) ([t], place) → ¬ Swapped t place

theorem rightKind_of_done {M : Type} [LawfulWriter M] {message message' : M} {ts : List Ty} {json : Json}
    (unswapped : Unswapped (LawfulWriter.draft message) (Ty.texts ts) json)
    (done : fillMessage message (Ty.texts ts) json = .ok message') {t : Ty} {place : Json}
    (walk : Reaches (ts, json) ([t], place)) : RightKind t place := by
  obtain ⟨us, vs, same, filled, added⟩ := fillMessage_added done
  rw [← Ty.texts_injective same] at filled
  obtain ⟨values, inner⟩ := filled.reaches walk
  exact inner.rightKind (unswapped ts vs rfl filled (by rw [added]; rfl) t place walk)

/-- Containers are told apart in exactly the requests that stand for nothing the message
takes or stand for it without swapping two kinds of containers: the code asks for one of
the two kinds and not for the one that fits. -/
theorem fillMessage_containers_iff {M : Type} [LawfulWriter M] (message : M) (sig : Str) (json : Json) :
    KeepsContainers message sig json ↔ Unswapped (LawfulWriter.draft message) sig json := by
  constructor
  · rintro keeps ts vs rfl filled taken t place walk swapped
    obtain ⟨d, added⟩ := Option.isSome_iff_exists.mp taken
    obtain ⟨message', done, _⟩ := fillMessage_returns filled added
    exact swapped.not_rightKind (keeps.accepts ts t place message' rfl walk done)
  · intro unswapped
    constructor
    · rintro ts t place rfl walk wrong
      have splits : Ends (SignatureUtils.split (Ty.texts ts)) := by
        have ends := SignatureUtils.split_ends_texts ts (show Ends (SignatureUtils.split []) from .ok _)
        rwa [List.append_nil] at ends
      apply (fillMessage_ends (validates_lawful M) splits json message).throws_of_ne_ok
      intro message' done
      exact wrong (rightKind_of_done unswapped done walk)
    · rintro ts t place message' rfl walk done
      exact rightKind_of_done unswapped done walk

/-- The names of an object are dropped where an array of strings is asked for, and where a
dict is asked for an array gets names. -/
theorem fillMessage_swaps_containers :
    fillMessage Draft.empty "as".toList (.object [("a".toList, .string "x".toList)]) =
        .ok ⟨⟨none, .any, [.array (.basic .string) [.string (Dbus.zeroFree "x".toList)]]⟩, []⟩ ∧
      fillMessage Draft.empty "a{ss}".toList (.array [.string "x".toList]) =
        .ok ⟨⟨none, .any, [.array (.entry (.basic .string) (.basic .string))
          [.entry (.string (Dbus.zeroFree "0".toList)) (.string (Dbus.zeroFree "x".toList))]]⟩, []⟩ ∧
      ¬ KeepsContainers Draft.empty "as".toList (.object [("a".toList, .string "x".toList)]) ∧
      ¬ KeepsContainers Draft.empty "a{ss}".toList (.array [.string "x".toList]) := by
  refine ⟨rfl, rfl, ?_, ?_⟩
  · intro keeps
    have right := keeps.accepts [.array (.basic .string)] _ _ _ rfl .refl rfl
    exact Bool.noConfusion right
  · intro keeps
    have right := keeps.accepts [.array (.entry (.basic .string) (.basic .string))] _ _ _ rfl .refl rfl
    exact Bool.noConfusion right

end Dbus2Http.Json2Message
