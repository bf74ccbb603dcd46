import Dbus2Http.Entities
import Dbus2Http.JsonValue
import Dbus2Http.MessageDraft
import Dbus2Http.SignaturePieces

set_option autoImplicit false

namespace Dbus2Http.Json2Message

open Cxx (Str Run Alike throwExn orThrow substr substrFrom charAt cStr)
open Dbus (IntTy Value ContainerKind Draft MessageWriter LawfulWriter WriteAlike writeAlike_self
  writeAlike_draft zeroFree)

variable {M : Type} [MessageWriter M]

/-! ### The message -/

/-- `message << value`. -/
def append (message : M) (value : Value) : Run M :=
  orThrow .busError (MessageWriter.append message value)

/-- The contents are passed as a C string. -/
def openContainer (kind : ContainerKind) (message : M) (contents : Str) : Run M :=
  orThrow .busError (MessageWriter.openContainer kind message (cStr contents))

def closeContainer (kind : ContainerKind) (message : M) : Run M :=
  orThrow .busError (MessageWriter.closeContainer kind message)

/-! ### Integers -/

/-- `typeid(T).name()`. -/
def typeIdName : IntTy → Str
  | .byte => "h".toList
  | .int16 => "s".toList
  | .uint16 => "t".toList
  | .int32 => "i".toList
  | .uint32 => "j".toList
  | .int64 => "l".toList
  | .uint64 => "m".toList

/-- A `long long` as it is compared with the limits of a type: only against an
unsigned 64-bit limit is it converted first. -/
def comparedWithLimits (t : IntTy) (integer : Int) : Int :=
  if t = .uint64 then (t.wrap integer).val else integer

def appendIntegerFromJson (t : IntTy) (message : M) (json : Json) : Run M :=
  match json with
  | .integer n => append message (.int t (t.wrap n.val))
  | .unsigned n => append message (.int t (t.wrap n.val))
  | .string text => do
      let integer ← Cxx.stoll text
      if t.Holds (comparedWithLimits t integer) then append message (.int t (t.wrap integer))
      else throwExn .invalidArgument (text ++ " Exceeds the valid range of target type".toList)
  | other => throwExn .invalidArgument
      ("Expected ".toList ++ typeIdName t ++ " type but we get :".toList ++ other.typeName)

/-! ### One call, given what the calls inside it do -/

/-- What `FillMessage` does with a message, a signature and a value. -/
abbrev Filler (M : Type) := M → Str → Json → Run M

def fillVariant (fill : Filler M) (message : M) (json : Json) : Run M :=
  if json.isObject then
    match json.member? "variant".toList, json.member? "value".toList with
    | some variant, some value => do
        let sig ← variant.getString
        let message ← openContainer .variant message sig
        let message ← fill message sig value
        closeContainer .variant message
    | _, _ => throwExn .invalidArgument "Missing signature or value for variant".toList
  else throwExn .invalidArgument "Expect object for variant".toList

def fillDictEntry (fill : Filler M) (elementSig : Str) (message : M) (item : Str × Json) : Run M := do
  let message ← openContainer .dictEntry message elementSig
  let keySig ← substr elementSig 0 1
  let message ← fill message keySig (.string item.1)
  let valueSig ← substrFrom elementSig 1
  let message ← fill message valueSig item.2
  closeContainer .dictEntry message

/-- The loops over a dict, an array of structs and any other array; the last two do
the same. -/
def fillElements (fill : Filler M) (message : M) (currentSig arraySig elementSig : Str)
    (json : Json) : Run M :=
  if charAt currentSig 1 = '{' then json.items.foldlM (fillDictEntry fill elementSig) message
  else json.elements.foldlM (fun message j => fill message arraySig j) message

/-- The length `size() - 2` of the element signature wraps below zero for a single
code, where nothing follows the first character in any case. -/
def fillArray (fill : Filler M) (message : M) (currentSig : Str) (json : Json) : Run M :=
  if json.isArray || json.isObject then do
    let arraySig ← substrFrom currentSig 1
    let elementSig ← substr arraySig 1 (arraySig.length - 2)
    let message ← openContainer .array message arraySig
    let message ← fillElements fill message currentSig arraySig elementSig json
    closeContainer .array message
  else throwExn .invalidArgument ("Expect array but we get :".toList ++ json.typeName)

def fillStruct (fill : Filler M) (message : M) (currentSig : Str) (json : Json) : Run M := do
  let elementSig ← substr currentSig 1 (currentSig.length - 2)
  let message ← openContainer .struct message elementSig
  let message ← fill message elementSig json
  closeContainer .struct message

/-- The switch on the first code of a single piece; a code it does not name falls
through without a word. -/
def fillPiece (fill : Filler M) (message : M) (currentSig : Str) (json : Json) : Run M :=
  match charAt currentSig 0 with
  | 'b' =>
      match json with
      | .bool b => append message (.bool b)
      | other => throwExn .invalidArgument ("Expect bool but we get :".toList ++ other.typeName)
  | 'y' => appendIntegerFromJson .byte message json
  | 'n' => appendIntegerFromJson .int16 message json
  | 'q' => appendIntegerFromJson .uint16 message json
  | 'i' => appendIntegerFromJson .int32 message json
  | 'u' => appendIntegerFromJson .uint32 message json
  | 'x' => appendIntegerFromJson .int64 message json
  | 't' => appendIntegerFromJson .uint64 message json
  | 'd' =>
      match json.asDouble? with
      | some d => append message (.double d)
      | none => throwExn .invalidArgument ("Expect float but we get :".toList ++ json.typeName)
  | 's' =>
      match json with
      | .string s => append message (.string (zeroFree s))
      | other => throwExn .invalidArgument ("Expect string but we get :".toList ++ other.typeName)
  | 'v' => fillVariant fill message json
  | 'a' => fillArray fill message currentSig json
  | '(' => fillStruct fill message currentSig json
  | _ => .ok message

def fillPieces (fill : Filler M) (message : M) (completeSigs : List Str) (json : Json) : Run M :=
  match json with
  | .array items =>
      if items.length = completeSigs.length then
        (completeSigs.zip items).foldlM (fun message call => fill message call.1 call.2) message
      else throwExn .invalidArgument
        ("Expect array size ".toList ++ Cxx.toDecimal completeSigs.length ++
          " but we get :".toList ++ Cxx.toDecimal items.length)
  | other => throwExn .invalidArgument ("Expect array but we get :".toList ++ other.typeName)

def fillCall (fill : Filler M) : Filler M := fun message sig json => do
  let completeSigs ← SignatureUtils.split sig
  match completeSigs with
  | [] => .ok message
  | [currentSig] => fillPiece fill message currentSig json
  | completeSigs => fillPieces fill message completeSigs json

/-! ### The recursion -/

def fillLoop : Nat → Filler M
  | 0 => fun _ _ _ => .error .outOfFuel
  | fuel + 1 => fillCall (fillLoop fuel)

/-- Each call inside is on a shorter signature or a lighter value, so this much fuel
suffices; `fillMessage_eq` says so. -/
def fillMessage : Filler M := fun message sig json =>
  fillLoop (sig.length + json.weight) message sig json

/-- The overload for the arguments of a method. -/
def fillArguments (message : M) (args : List Argument) (json : Json) : Run M :=
  args.foldlM (fun message arg =>
    match json.member? arg.name with
    | some value => fillMessage message arg.type value
    | none => throwExn .invalidArgument ("Missing argument: ".toList ++ arg.name)) message

/-! ### What the calls inside are about -/

/-- The signature and the value of a variant take less room than its object. -/
theorem variant_lighter {json value : Json} {sig : Str}
    (found : json.member? "variant".toList = some (.string sig))
    (found' : json.member? "value".toList = some value) :
    sig.length + value.weight < json.weight := by
  obtain ⟨members, rfl, foundHere⟩ := Json.member?_eq_some found
  have lighter := Json.members_weight_lt (by decide) foundHere found'
  simp only [Json.textLength] at lighter
  exact lighter

theorem several_of_split {completeSigs : List Str} (notNone : completeSigs = [] → False)
    (notOne : ∀ currentSig, completeSigs = [currentSig] → False) : 1 < completeSigs.length := by
  rcases completeSigs with _ | ⟨first, _ | ⟨second, others⟩⟩
  · exact absurd rfl notNone
  · exact absurd rfl (notOne first)
  · simp

/-- A call on one of several pieces is a smaller one. -/
theorem piece_smaller {sig : Str} {completeSigs : List Str} {items : List Json} {call : Str × Json}
    (split : SignatureUtils.split sig = .ok completeSigs) (several : 1 < completeSigs.length)
    (inside : call ∈ completeSigs.zip items) :
    call.1.length + call.2.weight < sig.length + (Json.array items).weight := by
  have both := List.of_mem_zip inside
  have shorter := SignatureUtils.split_piece_length split several both.1
  have lighter := Json.element_weight_lt (j := .array items) both.2
  omega

/-! ### Fillers that agree -/

section Alike

variable {N : Type} [MessageWriter N] {R : M → N → Prop}

/-- Two fillers do the same on every call smaller than `size`. -/
def AlikeBelow (R : M → N → Prop) (size : Nat) (fill : Filler M) (fill' : Filler N) : Prop :=
  ∀ sig json, sig.length + json.weight < size → ∀ m n, R m n →
    Alike R (fill m sig json) (fill' n sig json)

theorem append_alike (writers : WriteAlike R) {m : M} {n : N} (related : R m n) {value : Value}
    (basic : value.typeOf.isBasic = true) : Alike R (append m value) (append n value) :=
  .orThrow _ (writers.append related basic)

theorem openContainer_alike (writers : WriteAlike R) (kind : ContainerKind) {m : M} {n : N}
    (related : R m n) (contents : Str) :
    Alike R (openContainer kind m contents) (openContainer kind n contents) :=
  .orThrow _ (writers.openContainer kind _ related)

theorem closeContainer_alike (writers : WriteAlike R) (kind : ContainerKind) {m : M} {n : N}
    (related : R m n) : Alike R (closeContainer kind m) (closeContainer kind n) :=
  .orThrow _ (writers.closeContainer kind related)

theorem appendIntegerFromJson_alike (writers : WriteAlike R) {m : M} {n : N} (related : R m n)
    (t : IntTy) (json : Json) :
    Alike R (appendIntegerFromJson t m json) (appendIntegerFromJson t n json) := by
  unfold appendIntegerFromJson
  split
  · exact append_alike writers related rfl
  · exact append_alike writers related rfl
  · apply Alike.bind_same
    intro integer _
    split
    · exact append_alike writers related rfl
    · exact .error _
  · exact .error _

variable {fill : Filler M} {fill' : Filler N}

theorem fillVariant_alike (writers : WriteAlike R) {size : Nat} (below : AlikeBelow R size fill fill')
    {m : M} {n : N} (related : R m n) {json : Json} (light : json.weight ≤ size) :
    Alike R (fillVariant fill m json) (fillVariant fill' n json) := by
  unfold fillVariant
  split
  · split
    · rename_i variant value found found'
      apply Alike.bind_same
      intro sig text
      have spelled : variant = .string sig := by
        cases variant <;> simp_all [Json.getString]
      rw [spelled] at found
      have smaller : sig.length + value.weight < size :=
        Nat.lt_of_lt_of_le (variant_lighter found found') light
      apply Alike.bind (openContainer_alike writers .variant related sig)
      intro m' n' opened
      apply Alike.bind (below sig value smaller m' n' opened)
      intro m'' n'' filled
      exact closeContainer_alike writers .variant filled
    · exact .error _
  · exact .error _

theorem fillDictEntry_alike (writers : WriteAlike R) {size : Nat}
    (below : AlikeBelow R size fill fill') {m : M} {n : N} (related : R m n) {elementSig : Str}
    {item : Str × Json} (some : 2 < size) (light : elementSig.length + item.2.weight < size) :
    Alike R (fillDictEntry fill elementSig m item) (fillDictEntry fill' elementSig n item) := by
  unfold fillDictEntry
  apply Alike.bind (openContainer_alike writers .dictEntry related elementSig)
  intro m₁ n₁ opened
  apply Alike.bind_same
  intro keySig keyText
  have keyShort := Cxx.length_of_substr keyText
  have keySmall : keySig.length + (Json.string item.1).weight < size := by
    simp only [Json.weight]
    omega
  apply Alike.bind (below _ _ keySmall m₁ n₁ opened)
  intro m₂ n₂ keyed
  apply Alike.bind_same
  intro valueSig valueText
  have valueShort := Cxx.length_of_substrFrom valueText
  apply Alike.bind (below _ _ (by omega) m₂ n₂ keyed)
  intro m₃ n₃ filled
  exact closeContainer_alike writers .dictEntry filled

theorem fillArray_alike (writers : WriteAlike R) {currentSig : Str} {json : Json}
    (below : AlikeBelow R (currentSig.length + json.weight) fill fill') {m : M} {n : N}
    (related : R m n) :
    Alike R (fillArray fill m currentSig json) (fillArray fill' n currentSig json) := by
  unfold fillArray
  split
  · apply Alike.bind_same
    intro arraySig arrayText
    have arrayLength := Cxx.length_of_substrFrom arrayText
    apply Alike.bind_same
    intro elementSig elementText
    have elementShort := Cxx.length_lt_of_substr elementText Nat.one_pos
    apply Alike.bind (openContainer_alike writers .array related arraySig)
    intro m₁ n₁ opened
    apply Alike.bind
    · unfold fillElements
      split
      · rename_i dict
        have long := Cxx.length_of_charAt dict (by decide)
        have heavy := json.weight_pos
        apply Alike.foldlM opened
        intro item inside m₂ n₂ continued
        have lighter := Json.item_weight_lt inside
        exact fillDictEntry_alike writers below continued (by omega) (by omega)
      · apply Alike.foldlM opened
        intro item inside m₂ n₂ continued
        have lighter := Json.element_weight_lt inside
        exact below _ _ (by omega) m₂ n₂ continued
    · intro m₃ n₃ filled
      exact closeContainer_alike writers .array filled
  · exact .error _

theorem fillStruct_alike (writers : WriteAlike R) {currentSig : Str} {json : Json}
    (below : AlikeBelow R (currentSig.length + json.weight) fill fill') {m : M} {n : N}
    (related : R m n) :
    Alike R (fillStruct fill m currentSig json) (fillStruct fill' n currentSig json) := by
  unfold fillStruct
  apply Alike.bind_same
  intro elementSig elementText
  have elementShort := Cxx.length_lt_of_substr elementText Nat.one_pos
  apply Alike.bind (openContainer_alike writers .struct related elementSig)
  intro m₁ n₁ opened
  apply Alike.bind (below _ _ (by omega) m₁ n₁ opened)
  intro m₂ n₂ filled
  exact closeContainer_alike writers .struct filled

theorem fillPiece_alike (writers : WriteAlike R) {currentSig : Str} {json : Json}
    (below : AlikeBelow R (currentSig.length + json.weight) fill fill') {m : M} {n : N}
    (related : R m n) :
    Alike R (fillPiece fill m currentSig json) (fillPiece fill' n currentSig json) := by
  unfold fillPiece
  split
  · split
    · exact append_alike writers related rfl
    · exact .error _
  iterate 7 exact appendIntegerFromJson_alike writers related _ json
  · split
    · exact append_alike writers related rfl
    · exact .error _
  · split
    · exact append_alike writers related rfl
    · exact .error _
  · exact fillVariant_alike writers below related (Nat.le_add_left _ _)
  · exact fillArray_alike writers below related
  · exact fillStruct_alike writers below related
  · exact .ok related

omit [MessageWriter M] [MessageWriter N] in
theorem fillPieces_alike {sig : Str} {completeSigs : List Str} {json : Json}
    (split : SignatureUtils.split sig = .ok completeSigs) (several : 1 < completeSigs.length)
    (below : AlikeBelow R (sig.length + json.weight) fill fill') {m : M} {n : N} (related : R m n) :
    Alike R (fillPieces fill m completeSigs json) (fillPieces fill' n completeSigs json) := by
  unfold fillPieces
  split
  · split
    · apply Alike.foldlM related
      intro call inside m' n' continued
      exact below _ _ (piece_smaller split several inside) m' n' continued
    · exact .error _
  · exact .error _

/-- A call does the same as another when the calls inside it do. -/
theorem fillCall_alike (writers : WriteAlike R) {sig : Str} {json : Json}
    (below : AlikeBelow R (sig.length + json.weight) fill fill') {m : M} {n : N} (related : R m n) :
    Alike R (fillCall fill m sig json) (fillCall fill' n sig json) := by
  unfold fillCall
  apply Alike.bind_same
  intro completeSigs ok
  split
  · exact .ok related
  · rename_i currentSig
    have same : currentSig = sig := SignatureUtils.split_single ok
    rw [← same] at below
    exact fillPiece_alike writers below related
  · rename_i notNone notOne
    exact fillPieces_alike ok (several_of_split notNone notOne) below related

end Alike

/-- The fuel is enough, whatever the amount. -/
theorem fillLoop_enough {N : Type} [MessageWriter N] {R : M → N → Prop} (writers : WriteAlike R)
    {fuel fuel' : Nat} {sig : Str} {json : Json} (enough : sig.length + json.weight ≤ fuel)
    (enough' : sig.length + json.weight ≤ fuel') {m : M} {n : N} (related : R m n) :
    Alike R (fillLoop fuel m sig json) (fillLoop fuel' n sig json) := by
  have positive := json.weight_pos
  induction fuel generalizing fuel' sig json m n with
  | zero => omega
  | succ fuel ih =>
      obtain ⟨fuel', rfl⟩ := Nat.exists_eq_succ_of_ne_zero (show fuel' ≠ 0 by omega)
      apply fillCall_alike writers _ related
      intro sig' json' smaller m' n' related'
      exact ih (by omega) (by omega) related' json'.weight_pos

/-- `FillMessage` is the call whose inner calls are `FillMessage` again. -/
theorem fillMessage_eq (message : M) (sig : Str) (json : Json) :
    fillMessage message sig json = fillCall fillMessage message sig json := by
  have step : Alike (@Eq M) (fillLoop (sig.length + json.weight + 1) message sig json)
      (fillCall fillMessage message sig json) := by
    apply fillCall_alike (writeAlike_self M) _ rfl
    intro sig' json' smaller m n same
    rw [same]
    exact fillLoop_enough (writeAlike_self M) (by omega) (Nat.le_refl _) rfl
  have enough : Alike (@Eq M) (fillMessage message sig json)
      (fillLoop (sig.length + json.weight + 1) message sig json) :=
    fillLoop_enough (writeAlike_self M) (Nat.le_refl _) (Nat.le_succ _) rfl
  exact enough.eq.trans step.eq

/-- What happens to a message is what happens to its draft. -/
theorem fillMessage_draft {M : Type} [LawfulWriter M] (message : M) (sig : Str) (json : Json) :
    Alike (fun (m : M) (d : Draft) => LawfulWriter.draft m = d) (fillMessage message sig json)
      (fillMessage (LawfulWriter.draft message) sig json) :=
  fillLoop_enough (writeAlike_draft M) (Nat.le_refl _) (Nat.le_refl _) rfl

end Dbus2Http.Json2Message
