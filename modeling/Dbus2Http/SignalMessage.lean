import Dbus2Http.ArgumentNames
import Dbus2Http.DbusCaller
import Dbus2Http.DbusSerialization
import Dbus2Http.NamedParts

set_option autoImplicit false

namespace Dbus2Http

open Cxx (Str Run Settles)
open Dbus (Value Cursor Draft MessageReader LawfulReader LawfulWriter)

/-- The header fields of a message, each of which may be absent. -/
structure Header where
  interfaceName : Option Str := none
  memberName : Option Str := none
  sender : Option Str := none
  path : Option Str := none
  destination : Option Str := none
deriving DecidableEq

/-- A message as a callback gets it, its body not yet read. -/
structure BusMessage (M : Type) where
  header : Header
  body : M

namespace Message2Json

/-- `json_null` -/
def jsonNull : Option Str → Json
  | none => .null
  | some value => .string value

def wrapHeader (header : Header) (data : Json) : Run Json := do
  let result ← Json.null.setMember "type".toList (.string "signal".toList)
  let result ← result.setMember "interface".toList (jsonNull header.interfaceName)
  let result ← result.setMember "member".toList (jsonNull header.memberName)
  let result ← result.setMember "sender".toList (jsonNull header.sender)
  let result ← result.setMember "path".toList (jsonNull header.path)
  let result ← result.setMember "destination".toList (jsonNull header.destination)
  result.setMember "data".toList data

/-- The assignments of `wrapHeader`, in their order. -/
def headed (header : Header) (data : Json) : List (Str × Json) :=
  [("type".toList, .string "signal".toList), ("interface".toList, jsonNull header.interfaceName),
    ("member".toList, jsonNull header.memberName), ("sender".toList, jsonNull header.sender),
    ("path".toList, jsonNull header.path), ("destination".toList, jsonNull header.destination),
    ("data".toList, data)]

theorem wrapHeader_eq (header : Header) (data : Json) :
    wrapHeader header data = .ok (Json.ofAssignments (headed header data)) := rfl

theorem headed_distinct (header : Header) (data : Json) :
    ((headed header data).map Prod.fst).Nodup := by
  change ["type".toList, "interface".toList, "member".toList, "sender".toList, "path".toList,
    "destination".toList, "data".toList].Nodup
  decide

theorem member?_wrapped {header : Header} {data value : Json} {key : Str}
    (inside : (key, value) ∈ headed header data) :
    (Json.ofAssignments (headed header data)).member? key = some value :=
  Json.member?_ofAssignments (headed_distinct header data) inside

end Message2Json

namespace SignalSocket

open DbusSerialization (stringOf)
open Message2Json (Env extractArguments wrapHeader)

variable {M : Type} [MessageReader M]

/-- The arguments of the signal as it is registered; a signal that is not is left alone. -/
def signalArgs (context : InterfaceContext) (header : Header) : Run (Option (List Argument)) :=
  let registered : Run (List Argument) := do
    let interfaceName ← stringOf header.interfaceName
    let memberName ← stringOf header.memberName
    let signal : Signal ← context.get interfaceName memberName
    return signal.args
  match registered with
  | .ok args => .ok (some args)
  | .error (.thrown exn) => if exn.cls = .invalidArgument then .ok none else .error (.thrown exn)
  | .error .outOfFuel => .error .outOfFuel

/-- The callback of a match up to the point where it looks for its connection. -/
def relayed (env : Env) (fuel : Nat) (context : InterfaceContext) (msg : BusMessage M) :
    Run (Option Json) := do
  match ← signalArgs context msg.header with
  | none => .ok none
  | some args => do
      let (data, _) ← extractArguments env fuel msg.body args
      let j ← wrapHeader msg.header data
      .ok (some j)

/-! ### What a subscriber can tell from a message -/

/-- A field of the header as it is read back: null where it is absent. -/
def readField (j : Json) (key : String) : Option (Option Str) :=
  match j.member? key.toList with
  | some .null => some none
  | some (.string value) => some (some value)
  | _ => none

def readHeader (j : Json) : Option Header := do
  let interfaceName ← readField j "interface"
  let memberName ← readField j "member"
  let sender ← readField j "sender"
  let path ← readField j "path"
  let destination ← readField j "destination"
  return ⟨interfaceName, memberName, sender, path, destination⟩

theorem readField_of_member {j : Json} {key : String} {field : Option Str}
    (found : j.member? key.toList = some (Message2Json.jsonNull field)) :
    readField j key = some field := by
  rw [readField, found]
  cases field <;> rfl

/-- The header survives, and so does what it was put before. -/
theorem readHeader_wrapped (header : Header) (data : Json) :
    readHeader (Json.ofAssignments (Message2Json.headed header data)) = some header ∧
      (Json.ofAssignments (Message2Json.headed header data)).member? "data".toList = some data := by
  have member := fun {key} {value} => @Message2Json.member?_wrapped header data value key
  refine ⟨?_, member (by simp [Message2Json.headed])⟩
  have field : ∀ {key : String} {value : Option Str},
      (key.toList, Message2Json.jsonNull value) ∈ Message2Json.headed header data →
      readField (Json.ofAssignments (Message2Json.headed header data)) key = some value :=
    fun inside => readField_of_member (member inside)
  have interfaceName : readField _ "interface" = some header.interfaceName :=
    field (by simp [Message2Json.headed])
  have memberName : readField _ "member" = some header.memberName := field (by simp [Message2Json.headed])
  have sender : readField _ "sender" = some header.sender := field (by simp [Message2Json.headed])
  have path : readField _ "path" = some header.path := field (by simp [Message2Json.headed])
  have destination : readField _ "destination" = some header.destination :=
    field (by simp [Message2Json.headed])
  rw [readHeader, interfaceName, memberName, sender, path, destination]
  rfl

/-- The arguments under the names their members have. -/
def renamed (args : List Argument) : List Argument :=
  (unnamedBefore 0 args).map fun p => { p.1 with name := nameOf p }

theorem renamed_params (args : List Argument) :
    (renamed args).map (fun arg => (arg.name, arg.type)) =
      (memberNames 0 args).zip (args.map Argument.type) := by
  have types : args.map Argument.type = (unnamedBefore 0 args).map fun p => p.1.type := by
    conv_lhs => rw [← unnamedBefore_fst 0 args, List.map_map]
    rfl
  rw [types, memberNames, List.zip_map', renamed, List.map_map]
  rfl

/-- An argument of a signal with the name of its member, its value, the JSON that is read of that
and what is filled from it. -/
structure SignalPart where
  member : Str
  arg : Argument
  carried : Carried

structure SignalPart.Good (env : Env) (p : SignalPart) : Prop where
  type : p.arg.type = p.carried.value.typeOf.text
  carried : p.carried.Good env

theorem exists_signalParts {env : Env} {args : List Argument} {carried : List Carried}
    (good : ∀ p ∈ carried, p.Good env)
    (types : args.map Argument.type = carried.map fun p => p.value.typeOf.text) :
    ∃ parts : List SignalPart, memberNames 0 args = parts.map SignalPart.member ∧
      args = parts.map SignalPart.arg ∧ carried = parts.map SignalPart.carried ∧
      ∀ p ∈ parts, p.Good env := by
  obtain ⟨pairs, fromArgs, fromCarried, each⟩ := exists_paired types
  have length : (memberNames 0 args).length = pairs.length := by
    rw [memberNames_length, fromArgs, List.length_map]
  refine ⟨((memberNames 0 args).zip pairs).map fun q => ⟨q.1, q.2.1, q.2.2⟩, ?_, ?_, ?_, ?_⟩
  · rw [List.map_map]
    exact (List.map_fst_zip (Nat.le_of_eq length)).symm
  · rw [List.map_map]
    change args = ((memberNames 0 args).zip pairs).map (Prod.fst ∘ Prod.snd)
    rw [← List.map_map, List.map_snd_zip (Nat.le_of_eq length.symm), ← fromArgs]
  · rw [List.map_map]
    change carried = ((memberNames 0 args).zip pairs).map (Prod.snd ∘ Prod.snd)
    rw [← List.map_map, List.map_snd_zip (Nat.le_of_eq length.symm), ← fromCarried]
  · intro p inside
    obtain ⟨q, member, rfl⟩ := List.mem_map.mp inside
    have pair : q.2 ∈ pairs := (List.of_mem_zip member).2
    refine ⟨each q.2 pair, good q.2.2 ?_⟩
    rw [fromCarried]
    exact List.mem_map_of_mem pair

section Parts

variable {env : Env} {args : List Argument} {parts : List SignalPart}

/-- The members of the data. -/
def dataOf (parts : List SignalPart) : Json :=
  Json.ofAssignments (parts.map fun p => (p.member, p.carried.json))

theorem extractArguments_signalParts (good : ∀ p ∈ parts, p.Good env)
    (names : memberNames 0 args = parts.map SignalPart.member) (fromArgs : args = parts.map SignalPart.arg)
    {M : Type} [LawfulReader M] {body : M}
    (holds : LawfulReader.cursor body = Cursor.start (parts.map fun p => p.carried.value)) :
    ∃ body', Settles (fun fuel => extractArguments env fuel body args) (.ok (dataOf parts, body')) := by
  let replies : List ReplyPart := parts.map fun p => ⟨p.arg, p.carried.value, p.carried.json⟩
  have readable : ∀ p ∈ replies, p.Readable env := by
    intro p inside
    obtain ⟨part, member, rfl⟩ := List.mem_map.mp inside
    exact ⟨(good part member).type, (good part member).carried.reads⟩
  have ahead : (LawfulReader.cursor body).top.rest = replies.map ReplyPart.value ++ [] := by
    rw [holds, List.append_nil, List.map_map]
    rfl
  obtain ⟨body', _, settles⟩ := extractArguments_settles readable (by rw [holds]; rfl) ahead
  have same : replies.map ReplyPart.arg = args := by
    rw [fromArgs, List.map_map]
    rfl
  have assigned : (memberNames 0 args).zip (replies.map ReplyPart.json) =
      parts.map fun p => (p.member, p.carried.json) := by
    rw [names, List.map_map, List.zip_map']
    rfl
  rw [same, assigned] at settles
  exact ⟨body', settles⟩

/-- The data fills the arguments under the names of its members. -/
theorem fillArguments_signalParts (good : ∀ p ∈ parts, p.Good env)
    (single : ∀ p ∈ parts, p.carried.value.typeOf.Single)
    (names : memberNames 0 args = parts.map SignalPart.member) (fromArgs : args = parts.map SignalPart.arg)
    (distinct : (memberNames 0 args).Nodup) {N : Type} [LawfulWriter N] {n : N}
    (empty : LawfulWriter.draft n = Draft.empty) :
    ∃ n', Json2Message.fillArguments n (renamed args) (dataOf parts) = .ok n' ∧
      LawfulWriter.draft n' = calling (parts.map fun p => p.carried.moved) := by
  have members : ∀ p ∈ parts, (dataOf parts).member? p.member = some p.carried.json := by
    intro p inside
    have assigned : (p.member, p.carried.json) ∈ parts.map fun p => (p.member, p.carried.json) :=
      List.mem_map_of_mem inside
    apply Json.member?_ofAssignments _ assigned
    rw [List.map_map]
    exact names ▸ distinct
  have params : (renamed args).map (fun arg => (arg.name, arg.type)) =
      parts.map fun p => (p.member, p.carried.value.typeOf.text) := by
    rw [renamed_params, names, fromArgs, List.map_map, List.zip_map']
    exact List.map_congr_left fun p inside => Prod.ext rfl (good p inside).type
  have fills := fun p inside => (good p inside).carried.filled
  refine Json2Message.fillArguments_named members fills (fun p inside => ?_) params empty
  rw [← (good p inside).carried.same.typeOf_eq]
  exact single p inside

end Parts

theorem signalArgs_known {context : InterfaceContext} {header : Header} {interfaceName memberName : Str}
    (onInterface : header.interfaceName = some interfaceName)
    (isMember : header.memberName = some memberName)
    {signal : Signal} (registered : context.get interfaceName memberName = .ok signal) :
    signalArgs context header = .ok (some signal.args) := by
  simp only [signalArgs, onInterface, isMember, stringOf, Cxx.bind_ok, registered]
  rfl

/-- From what is sent for a registered signal the whole signal can be told: its header, and its
values up to the order of dict entries. -/
theorem relayed_recoverable {M : Type} [LawfulReader M] {env : Env}
    (off : env.config.binarySupport = false) {context : InterfaceContext} {msg : BusMessage M}
    {interfaceName memberName : Str} (onInterface : msg.header.interfaceName = some interfaceName)
    (isMember : msg.header.memberName = some memberName) {signal : Signal}
    (registered : context.get interfaceName memberName = .ok signal)
    (distinct : (memberNames 0 signal.args).Nodup) {vs : List Value} (codable : ∀ v ∈ vs, Codable v)
    (types : signal.args.map Argument.type = vs.map fun v => v.typeOf.text)
    (holds : LawfulReader.cursor msg.body = Cursor.start vs) :
    ∃ j data ws, Settles (fun fuel => relayed env fuel context msg) (.ok (some j)) ∧
      readHeader j = some msg.header ∧ j.member? "data".toList = some data ∧
      List.Forall₂ Value.Reorder vs ws ∧
      ∀ (N : Type) [LawfulWriter N] (n : N), LawfulWriter.draft n = Draft.empty →
        ∃ n', Json2Message.fillArguments n (renamed signal.args) data = .ok n' ∧
          LawfulWriter.draft n' = calling ws := by
  obtain ⟨carried, rfl, goodEach⟩ :=
    ThereAndBack.exists_carried fun v inside => (codable v inside).thereAndBack off
  rw [List.map_map] at types
  obtain ⟨parts, names, fromArgs, rfl, good⟩ := exists_signalParts goodEach types
  rw [List.map_map] at holds codable ⊢
  obtain ⟨body', enough, extracts⟩ := extractArguments_signalParts good names fromArgs holds
  refine ⟨_, dataOf parts, parts.map fun p => p.carried.moved, ⟨enough, fun fuel le => ?_⟩,
    (readHeader_wrapped msg.header _).1, (readHeader_wrapped msg.header _).2, ?_, ?_⟩
  · have read : extractArguments env fuel msg.body signal.args = .ok (dataOf parts, body') :=
      extracts fuel le
    simp only [relayed, signalArgs_known onInterface isMember registered, Cxx.bind_ok, read,
      Message2Json.wrapHeader_eq]
  · rw [List.forall₂_map_left_iff, List.forall₂_map_right_iff, List.forall₂_same]
    exact fun p inside => (good p inside).carried.same
  · intro N _ n empty
    refine fillArguments_signalParts good (fun p inside => ?_) names fromArgs distinct empty
    exact (codable _ (List.mem_map_of_mem inside)).codec.single

/-- `signal_is` as it is registered. -/
def echoSignal : Signal where
  name := "signal_is".toList
  args := [{ name := "arg0".toList, type := "i".toList }, { name := "arg1".toList, type := "s".toList }]

def echoHeader : Header where
  interfaceName := some "com.test.InterfaceName".toList
  memberName := some "signal_is".toList
  sender := some ":1.7".toList
  path := some "/path/to/object".toList

def signalRegistry : InterfaceContext :=
  InterfaceContext.addInterface {}
    (Interface.add { name := "com.test.InterfaceName".toList } echoSignal)

def echoValues : List Value := [.int .int32 ⟨7, by decide⟩, .string (Dbus.zeroFree "on".toList)]

def echoMessage : BusMessage Cursor := ⟨echoHeader, Cursor.start echoValues⟩

theorem relayed_recoverable_is : ∃ j data ws,
    Settles (fun fuel => relayed Message2Json.bareEnv fuel signalRegistry echoMessage) (.ok (some j)) ∧
      readHeader j = some echoHeader ∧ j.member? "data".toList = some data ∧
      List.Forall₂ Value.Reorder echoValues ws ∧
      ∀ (N : Type) [LawfulWriter N] (n : N), LawfulWriter.draft n = Draft.empty →
        ∃ n', Json2Message.fillArguments n (renamed echoSignal.args) data = .ok n' ∧
          LawfulWriter.draft n' = calling ws := by
  have codable : ∀ v ∈ echoValues, Codable v := by
    intro v inside
    simp only [echoValues, List.mem_cons, List.not_mem_nil, or_false] at inside
    rcases inside with rfl | rfl
    · exact .basic rfl (b := .int .int32) trivial
    · exact .basic rfl (b := .string) trivial
  exact relayed_recoverable rfl rfl rfl rfl (by decide) codable (by decide) rfl

end SignalSocket

end Dbus2Http
