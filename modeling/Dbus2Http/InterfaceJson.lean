import Dbus2Http.Entities
import Dbus2Http.JsonValue

set_option autoImplicit false

namespace Dbus2Http

open Cxx (Str Run throwExn)

/-- The types with a JSON form. Reading one writes over a value that is already there. -/
class JsonForm (T : Type) where
  /-- What the default constructor makes. -/
  fresh : T
  toJson : T → Json
  fromJson : Json → T → Run T

open JsonForm

section Members

variable {T : Type} [JsonForm T]

/-- `j.at(key).get_to(old)`. -/
def readMember (j : Json) (key : Str) (old : T) : Run T := do
  let value ← j.memberAt key
  fromJson value old

/-- `if (j.contains(key)) j.at(key).get_to(old)`. -/
def readMemberIfAny (j : Json) (key : Str) (old : T) : Run T :=
  if j.contains key then readMember j key old else .ok old

/-- `if (keep) j[key] = value`. -/
def writeMemberIf (keep : Bool) (key : Str) (value : T) : List (Str × Json) :=
  if keep then [(key, toJson value)] else []

end Members

/-! ### Strings, flags and enumerations -/

instance : JsonForm Bool where
  fresh := false
  toJson b := .bool b
  fromJson j _ :=
    match j with
    | .bool b => .ok b
    | other => throwExn .jsonTypeError ("type must be boolean, but is ".toList ++ other.typeName)

instance : JsonForm Str where
  fresh := []
  toJson s := .string s
  fromJson j _ := j.getString

namespace EmitsChangedSignal

def names : List (EmitsChangedSignal × Str) :=
  [(.true, "true".toList), (.false, "false".toList), (.invalidates, "invalidates".toList),
    (.const, "const".toList)]

end EmitsChangedSignal

/-- What the table does not have is read as, and written for, its first entry. -/
instance : JsonForm EmitsChangedSignal where
  fresh := .true
  toJson e :=
    .string ((EmitsChangedSignal.names.find? (·.1 = e)).getD (.true, "true".toList)).2
  fromJson j _ :=
    match j with
    | .string s =>
        .ok ((EmitsChangedSignal.names.find? (·.2 = s)).getD (.true, "true".toList)).1
    | _ => .ok .true

/-- A flag is written only when it differs from its default. -/
def Flags.written (flags : Flags) : List (Str × Json) :=
  writeMemberIf flags.deprecated "deprecated".toList flags.deprecated ++
    (writeMemberIf flags.methodNoReply "method_no_reply".toList flags.methodNoReply ++
    (writeMemberIf flags.privileged "privileged".toList flags.privileged ++
    (writeMemberIf (flags.emitsChangedSignal ≠ .true) "emits_changed_signal".toList
      flags.emitsChangedSignal ++
    writeMemberIf (flags.cSymbol ≠ []) "c_symbol".toList flags.cSymbol)))

def Flags.fromJson (j : Json) (flags : Flags) : Run Flags := do
  let deprecated ← readMemberIfAny j "deprecated".toList flags.deprecated
  let methodNoReply ← readMemberIfAny j "method_no_reply".toList flags.methodNoReply
  let privileged ← readMemberIfAny j "privileged".toList flags.privileged
  let emitsChangedSignal ← readMemberIfAny j "emits_changed_signal".toList flags.emitsChangedSignal
  let cSymbol ← readMemberIfAny j "c_symbol".toList flags.cSymbol
  .ok { deprecated, methodNoReply, privileged, emitsChangedSignal, cSymbol }

instance : JsonForm Flags where
  fresh := {}
  toJson flags := Json.ofAssignments flags.written
  fromJson := Flags.fromJson

/-! ### Containers -/

section Containers

variable {T : Type} [JsonForm T]

instance : JsonForm (List T) where
  fresh := []
  toJson xs := .array (xs.map toJson)
  fromJson j _ :=
    match j with
    | .array items => items.mapM fun item => fromJson item fresh
    | other => throwExn .jsonTypeError ("type must be array, but is ".toList ++ other.typeName)

def readEntry (m : OrderedMap Str T) (member : Str × Json) : Run (OrderedMap Str T) := do
  let value ← fromJson member.2 fresh
  .ok (m.insert member.1 value)

instance : JsonForm (OrderedMap Str T) where
  fresh := .empty
  toJson m := .object (m.entries.map fun entry => (entry.1, toJson entry.2))
  fromJson j _ :=
    match j with
    | .object members => members.foldlM readEntry .empty
    | other => throwExn .jsonTypeError ("type must be object, but is ".toList ++ other.typeName)

end Containers

/-! ### Entities -/

def Argument.members (arg : Argument) : List (Str × Json) :=
  [("name".toList, toJson arg.name), ("type".toList, toJson arg.type),
    ("direction".toList, toJson arg.direction), ("flags".toList, toJson arg.flags)]

def Argument.fromJson (j : Json) (arg : Argument) : Run Argument := do
  let name ← readMember j "name".toList arg.name
  let type ← readMember j "type".toList arg.type
  let direction ← readMember j "direction".toList arg.direction
  let flags ← readMember j "flags".toList arg.flags
  .ok { name, type, direction, flags }

instance : JsonForm Argument where
  fresh := {}
  toJson arg := Json.ofAssignments arg.members
  fromJson := Argument.fromJson

def Method.members (method : Method) : List (Str × Json) :=
  [("name".toList, toJson method.name), ("args".toList, toJson method.args),
    ("flags".toList, toJson method.flags)]

def Method.fromJson (j : Json) (method : Method) : Run Method := do
  let name ← readMember j "name".toList method.name
  let args ← readMember j "args".toList method.args
  let flags ← readMember j "flags".toList method.flags
  .ok { name, args, flags }

instance : JsonForm Method where
  fresh := {}
  toJson method := Json.ofAssignments method.members
  fromJson := Method.fromJson

def Signal.members (signal : Signal) : List (Str × Json) :=
  [("name".toList, toJson signal.name), ("args".toList, toJson signal.args),
    ("flags".toList, toJson signal.flags)]

def Signal.fromJson (j : Json) (signal : Signal) : Run Signal := do
  let name ← readMember j "name".toList signal.name
  let args ← readMember j "args".toList signal.args
  let flags ← readMember j "flags".toList signal.flags
  .ok { name, args, flags }

instance : JsonForm Signal where
  fresh := {}
  toJson signal := Json.ofAssignments signal.members
  fromJson := Signal.fromJson

def Property.members (property : Property) : List (Str × Json) :=
  [("name".toList, toJson property.name), ("type".toList, toJson property.type),
    ("access".toList, toJson property.access), ("flags".toList, toJson property.flags)]

def Property.fromJson (j : Json) (property : Property) : Run Property := do
  let name ← readMember j "name".toList property.name
  let type ← readMember j "type".toList property.type
  let access ← readMember j "access".toList property.access
  let flags ← readMember j "flags".toList property.flags
  .ok { name, type, access, flags }

instance : JsonForm Property where
  fresh := {}
  toJson property := Json.ofAssignments property.members
  fromJson := Property.fromJson

def Interface.members (interface : Interface) : List (Str × Json) :=
  [("name".toList, toJson interface.name), ("methods".toList, toJson interface.methods),
    ("signals".toList, toJson interface.signals),
    ("properties".toList, toJson interface.properties), ("flags".toList, toJson interface.flags)]

def Interface.fromJson (j : Json) (interface : Interface) : Run Interface := do
  let name ← readMember j "name".toList interface.name
  let methods ← readMember j "methods".toList interface.methods
  let signals ← readMember j "signals".toList interface.signals
  let properties ← readMember j "properties".toList interface.properties
  let flags ← readMember j "flags".toList interface.flags
  .ok { name, methods, signals, properties, flags }

instance : JsonForm Interface where
  fresh := {}
  toJson interface := Json.ofAssignments interface.members
  fromJson := Interface.fromJson

/-! ### Reading back -/

/-- What is written reads back as it was, over a fresh value. -/
def ReadsBack {T : Type} [JsonForm T] (x : T) : Prop := fromJson (toJson x) fresh = .ok x

section Members

variable {T : Type} [JsonForm T]

theorem readMember_of_member? {j : Json} {key : Str} {x : T}
    (there : j.member? key = some (toJson x)) (back : ReadsBack x) :
    readMember j key fresh = .ok x := by
  rw [readMember, Json.memberAt_of_member? there, Cxx.bind_ok]
  exact back

/-- A member is read back when it is left out only with a fresh value. -/
theorem readMemberIfAny_back {j : Json} {key : Str} {x : T} {keep : Bool}
    (there : j.member? key = if keep then some (toJson x) else none)
    (omitted : keep = false → x = fresh) (back : ReadsBack x) :
    readMemberIfAny j key fresh = .ok x := by
  cases keep with
  | true =>
      have held : j.member? key = some (toJson x) := by simpa using there
      have contained : j.contains key = true := by simp [Json.contains, held]
      rw [readMemberIfAny, if_pos contained]
      exact readMember_of_member? held back
  | false =>
      have missing : j.contains key = false := by simp [Json.contains, there]
      rw [readMemberIfAny, missing, omitted rfl]
      rfl

theorem readMember_back {members : List (Str × Json)} (distinct : (members.map Prod.fst).Nodup)
    {key : Str} {x : T} (inside : (key, toJson x) ∈ members) (back : ReadsBack x) :
    readMember (Json.ofAssignments members) key fresh = .ok x :=
  readMember_of_member? (Json.member?_ofAssignments distinct inside) back

theorem lookup_writeMemberIf (keep : Bool) (key wanted : Str) (value : T) :
    (writeMemberIf keep key value).lookup wanted =
      if keep && wanted == key then some (toJson value) else none := by
  cases keep with
  | false => rfl
  | true =>
      by_cases same : wanted = key
      · simp [writeMemberIf, same]
      · simp [writeMemberIf, List.lookup_cons, beq_eq_false_iff_ne.mpr same]

theorem keys_writeMemberIf (keep : Bool) (key : Str) (value : T) :
    ((writeMemberIf keep key value).map Prod.fst).Sublist [key] := by
  cases keep <;> simp [writeMemberIf]

theorem writeMemberIf_eq_nil (keep : Bool) (key : Str) (value : T) :
    writeMemberIf keep key value = [] ↔ keep = false := by
  cases keep <;> simp [writeMemberIf]

end Members

theorem bool_back (b : Bool) : ReadsBack b := rfl

theorem str_back (s : Str) : ReadsBack s := rfl

/-- No two entries of the table share a name. -/
theorem emitsChangedSignal_back (e : EmitsChangedSignal) : ReadsBack e := by
  cases e <;> rfl

section Flags

variable (flags : Flags)

theorem Flags.written_distinct : (flags.written.map Prod.fst).Nodup := by
  have keys : (flags.written.map Prod.fst).Sublist
      (["deprecated".toList] ++ (["method_no_reply".toList] ++ (["privileged".toList] ++
        (["emits_changed_signal".toList] ++ ["c_symbol".toList])))) := by
    simp only [Flags.written, List.map_append]
    exact (keys_writeMemberIf _ _ _).append <| (keys_writeMemberIf _ _ _).append <|
      (keys_writeMemberIf _ _ _).append <| (keys_writeMemberIf _ _ _).append <|
      keys_writeMemberIf _ _ _
  exact keys.nodup (by decide)

theorem Flags.member?_toJson (key : Str) : (toJson flags).member? key = flags.written.lookup key :=
  Json.member?_ofAssignments_eq flags.written_distinct key

/-- When every flag has its default nothing is written. -/
theorem Flags.toJson_eq_null_iff : toJson flags = .null ↔ flags = {} := by
  have written : toJson flags = .null ↔ flags.written = [] := Json.ofAssignments_eq_null_iff _
  rw [written]
  cases flags
  simp [Flags.written, writeMemberIf_eq_nil]

theorem Flags.readMemberIfAny_back {T : Type} [JsonForm T] {key : Str} {x : T} {keep : Bool}
    (there : flags.written.lookup key = if keep then some (toJson x) else none)
    (omitted : keep = false → x = fresh) (back : ReadsBack x) :
    readMemberIfAny (toJson flags) key fresh = .ok x := by
  rw [← Flags.member?_toJson] at there
  exact Dbus2Http.readMemberIfAny_back there omitted back

theorem flags_back : ReadsBack flags := by
  have deprecated : readMemberIfAny (toJson flags) "deprecated".toList false =
      .ok flags.deprecated := by
    apply flags.readMemberIfAny_back _ id (bool_back _)
    simp [Flags.written, List.lookup_append, lookup_writeMemberIf]
  have methodNoReply : readMemberIfAny (toJson flags) "method_no_reply".toList false =
      .ok flags.methodNoReply := by
    apply flags.readMemberIfAny_back _ id (bool_back _)
    simp [Flags.written, List.lookup_append, lookup_writeMemberIf]
  have privileged : readMemberIfAny (toJson flags) "privileged".toList false =
      .ok flags.privileged := by
    apply flags.readMemberIfAny_back _ id (bool_back _)
    simp [Flags.written, List.lookup_append, lookup_writeMemberIf]
  have emitsChangedSignal : readMemberIfAny (toJson flags) "emits_changed_signal".toList
      EmitsChangedSignal.true = .ok flags.emitsChangedSignal := by
    have there : flags.written.lookup "emits_changed_signal".toList =
        if decide (flags.emitsChangedSignal ≠ .true) then some (toJson flags.emitsChangedSignal)
        else none := by
      simp [Flags.written, List.lookup_append, lookup_writeMemberIf]
    apply flags.readMemberIfAny_back there _ (emitsChangedSignal_back _)
    intro default
    exact of_not_not (of_decide_eq_false default)
  have cSymbol : readMemberIfAny (toJson flags) "c_symbol".toList ([] : Str) = .ok flags.cSymbol := by
    have there : flags.written.lookup "c_symbol".toList =
        if decide (flags.cSymbol ≠ []) then some (toJson flags.cSymbol) else none := by
      simp [Flags.written, List.lookup_append, lookup_writeMemberIf]
    apply flags.readMemberIfAny_back there _ (str_back _)
    intro default
    exact of_not_not (of_decide_eq_false default)
  show Flags.fromJson (toJson flags) {} = .ok flags
  rw [Flags.fromJson, deprecated, Cxx.bind_ok, methodNoReply, Cxx.bind_ok, privileged, Cxx.bind_ok,
    emitsChangedSignal, Cxx.bind_ok, cSymbol, Cxx.bind_ok]

end Flags

section Containers

variable {T : Type} [JsonForm T]

theorem list_back (each : ∀ x : T, ReadsBack x) (xs : List T) : ReadsBack xs := by
  show (xs.map toJson).mapM (fun item => fromJson item (fresh : T)) = .ok xs
  induction xs with
  | nil => rfl
  | cons x xs ih =>
      have first : fromJson (toJson x) fresh = .ok x := each x
      rw [List.map_cons, List.mapM_cons, first, Cxx.bind_ok, ih]
      rfl

/-- The members of an object come in the order of the map, so that each is appended. -/
theorem readEntries_back (each : ∀ x : T, ReadsBack x) (entries : List (Str × T))
    (m : OrderedMap Str T) :
    (entries.map fun entry => (entry.1, toJson entry.2)).foldlM readEntry m =
      .ok (entries.foldl (fun m entry => m.insert entry.1 entry.2) m) := by
  induction entries generalizing m with
  | nil => rfl
  | cons entry entries ih =>
      have first : fromJson (toJson entry.2) fresh = .ok entry.2 := each entry.2
      have round : readEntry m (entry.1, toJson entry.2) = .ok (m.insert entry.1 entry.2) := by
        rw [readEntry, first, Cxx.bind_ok]
      rw [List.map_cons, List.foldlM_cons, round, Cxx.bind_ok, ih, List.foldl_cons]

theorem map_back (each : ∀ x : T, ReadsBack x) (m : OrderedMap Str T) : ReadsBack m := by
  show (m.entries.map fun entry => (entry.1, toJson entry.2)).foldlM readEntry .empty = .ok m
  rw [readEntries_back each, OrderedMap.foldl_insert_entries]

end Containers

/-! ### Every entity reads back -/

theorem argument_back (arg : Argument) : ReadsBack arg := by
  have distinct : (arg.members.map Prod.fst).Nodup := by
    show ["name".toList, "type".toList, "direction".toList, "flags".toList].Nodup
    decide
  have name : readMember (toJson arg) "name".toList ([] : Str) = .ok arg.name :=
    readMember_back distinct (by simp [Argument.members]) (str_back _)
  have type : readMember (toJson arg) "type".toList ([] : Str) = .ok arg.type :=
    readMember_back distinct (by simp [Argument.members]) (str_back _)
  have direction : readMember (toJson arg) "direction".toList ([] : Str) = .ok arg.direction :=
    readMember_back distinct (by simp [Argument.members]) (str_back _)
  have flags : readMember (toJson arg) "flags".toList ({} : Flags) = .ok arg.flags :=
    readMember_back distinct (by simp [Argument.members]) (flags_back _)
  show Argument.fromJson (toJson arg) {} = .ok arg
  rw [Argument.fromJson, name, Cxx.bind_ok, type, Cxx.bind_ok, direction, Cxx.bind_ok, flags,
    Cxx.bind_ok]

theorem method_back (method : Method) : ReadsBack method := by
  have distinct : (method.members.map Prod.fst).Nodup := by
    show ["name".toList, "args".toList, "flags".toList].Nodup
    decide
  have name : readMember (toJson method) "name".toList ([] : Str) = .ok method.name :=
    readMember_back distinct (by simp [Method.members]) (str_back _)
  have args : readMember (toJson method) "args".toList ([] : List Argument) = .ok method.args :=
    readMember_back distinct (by simp [Method.members]) (list_back argument_back _)
  have flags : readMember (toJson method) "flags".toList ({} : Flags) = .ok method.flags :=
    readMember_back distinct (by simp [Method.members]) (flags_back _)
  show Method.fromJson (toJson method) {} = .ok method
  rw [Method.fromJson, name, Cxx.bind_ok, args, Cxx.bind_ok, flags, Cxx.bind_ok]

theorem signal_back (signal : Signal) : ReadsBack signal := by
  have distinct : (signal.members.map Prod.fst).Nodup := by
    show ["name".toList, "args".toList, "flags".toList].Nodup
    decide
  have name : readMember (toJson signal) "name".toList ([] : Str) = .ok signal.name :=
    readMember_back distinct (by simp [Signal.members]) (str_back _)
  have args : readMember (toJson signal) "args".toList ([] : List Argument) = .ok signal.args :=
    readMember_back distinct (by simp [Signal.members]) (list_back argument_back _)
  have flags : readMember (toJson signal) "flags".toList ({} : Flags) = .ok signal.flags :=
    readMember_back distinct (by simp [Signal.members]) (flags_back _)
  show Signal.fromJson (toJson signal) {} = .ok signal
  rw [Signal.fromJson, name, Cxx.bind_ok, args, Cxx.bind_ok, flags, Cxx.bind_ok]

theorem property_back (property : Property) : ReadsBack property := by
  have distinct : (property.members.map Prod.fst).Nodup := by
    show ["name".toList, "type".toList, "access".toList, "flags".toList].Nodup
    decide
  have name : readMember (toJson property) "name".toList ([] : Str) = .ok property.name :=
    readMember_back distinct (by simp [Property.members]) (str_back _)
  have type : readMember (toJson property) "type".toList ([] : Str) = .ok property.type :=
    readMember_back distinct (by simp [Property.members]) (str_back _)
  have access : readMember (toJson property) "access".toList ([] : Str) = .ok property.access :=
    readMember_back distinct (by simp [Property.members]) (str_back _)
  have flags : readMember (toJson property) "flags".toList ({} : Flags) = .ok property.flags :=
    readMember_back distinct (by simp [Property.members]) (flags_back _)
  show Property.fromJson (toJson property) {} = .ok property
  rw [Property.fromJson, name, Cxx.bind_ok, type, Cxx.bind_ok, access, Cxx.bind_ok, flags,
    Cxx.bind_ok]

/-- An interface survives its JSON form, and flags are written as nothing exactly when each has
its default. -/
theorem Interface.fromJson_toJson (interface : Interface) :
    fromJson (toJson interface) ({} : Interface) = .ok interface ∧
      ∀ flags : Flags, toJson flags = .null ↔ flags = {} := by
  have distinct : (interface.members.map Prod.fst).Nodup := by
    show ["name".toList, "methods".toList, "signals".toList, "properties".toList,
      "flags".toList].Nodup
    decide
  have name : readMember (toJson interface) "name".toList ([] : Str) = .ok interface.name :=
    readMember_back distinct (by simp [Interface.members]) (str_back _)
  have methods : readMember (toJson interface) "methods".toList (.empty : OrderedMap Str Method) =
      .ok interface.methods :=
    readMember_back distinct (by simp [Interface.members]) (map_back method_back _)
  have signals : readMember (toJson interface) "signals".toList (.empty : OrderedMap Str Signal) =
      .ok interface.signals :=
    readMember_back distinct (by simp [Interface.members]) (map_back signal_back _)
  have properties : readMember (toJson interface) "properties".toList
      (.empty : OrderedMap Str Property) = .ok interface.properties :=
    readMember_back distinct (by simp [Interface.members]) (map_back property_back _)
  have flags : readMember (toJson interface) "flags".toList ({} : Flags) = .ok interface.flags :=
    readMember_back distinct (by simp [Interface.members]) (flags_back _)
  refine ⟨?_, Flags.toJson_eq_null_iff⟩
  show Interface.fromJson (toJson interface) {} = .ok interface
  rw [Interface.fromJson, name, Cxx.bind_ok, methods, Cxx.bind_ok, signals, Cxx.bind_ok,
    properties, Cxx.bind_ok, flags, Cxx.bind_ok]

end Dbus2Http
