import Dbus2Http.ArgumentNames
import Dbus2Http.BinaryContent
import Dbus2Http.CallHandler
import Dbus2Http.NamedParts

set_option autoImplicit false

namespace Dbus2Http

open Cxx (Str Run Settles)
open Dbus (Basic Ty Value Cursor Draft LawfulReader LawfulWriter)
open DbusCaller (Sent Connection prepare)
open Message2Json (Env containsBinaries extractArguments)
open WebService (RequestPath Server JsonText Response postCall parseDbusRequestPath)

/-! ### The service that echoes -/

/-- What `AddMethod` registers of a method. -/
structure MethodVTableItem where
  name : Str
  inputSignature : Str
  outputSignature : Str
  inputParamNames : List Str
  outputParamNames : List Str
deriving DecidableEq

namespace EchoService

def kEchoServiceName : Str := "com.test.ServiceName".toList

def kEchoInterfaceName : Str := "com.test.InterfaceName".toList

def kEchoObjectPath : Str := "/path/to/object".toList

def addMethod (methodName signatureInOut : String) (paramNames : List String) : MethodVTableItem where
  name := methodName.toList
  inputSignature := signatureInOut.toList
  outputSignature := signatureInOut.toList
  inputParamNames := paramNames.map String.toList
  outputParamNames := paramNames.map String.toList

/-- The calls of `AddMethod`, in their order. -/
def methods : List MethodVTableItem :=
  [addMethod "method_b" "b" ["arg0"], addMethod "method_y" "y" ["arg0"],
    addMethod "method_n" "n" ["arg0"], addMethod "method_q" "q" ["arg0"],
    addMethod "method_i" "i" ["arg0"], addMethod "method_u" "u" ["arg0"],
    addMethod "method_x" "x" ["arg0"], addMethod "method_t" "t" ["arg0"],
    addMethod "method_d" "d" ["arg0"], addMethod "method_s" "s" ["arg0"],
    addMethod "method_SisS" "(is)" ["arg0"],
    addMethod "method_Sbynqiuxtds" "(bynqiuxtds)" ["arg0"],
    addMethod "method_ai" "ai" ["arg0"], addMethod "method_aSisS" "a(is)" ["arg0"],
    addMethod "method_aSbynqiuxtdsS" "a(bynqiuxtds)" ["arg0"],
    addMethod "method_aDssD" "a{ss}" ["arg0"], addMethod "method_aDiiD" "a{ii}" ["arg0"],
    addMethod "method_isaDsiD" "isa{si}" ["arg0", "arg1", "arg2"],
    addMethod "method_iaDiSssaSiiaDssDSSD" "ia{i(ssa(iia{ss}))}" ["arg0", "arg1"],
    addMethod "method_v" "v" ["arg0"], addMethod "method_iv" "iv" ["arg0", "arg1"],
    addMethod "method_aDsvD" "a{sv}" ["arg0"]]

/-- The callback of every method: the reply takes over whatever the call holds. -/
def callbackHandler (methodCall : List Value) : List Value := methodCall

end EchoService

/-- A parameter of a method: its name and its type. -/
abbrev Param := Str × Ty

/-- The parameters an item declares, each under a name of its own and of a type that both
directions agree on. -/
structure MethodVTableItem.Declares (item : MethodVTableItem) (params : List Param) : Prop where
  inNames : item.inputParamNames = params.map Prod.fst
  outNames : item.outputParamNames = params.map Prod.fst
  inTypes : item.inputSignature = Ty.texts (params.map Prod.snd)
  outTypes : item.outputSignature = Ty.texts (params.map Prod.snd)
  named : ∀ p ∈ params, p.1 ≠ []
  distinct : (params.map Prod.fst).Nodup
  codec : ∀ p ∈ params, Codec p.2

/-- Whether a type, or an array of it, is one that both directions agree on. -/
def carried (element : Bool) : Ty → Bool
  | .basic .bool | .basic (.int _) | .basic .double | .basic .string => true
  | .basic _ => false
  | .variant => !element
  | .array elem => !element && carried true elem
  | .struct fields => !fields.isEmpty && allCarried fields
  | .entry key value => element && isKey key && carried false value
where
  isKey : Ty → Bool
    | .basic .string | .basic (.int _) => true
    | _ => false
  allCarried : List Ty → Bool
    | [] => true
    | field :: rest => carried false field && allCarried rest

theorem carried.allCarried_iff (fields : List Ty) :
    carried.allCarried fields = true ↔ ∀ field ∈ fields, carried false field = true := by
  induction fields with
  | nil => simp [carried.allCarried]
  | cons field rest ih => simp [carried.allCarried, ih]

theorem carried.isKey_iff (key : Ty) : carried.isKey key = true ↔ ∃ b, key = .basic b ∧ KeyCode b := by
  constructor
  · intro named
    cases key with
    | basic b =>
        cases b with
        | string => exact ⟨_, rfl, .inl rfl⟩
        | int t => exact ⟨_, rfl, .inr ⟨t, rfl⟩⟩
        | _ => simp [carried.isKey] at named
    | _ => simp [carried.isKey] at named
  · rintro ⟨b, rfl, rfl | ⟨t, rfl⟩⟩
    · rfl
    · rfl

theorem carried_basic (element : Bool) (b : Basic) :
    carried element (.basic b) = true ↔ Message2Json.Scalar b := by
  cases b <;> simp [carried, Message2Json.Scalar]

theorem carried_iff (t : Ty) :
    (carried false t = true ↔ Codec t) ∧ (carried true t = true ↔ Codec (.array t)) := by
  induction t using Ty.induction with
  | basic b =>
      rw [carried_basic, carried_basic]
      refine ⟨⟨.basic, ?_⟩, ⟨.scalars, ?_⟩⟩
      · rintro ⟨scalar⟩
        assumption
      · rintro ⟨⟩
        assumption
  | variant =>
      refine ⟨⟨fun _ => .variant, fun _ => rfl⟩, ⟨fun absent => by simp [carried] at absent, ?_⟩⟩
      rintro ⟨⟩
  | array elem ih =>
      refine ⟨?_, ⟨fun absent => by simp [carried] at absent, ?_⟩⟩
      · simpa [carried] using ih.2
      · rintro ⟨⟩
  | struct fields ih =>
      have each : (carried.allCarried fields = true ↔ ∀ field ∈ fields, Codec field) := by
        rw [carried.allCarried_iff]
        exact forall₂_congr fun field inside => (ih field inside).1
      have whole : (¬ fields = [] ∧ ∀ field ∈ fields, Codec field) ↔ Codec (.struct fields) := by
        refine ⟨fun both => .struct both.1 both.2, ?_⟩
        rintro ⟨⟩
        exact ⟨‹_›, ‹_›⟩
      refine ⟨by simpa [carried, each] using whole, ?_⟩
      have elements : Codec (.array (.struct fields)) ↔ Codec (.struct fields) := by
        refine ⟨?_, .structs⟩
        rintro ⟨⟩
        assumption
      rw [elements]
      simpa [carried, each] using whole
  | entry key value _ ih =>
      refine ⟨⟨fun absent => by simp [carried] at absent, ?_⟩, ?_⟩
      · rintro ⟨⟩
      · have entries : Codec (.array (.entry key value)) ↔
            (∃ b, key = .basic b ∧ KeyCode b) ∧ Codec value := by
          constructor
          · rintro ⟨⟩
            exact ⟨⟨_, rfl, ‹_›⟩, ‹_›⟩
          · rintro ⟨⟨b, rfl, named⟩, codec⟩
            exact .dict named codec
        rw [entries, ← carried.isKey_iff, ← ih.1]
        simp [carried]

instance (t : Ty) : Decidable (Codec t) := decidable_of_iff _ (carried_iff t).1

instance (item : MethodVTableItem) (params : List Param) : Decidable (item.Declares params) :=
  decidable_of_iff
    ((item.inputParamNames = params.map Prod.fst ∧ item.outputParamNames = params.map Prod.fst) ∧
      (item.inputSignature = Ty.texts (params.map Prod.snd) ∧
        item.outputSignature = Ty.texts (params.map Prod.snd)) ∧
      (∀ p ∈ params, p.1 ≠ []) ∧ (params.map Prod.fst).Nodup ∧ ∀ p ∈ params, Codec p.2)
    ⟨fun all => ⟨all.1.1, all.1.2, all.2.1.1, all.2.1.2, all.2.2.1, all.2.2.2.1, all.2.2.2.2⟩,
      fun all => ⟨⟨all.inNames, all.outNames⟩, ⟨all.inTypes, all.outTypes⟩, all.named, all.distinct,
        all.codec⟩⟩

/-- The parameters of an item, by its names and its signature. -/
def MethodVTableItem.params (item : MethodVTableItem) : List Param :=
  match Ty.ofText? false ('(' :: (item.inputSignature ++ [')'])) with
  | some (.struct fields) => item.inputParamNames.zip fields
  | _ => []

/-- Every method of the echo service is of that kind. -/
theorem EchoService.methods_declare : ∀ item ∈ methods, item.Declares item.params := by
  decide

/-- What the library publishes of an item and the registry holds: an argument for each name and
each complete type, in their order. -/
def Lists (args : List Argument) (names : List Str) (signature : Str) : Prop :=
  ∃ types : List Ty, signature = Ty.texts types ∧ names.length = types.length ∧
    args.map (fun arg => (arg.name, arg.type)) = names.zip (types.map Ty.text)

structure Published (item : MethodVTableItem) (method : Method) : Prop where
  inputs : Lists method.inArgs item.inputParamNames item.inputSignature
  outputs : Lists method.outArgs item.outputParamNames item.outputSignature

/-- The bus takes calls of one method to the echoing service and brings back its replies. -/
structure Echoes {M R : Type} [LawfulWriter M] [LawfulReader R] (connection : Connection M R)
    (parts : RequestPath) : Prop where
  created : ∃ message, LawfulWriter.draft message = Draft.empty ∧
    connection.createMethodCall parts.serviceName parts.objectPath parts.interfaceName
      parts.method = .ok message
  replied : ∀ (sent : List (Sent M)) (message : M),
    (LawfulWriter.draft message).below = [] →
    ∃ reply, connection.callMethod (sent ++ [⟨parts.serviceName, parts.objectPath,
        parts.interfaceName, parts.method, message⟩]) = .ok reply ∧
      LawfulReader.cursor reply =
        Cursor.start (EchoService.callbackHandler (LawfulWriter.draft message).top.items)

/-! ### The arguments for the parameters -/

theorem Lists.params {args : List Argument} {names : List Str} {signature : Str}
    (lists : Lists args names signature) {params : List Param} (sameNames : names = params.map Prod.fst)
    (sameTypes : signature = Ty.texts (params.map Prod.snd)) :
    args.map (fun arg => (arg.name, arg.type)) = params.map fun p => (p.1, p.2.text) := by
  obtain ⟨types, text, _, each⟩ := lists
  have types_eq : types = params.map Prod.snd := Ty.texts_injective (text.symm.trans sameTypes)
  rw [each, sameNames, types_eq, List.map_map, List.zip_map']
  rfl

/-! ### The members for the parameters -/

/-- What a request has under some names, as an object of its own. -/
def restricted (request : Json) (names : List Str) : Json :=
  Json.ofAssignments (names.filterMap fun name => (request.member? name).map fun value => (name, value))

/-- The request has a conforming member for each parameter. -/
def Conforming (request : Json) (params : List Param) : Prop :=
  ∀ p ∈ params, ∃ json, request.member? p.1 = some json ∧ Conforms p.2 json

theorem restricted_of_members {ω : Type} {request : Json} {parts : List ω} {name : ω → Str}
    {json : ω → Json} (members : ∀ p ∈ parts, request.member? (name p) = some (json p)) :
    restricted request (parts.map name) = Json.ofAssignments (parts.map fun p => (name p, json p)) := by
  rw [restricted, List.filterMap_map]
  congr 1
  induction parts with
  | nil => rfl
  | cons p parts ih =>
      have here := members p List.mem_cons_self
      rw [List.filterMap_cons, List.map_cons, ih fun q inside => members q (List.mem_cons_of_mem _ inside)]
      simp only [Function.comp_apply, here, Option.map_some]

theorem insertEntry_map {κ α β : Type} [LinearOrder κ] (f : α → β) (key : κ) (value : α)
    (entries : List (κ × α)) :
    (OrderedMap.insertEntry key value entries).map (fun e => (e.1, f e.2)) =
      OrderedMap.insertEntry key (f value) (entries.map fun e => (e.1, f e.2)) := by
  induction entries with
  | nil => rfl
  | cons head rest ih =>
      simp only [OrderedMap.insertEntry, List.map_cons]
      split
      · rfl
      · split
        · rfl
        · rw [List.map_cons, ih]

theorem canon_ofAssignments (members : List (Str × Json)) :
    (Json.ofAssignments members).canon =
      Json.ofAssignments (members.map fun member => (member.1, member.2.canon)) := by
  have inserted : ∀ (assignments entries : List (Str × Json)),
      (OrderedMap.insertAll assignments entries).map (fun e => (e.1, e.2.canon)) =
        OrderedMap.insertAll (assignments.map fun e => (e.1, e.2.canon))
          (entries.map fun e => (e.1, e.2.canon)) := by
    intro assignments
    induction assignments with
    | nil => exact fun _ => rfl
    | cons first rest ih =>
        intro entries
        rw [List.map_cons, OrderedMap.insertAll_cons, OrderedMap.insertAll_cons, ih, insertEntry_map]
  cases members with
  | nil => rfl
  | cons first rest =>
      change (Json.object (OrderedMap.insertAll (first :: rest) [])).canon = _
      rw [Json.canon_object, inserted]
      rfl

/-- An object that has the names and no others is all that is left of it. -/
theorem restricted_of_perm {members : List (Str × Json)} {names : List Str}
    (ascending : OrderedMap.Ascending members) (some : names ≠ [])
    (same : (members.map Prod.fst).Perm names) : restricted (.object members) names = .object members := by
  have found : ∀ m ∈ members, (Json.object members).member? m.1 = Option.some m.2 := fun m inside =>
    OrderedMap.lookup_eq_some_of_mem ascending inside
  have each : (names.filterMap fun name =>
      ((Json.object members).member? name).map fun value => (name, value)).Perm members := by
    refine (same.symm.filterMap _).trans ?_
    rw [List.filterMap_map]
    have itself : members.filterMap ((fun name =>
        ((Json.object members).member? name).map fun value => (name, value)) ∘ Prod.fst) =
          members.filterMap Option.some := by
      apply List.filterMap_congr
      intro m inside
      simp only [Function.comp_apply, found m inside, Option.map_some]
    rw [itself, List.filterMap_some]
  rw [restricted]
  generalize names.filterMap _ = assignments at each
  cases assignments with
  | nil =>
      have none : members = [] := each.symm.eq_nil
      rw [none] at same
      exact absurd same.symm.eq_nil some
  | cons first rest =>
      change Json.object (OrderedMap.insertAll (first :: rest) []) = _
      have distinct : ((first :: rest).map Prod.fst).Nodup :=
        (each.map Prod.fst).nodup_iff.mpr ascending.nodup
      have perm : (OrderedMap.insertAll (first :: rest) []).Perm members :=
        (OrderedMap.insertAll_perm distinct).trans each
      have sorted : OrderedMap.Ascending (OrderedMap.insertAll (first :: rest) []) :=
        OrderedMap.Ascending.insertAll List.Pairwise.nil _
      rw [perm.eq_of_pairwise (fun a b _ _ less more => absurd (less.trans more) (lt_irrefl _))
        sorted ascending]

/-! ### There and back -/

/-- How integers are stored makes no difference for what is binary. -/
theorem containsBinaries_canon (json : Json) : containsBinaries json.canon = containsBinaries json := by
  induction size : json.weight using Nat.strongRecOn generalizing json with
  | ind n ih =>
      have smaller : ∀ item ∈ json.elements, containsBinaries item.canon = containsBinaries item :=
        fun item inside => ih item.weight (size ▸ Json.element_weight_lt inside) item rfl
      cases json with
      | array items =>
          rw [Bool.eq_iff_iff, Json.canon_array, Message2Json.containsBinaries_array,
            Message2Json.containsBinaries_array]
          simp only [List.mem_map, exists_exists_and_eq_and]
          exact exists_congr fun item => and_congr_right fun inside => by rw [smaller item inside]
      | object members =>
          rw [Bool.eq_iff_iff, Json.canon_object, Message2Json.containsBinaries_object,
            Message2Json.containsBinaries_object]
          simp only [List.mem_map, exists_exists_and_eq_and]
          refine exists_congr fun member => and_congr_right fun inside => ?_
          rw [smaller member.2 (List.mem_map_of_mem inside)]
      | integer n =>
          rw [Json.canon]
          split <;> rfl
      | _ => rfl

/-- What conforms to a type that both directions agree on holds nothing binary. -/
theorem Conforms.not_binary {t : Ty} {json : Json} (conforms : Conforms t json) :
    containsBinaries json = false := by
  induction conforms with
  | @int t json n stored =>
      cases json with
      | integer => rfl
      | unsigned => rfl
      | _ => contradiction
  | @variant t held conforms ih => simp [containsBinaries, containsBinaries.membersContain, ih]
  | single conforms ih => exact ih
  | struct parts several each ih =>
      rw [← Bool.not_eq_true, Message2Json.containsBinaries_array]
      rintro ⟨item, inside, binary⟩
      obtain ⟨p, member, rfl⟩ := List.mem_map.mp inside
      simp [ih p member] at binary
  | array codec plain each ih =>
      rw [← Bool.not_eq_true, Message2Json.containsBinaries_array]
      rintro ⟨item, inside, binary⟩
      simp [ih item inside] at binary
  | dict codec some ascending keys each ih =>
      rw [← Bool.not_eq_true, Message2Json.containsBinaries_object]
      rintro ⟨member, inside, binary⟩
      simp [ih member inside] at binary
  | _ => rfl

/-- A parameter with its member, the value that is sent for it and what that is read as. -/
abbrev EchoPart := Str × Returned

def EchoPart.param (p : EchoPart) : Param := (p.1, p.2.type)

structure EchoPart.Goes (env : Env) (request : Json) (p : EchoPart) : Prop where
  member : request.member? p.1 = some p.2.json
  conforms : Conforms p.2.type p.2.json
  good : p.2.Good env

theorem exists_echoParts {env : Env} (off : env.config.binarySupport = false) {request : Json}
    {params : List Param} (conforming : Conforming request params) :
    ∃ parts : List EchoPart, params = parts.map EchoPart.param ∧ ∀ p ∈ parts, p.Goes env request := by
  apply Json2Message.exists_parts
  intro param inside
  obtain ⟨json, member, conforms⟩ := conforming param inside
  obtain ⟨v, type, filled, read, reads, same⟩ := conforms.backAndThere off
  exact ⟨(param.1, ⟨param.2, json, v, read⟩), rfl, member, conforms, type, filled, reads, same⟩

section Parts

variable {env : Env} {request : Json} {parts : List EchoPart} {args : List Argument}

/-- The members fill the arguments of a call. -/
theorem fillArguments_echoParts (goes : ∀ p ∈ parts, p.Goes env request)
    (same : args.map (fun arg => (arg.name, arg.type)) = parts.map fun p => (p.1, p.2.type.text))
    {M : Type} [LawfulWriter M] {message : M} (empty : LawfulWriter.draft message = Draft.empty) :
    ∃ filled, Json2Message.fillArguments message args request = .ok filled ∧
      LawfulWriter.draft filled = calling (parts.map fun p => p.2.value) := by
  have members : ∀ p ∈ parts, request.member? p.1 = some p.2.json := fun p inside =>
    (goes p inside).member
  have fills : ∀ p ∈ parts, Json2Message.Filled Json2Message.Converted [p.2.type] p.2.json [p.2.value] :=
    fun p inside => (goes p inside).good.filled
  refine Json2Message.fillArguments_named members fills (fun p inside => ?_) same empty
  rw [(goes p inside).good.typeOf]
  exact (goes p inside).conforms.codec.single

/-- What is read for the parameters is what was given for them. -/
theorem extractArguments_echoParts (goes : ∀ p ∈ parts, p.Goes env request)
    (same : args.map (fun arg => (arg.name, arg.type)) = parts.map fun p => (p.1, p.2.type.text))
    (named : ∀ p ∈ parts, p.1 ≠ []) {R : Type} [LawfulReader R] {reply : R}
    (holds : LawfulReader.cursor reply = Cursor.start (parts.map fun p => p.2.value)) :
    ∃ m', Settles (fun fuel => extractArguments env fuel reply args)
      (.ok (Json.ofAssignments (parts.map fun p => (p.1, p.2.read)), m')) := by
  obtain ⟨pairs, rfl, rfl, each⟩ := exists_paired same
  let replies : List ReplyPart := pairs.map fun pair => ⟨pair.1, pair.2.2.value, pair.2.2.read⟩
  have args_eq : replies.map ReplyPart.arg = pairs.map Prod.fst := by
    rw [List.map_map]
    rfl
  have readable : ∀ p ∈ replies, p.Readable env := by
    intro p inside
    obtain ⟨pair, member, rfl⟩ := List.mem_map.mp inside
    have facts := (goes pair.2 (List.mem_map_of_mem member)).good
    obtain ⟨_, type⟩ := Prod.mk.inj (each pair member)
    exact ⟨by rw [type, facts.typeOf], facts.reads⟩
  have ahead : (LawfulReader.cursor reply).top.rest = replies.map ReplyPart.value ++ [] := by
    rw [holds, List.append_nil, List.map_map, List.map_map]
    rfl
  obtain ⟨m', _, settles⟩ := extractArguments_settles readable (by rw [holds]; rfl) ahead
  rw [args_eq] at settles
  have names : memberNames 0 (pairs.map Prod.fst) = pairs.map fun pair => pair.2.1 := by
    rw [memberNames_named, List.map_map]
    · exact List.map_congr_left fun pair member => (Prod.mk.inj (each pair member)).1
    · intro arg inside
      obtain ⟨pair, member, rfl⟩ := List.mem_map.mp inside
      rw [(Prod.mk.inj (each pair member)).1]
      exact named pair.2 (List.mem_map_of_mem member)
  rw [names, List.map_map, List.zip_map'] at settles
  refine ⟨m', ?_⟩
  rw [List.map_map]
  exact settles

end Parts

/-! ### One call to the echo -/

/-- A call that is answered, with everything on its way. -/
theorem postCall_returns {M R : Type} [LawfulWriter M] [LawfulReader R] {server : Server M R}
    {fuel : Nat} {context : InterfaceContext} {sent : List (Sent M)} {path body : Str}
    {parts : RequestPath} (parsed : parseDbusRequestPath path = .ok (some parts)) {request : Json}
    (read : server.text.parse body = .ok request) {message : M} {method : Method}
    (prepared : prepare server.connection context parts.serviceName parts.objectPath
      parts.interfaceName parts.method request = .ok (message, method))
    {reply reply' : R} (replied : server.connection.callMethod (sent ++
      [⟨parts.serviceName, parts.objectPath, parts.interfaceName, parts.method, message⟩]) = .ok reply)
    {response : Json}
    (extracted : extractArguments server.env fuel reply method.outArgs = .ok (response, reply'))
    {answer : Response} (encoded : WebService.encodeResponse server.text response = .ok answer) :
    postCall server fuel context sent path body =
      (sent ++ [⟨parts.serviceName, parts.objectPath, parts.interfaceName, parts.method, message⟩],
        .ok answer) := by
  have encodes : (pure response : Run Json) >>= WebService.encodeResponse server.text = .ok answer := encoded
  simp only [postCall, parsed, read, DbusCaller.call, prepared, replied, DbusCaller.raising,
    Cxx.bind_ok, extracted, encodes]

/-- A number is written the same however it is stored. -/
def WritesPlainly (text : JsonText) : Prop :=
  ∀ first second : Json, first.canon = second.canon → text.dump first = text.dump second

theorem encodeResponse_plain {text : JsonText} {response : Json} {content : Str}
    (plain : containsBinaries response = false) (written : text.dump response = .ok content) :
    WebService.encodeResponse text response =
      .ok { content := content, contentType := "application/json".toList } := by
  rw [WebService.encodeResponse, plain, written]
  rfl

section Answer

variable {env : Env} {request : Json} {parts : List EchoPart} (goes : ∀ p ∈ parts, p.Goes env request)
include goes

theorem restricted_echoParts :
    restricted request (parts.map Prod.fst) = Json.ofAssignments (parts.map fun p => (p.1, p.2.json)) :=
  restricted_of_members fun p inside => (goes p inside).member

/-- What comes back is what was sent up to the way integers are stored. -/
theorem canon_echoParts :
    (Json.ofAssignments (parts.map fun p => (p.1, p.2.read))).canon =
      (restricted request (parts.map Prod.fst)).canon := by
  rw [restricted_echoParts goes, canon_ofAssignments, canon_ofAssignments, List.map_map, List.map_map]
  congr 1
  exact List.map_congr_left fun p inside => Prod.ext rfl (goes p inside).good.same

theorem not_binary_echoParts (distinct : (parts.map Prod.fst).Nodup) :
    containsBinaries (Json.ofAssignments (parts.map fun p => (p.1, p.2.read))) = false := by
  have names : ((parts.map fun p => (p.1, p.2.read)).map Prod.fst).Nodup := by
    rw [List.map_map]
    exact distinct
  rw [← Bool.not_eq_true, Message2Json.containsBinaries_ofAssignments names]
  rintro ⟨member, inside, binary⟩
  obtain ⟨p, member', rfl⟩ := List.mem_map.mp inside
  rw [← containsBinaries_canon, (goes p member').good.same, containsBinaries_canon,
    (goes p member').conforms.not_binary] at binary
  cases binary

end Answer

/-- A request with a conforming member for each parameter comes back from an echoing method as it
was sent: the call holds a value of each declared type, and the response is the text of these
members alone, which is the text of the request where it has no others. -/
theorem post_echoes {M R : Type} [LawfulWriter M] [LawfulReader R] {server : Server M R}
    (off : server.env.config.binarySupport = false) (plainly : WritesPlainly server.text)
    {item : MethodVTableItem} {params : List Param} (declares : item.Declares params)
    {context : InterfaceContext} {parts : RequestPath} {method : Method}
    (registered : context.get parts.interfaceName parts.method = .ok method)
    (published : Published item method) (echoes : Echoes server.connection parts)
    {path body : Str} (parsed : parseDbusRequestPath path = .ok (some parts)) {request : Json}
    (read : server.text.parse body = .ok request) (conforming : Conforming request params)
    {content : Str} (written : server.text.dump (restricted request (params.map Prod.fst)) = .ok content)
    (sent : List (Sent M)) :
    (∃ message enough, (LawfulWriter.draft message).top.items.map Value.typeOf = params.map Prod.snd ∧
      ∀ fuel, enough ≤ fuel → postCall server fuel context sent path body =
        (sent ++ [⟨parts.serviceName, parts.objectPath, parts.interfaceName, parts.method, message⟩],
          .ok { content := content, contentType := "application/json".toList })) ∧
    ∀ members, request = .object members → OrderedMap.Ascending members → params ≠ [] →
      (members.map Prod.fst).Perm (params.map Prod.fst) → server.text.dump request = .ok content := by
  constructor
  · obtain ⟨going, rfl, goes⟩ := exists_echoParts off conforming
    have names : (going.map EchoPart.param).map Prod.fst = going.map Prod.fst := by
      rw [List.map_map]
      rfl
    have types : (going.map fun p => p.2.value).map Value.typeOf =
        (going.map EchoPart.param).map Prod.snd := by
      rw [List.map_map, List.map_map]
      exact List.map_congr_left fun p inside => (goes p inside).good.typeOf
    have named : ∀ p ∈ going, p.1 ≠ [] := fun p inside => declares.named _ (List.mem_map_of_mem inside)
    have inputs := published.inputs.params declares.inNames declares.inTypes
    have outputs := published.outputs.params declares.outNames declares.outTypes
    rw [List.map_map] at inputs outputs
    -- the call, its reply and what is read from that
    obtain ⟨message, empty, created⟩ := echoes.created
    obtain ⟨filled, fills, holds⟩ := fillArguments_echoParts goes inputs empty
    obtain ⟨reply, replied, copied⟩ := echoes.replied sent filled (by rw [holds]; rfl)
    rw [holds] at copied
    obtain ⟨reply', enough, extracts⟩ := extractArguments_echoParts goes outputs named copied
    have prepared := DbusCaller.prepare_eq_ok.mpr ⟨message, created, registered, fills⟩
    rw [names, ← plainly _ _ (canon_echoParts goes)] at written
    have encoded := encodeResponse_plain (not_binary_echoParts goes (names ▸ declares.distinct)) written
    refine ⟨filled, enough, by rw [holds]; exact types, fun fuel le => ?_⟩
    exact postCall_returns parsed read prepared replied (extracts fuel le) encoded
  · intro members object ascending some same
    rw [object] at written ⊢
    rwa [restricted_of_perm ascending (by simpa using some) same] at written

/-! ### A call with a dict -/

def echoMap : Ty := .array (.entry (.basic .string) (.basic (.int .int32)))

def echoTypes : List Ty := [.basic (.int .int32), .basic .string, echoMap]

/-- The method as it is registered: its inputs and its outputs have the same names. -/
def echoMethod : Method where
  name := "method_isaDsiD".toList
  args := ["in".toList, "out".toList].flatMap fun direction =>
    [⟨"arg0".toList, "i".toList, direction, {}⟩, ⟨"arg1".toList, "s".toList, direction, {}⟩,
      ⟨"arg2".toList, "a\x7bsi\x7d".toList, direction, {}⟩]

def echoCall : RequestPath where
  serviceName := EchoService.kEchoServiceName
  objectPath := EchoService.kEchoObjectPath
  interfaceName := EchoService.kEchoInterfaceName
  method := "method_isaDsiD".toList

def echoBody : Str :=
  "\x7b\"arg0\":7,\"arg1\":\"lamp\",\"arg2\":\x7b\"left\":1,\"right\":2\x7d\x7d".toList

def echoMembers : List (Str × Json) :=
  [("arg0".toList, .unsigned (Dbus.IntTy.uint64.wrap 7)), ("arg1".toList, .string "lamp".toList),
    ("arg2".toList, .object [("left".toList, .unsigned (Dbus.IntTy.uint64.wrap 1)),
      ("right".toList, .unsigned (Dbus.IntTy.uint64.wrap 2))])]

def echoRequest : Json := .object echoMembers

def echoQuoted (s : Str) : Str := "\"".toList ++ s ++ "\"".toList

def counted (member : Str) (n : Dbus.IntTy.uint64.Val) : Str :=
  echoQuoted member ++ ":".toList ++ Cxx.toDecimal n.val

/-- The library for such requests, of names without marks. -/
def echoDump (json : Json) : Except Str Str :=
  match json.canon with
  | .object [(first, .unsigned n), (second, .string s), (third, .object [(left, .unsigned l),
      (right, .unsigned r)])] =>
      if (first ++ second ++ s ++ third ++ left ++ right).all Char.isAlphanum then
        .ok ("\x7b".toList ++ counted first n ++ ",".toList ++ echoQuoted second ++ ":".toList ++ echoQuoted s ++
          ",".toList ++ echoQuoted third ++ ":\x7b".toList ++ counted left l ++ ",".toList ++ counted right r ++
          "\x7d\x7d".toList)
      else .error "not written here".toList
  | _ => .error "not written here".toList

def echoServer : Server Draft Cursor where
  servicePrefixes := []
  bus := {
    introspectService := fun _ _ _ => []
    rootElement := fun _ => none
    rootElement_empty := rfl }
  connection := {
    createMethodCall := fun _ _ _ _ => .ok .empty
    callMethod := fun sent => .ok (.start (sent.getLast?.elim [] fun call => call.message.top.items)) }
  env := Message2Json.bareEnv
  text := {
    parse := fun body =>
      if body = echoBody then .ok echoRequest else .error (.parseError "parse error".toList)
    dump := echoDump
    toMsgpack := fun _ => [] }

def echoRegistry : InterfaceContext :=
  InterfaceContext.addInterface {} (Interface.add { name := EchoService.kEchoInterfaceName } echoMethod)

def echoItem : MethodVTableItem :=
  EchoService.addMethod "method_isaDsiD" "isa\x7bsi\x7d" ["arg0", "arg1", "arg2"]

theorem echoMethod_published : Published echoItem echoMethod :=
  ⟨⟨echoTypes, by decide, by decide, by decide⟩, ⟨echoTypes, by decide, by decide, by decide⟩⟩

theorem echoServer_echoes : Echoes echoServer.connection echoCall := by
  refine ⟨⟨.empty, rfl, rfl⟩, ?_⟩
  intro sent message _
  refine ⟨_, rfl, ?_⟩
  rw [List.getLast?_concat]
  rfl

theorem echoMap_conforms : Conforms echoMap
    (.object [("left".toList, .unsigned (Dbus.IntTy.uint64.wrap 1)),
      ("right".toList, .unsigned (Dbus.IntTy.uint64.wrap 2))]) := by
  refine .dict (by decide) (by simp) (by unfold OrderedMap.Ascending; decide) ?_ ?_
  · simp only [List.forall_mem_cons]
    exact ⟨⟨.string ⟨"left".toList, by decide⟩, rfl, rfl⟩, ⟨.string ⟨"right".toList, by decide⟩, rfl, rfl⟩,
      by simp⟩
  · simp only [List.forall_mem_cons]
    exact ⟨.int rfl (by decide), .int rfl (by decide), by simp⟩

theorem post_echoes_dict :
    (∃ message enough, message.top.items.map Value.typeOf = echoTypes ∧
      ∀ fuel, enough ≤ fuel → postCall echoServer fuel echoRegistry []
          "com.test.ServiceName/path/to/object/com.test.InterfaceName.method_isaDsiD".toList echoBody =
        ([⟨EchoService.kEchoServiceName, EchoService.kEchoObjectPath, EchoService.kEchoInterfaceName,
          "method_isaDsiD".toList, message⟩],
          .ok { content := echoBody, contentType := "application/json".toList })) ∧
    echoServer.text.dump echoRequest = .ok echoBody := by
  have plainly : WritesPlainly echoServer.text := by
    intro first second same
    simp only [echoServer, echoDump, same]
  have params : echoItem.params = ["arg0".toList, "arg1".toList, "arg2".toList].zip echoTypes := by decide
  have conforming : Conforming echoRequest echoItem.params := by
    rw [params, Conforming, echoTypes]
    simp only [List.zip_cons_cons, List.zip_nil_right, List.forall_mem_cons]
    exact ⟨⟨_, rfl, .int rfl (by decide)⟩, ⟨_, rfl, .string ⟨"lamp".toList, by decide⟩⟩,
      ⟨_, rfl, echoMap_conforms⟩, by simp⟩
  obtain ⟨calls, alone⟩ := @post_echoes Draft Cursor _ _ echoServer rfl plainly echoItem echoItem.params
    (EchoService.methods_declare echoItem (by decide)) echoRegistry echoCall echoMethod rfl
    echoMethod_published echoServer_echoes
    "com.test.ServiceName/path/to/object/com.test.InterfaceName.method_isaDsiD".toList echoBody rfl
    echoRequest rfl conforming echoBody rfl []
  refine ⟨?_, alone _ rfl (by unfold OrderedMap.Ascending; decide) (by decide) (List.Perm.refl _)⟩
  rwa [params] at calls

end Dbus2Http
