import Dbus2Http.CallHandler
import Dbus2Http.GetHandlers
import Dbus2Http.InterfaceJson
import Dbus2Http.Routes

set_option autoImplicit false

namespace Json

open Cxx (Str Run throwExn)

/-- `j.push_back(value)`. -/
def pushBack (j value : Json) : Run Json :=
  match j with
  | null => .ok (.array [value])
  | array items => .ok (.array (items ++ [value]))
  | other => throwExn .jsonTypeError ("cannot use push_back() with ".toList ++ other.typeName)

/-- `j[key].push_back(value)`. -/
def pushBackAt (key : Str) (j value : Json) : Run Json := do
  let grown ← ((j.member? key).getD .null).pushBack value
  j.setMember key grown

/-- A value without numbers and binaries whose members are sorted, as the library keeps them. -/
inductive Plain : Json → Prop
  | null : Plain .null
  | bool (b : Bool) : Plain (.bool b)
  | string (s : Str) : Plain (.string s)
  | array {items : List Json} (each : ∀ item ∈ items, Plain item) : Plain (.array items)
  | object {members : List (Str × Json)} (sorted : OrderedMap.Ascending members)
      (each : ∀ member ∈ members, Plain member.2) : Plain (.object members)

theorem plain_ofAssignments {members : List (Str × Json)} (each : ∀ member ∈ members, member.2.Plain) :
    (ofAssignments members).Plain := by
  cases members with
  | nil => exact .null
  | cons first rest =>
      refine .object (OrderedMap.Ascending.insertAll .nil _) fun member inside => ?_
      rcases OrderedMap.mem_insertAll inside with assigned | impossible
      · exact each member assigned
      · cases impossible

end Json

namespace Dbus2Http

open Cxx (Str Run)
open JsonForm

/-! ### Objects as JSON -/

namespace ObjectPath

/-- Neither the path nor the children are among the members. -/
def members (op : ObjectPath) : List (Str × Json) := [("interfaces".toList, toJson op.interfaces)]

def fromJson (j : Json) (op : ObjectPath) : Run ObjectPath := do
  let interfaces ← readMember j "interfaces".toList op.interfaces
  .ok { op with interfaces }

end ObjectPath

instance : JsonForm ObjectPath where
  fresh := {}
  toJson op := Json.ofAssignments op.members
  fromJson := ObjectPath.fromJson

namespace WebService

open DbusCaller (raising)

/-! ### Writing JSON -/

/-- A library function that writes JSON, with or without indentation. -/
abbrev Writer := Json → Except Str Str

/-- What is set for a text of JSON. -/
def jsonResponse (content : Str) : Response :=
  { status := 200, content := content, contentType := "application/json".toList }

def written (write : Writer) (j : Json) : Run Response := do
  let content ← raising .jsonTypeError (write j)
  return jsonResponse content

theorem written_eq_ok {write : Writer} {j : Json} {response : Response} :
    written write j = .ok response ↔
      ∃ content, write j = .ok content ∧ response = jsonResponse content := by
  rw [written]
  cases write j with
  | error what => simp [raising, Cxx.throwExn, bind, Except.bind]
  | ok content => simp [raising, bind, Except.bind, pure, Except.pure, eq_comm]

/-- No two values without numbers are written alike. -/
def Faithful (write : Writer) : Prop :=
  ∀ ⦃first second : Json⦄ ⦃text : Str⦄, first.Plain → second.Plain →
    write first = .ok text → write second = .ok text → first = second

/-- What is written alike is alike. -/
theorem eq_of_written {write : Writer} (faithful : Faithful write) {first second : Json}
    (plain : first.Plain) (plain' : second.Plain) {response : Response}
    (one : written write first = .ok response) (other : written write second = .ok response) :
    first = second := by
  obtain ⟨text, wrote, rfl⟩ := written_eq_ok.mp one
  obtain ⟨text', wrote', same⟩ := written_eq_ok.mp other
  obtain rfl : text = text' := congrArg Response.content same
  exact faithful plain plain' wrote wrote'

section Table

open Classical

/-- Writes what is in a table. -/
noncomputable def tableWriter (table : List (Json × Str)) : Writer := fun j =>
  match table.find? fun entry => entry.1 = j with
  | some entry => .ok entry.2
  | none => .error "not in the table".toList

theorem tableWriter_eq_ok {table : List (Json × Str)} {j : Json} {text : Str}
    (wrote : tableWriter table j = .ok text) : (j, text) ∈ table := by
  rw [tableWriter] at wrote
  cases found : table.find? fun entry => decide (entry.1 = j) with
  | none =>
      rw [found] at wrote
      cases wrote
  | some entry =>
      rw [found] at wrote
      cases wrote
      have key : entry.1 = j := by simpa using List.find?_some found
      rw [← key]
      exact List.mem_of_find?_eq_some found

theorem tableWriter_of_mem {table : List (Json × Str)} (distinct : (table.map Prod.fst).Nodup)
    {j : Json} {text : Str} (inside : (j, text) ∈ table) : tableWriter table j = .ok text := by
  have found : (table.find? fun entry => decide (entry.1 = j)).isSome :=
    List.find?_isSome.mpr ⟨(j, text), inside, by simp⟩
  obtain ⟨entry, found⟩ := Option.isSome_iff_exists.mp found
  have wrote : tableWriter table j = .ok entry.2 := by rw [tableWriter, found]
  have same := List.inj_on_of_nodup_map distinct (tableWriter_eq_ok wrote) inside rfl
  rw [wrote, show entry.2 = text from congrArg Prod.snd same]

theorem tableWriter_faithful (table : List (Json × Str)) (distinct : (table.map Prod.snd).Nodup) :
    Faithful (tableWriter table) := by
  intro first second text _ _ one other
  have same := List.inj_on_of_nodup_map distinct (tableWriter_eq_ok one) (tableWriter_eq_ok other) rfl
  exact congrArg Prod.fst same

end Table

/-! ### The answers as JSON -/

def servicesJson (context : InterfaceContext) : Run Json := do
  let j ← Json.null.setMember "services".toList (.array [])
  context.getServiceNames.foldlM
    (fun j serviceName => j.pushBackAt "services".toList (.string serviceName)) j

/-- What a JSON handler answers when it is done. Pages are sent by other handlers. -/
def Handler.answer? (write : Writer) : Handler → Option (Run Response)
  | .done (.interface found) => some (written write (toJson found))
  | .done (.objects stored) => some (written write (toJson stored))
  | .done (.notFound text) =>
      some (.ok { status := 404, content := text, contentType := "text/plain".toList })
  | .done .unset => some (.ok { content := [], contentType := [] })
  | .failed fault => some (.error fault)
  | _ => none

/-- The JSON answer to a path, where the check is made in the first registry and what was found is
read from the second; the other paths are answered with pages, or by no handler. -/
def answer? (dump indent : Writer) (checked read : InterfaceContext) (path : Str) :
    Option (Run Response) :=
  match routeGet getRoutes path with
  | some (.services, _) => some (servicesJson checked >>= written dump)
  | some (.service, suffix) => (((Handler.service suffix).next checked).next read).answer? indent
  | some (.interface, suffix) => (((Handler.interface suffix).next checked).next read).answer? indent
  | _ => none

def servicePath (service : Str) : Str := "/dbus/service/".toList ++ service

def interfacePath (name : Str) : Str := "/dbus/interface/".toList ++ name

/-- A name that can be asked for: it has no slash and no end of a line. -/
structure Askable (name : Str) : Prop where
  plain : '/' ∉ name
  unbroken : ∀ c ∈ name, c ∉ ['\n', '\r']

instance (name : Str) : Decidable (Askable name) :=
  letI : Decidable (∀ c ∈ name, c ∉ ['\n', '\r']) := List.decidableBAll _ name
  decidable_of_iff ('/' ∉ name ∧ ∀ c ∈ name, c ∉ ['\n', '\r'])
    ⟨fun both => ⟨both.1, both.2⟩, fun askable => ⟨askable.plain, askable.unbroken⟩⟩

def namesJson (names : List Str) : Json := .object [("services".toList, .array (names.map .string))]

section Answers

variable {dump indent : Writer} {checked read : InterfaceContext}

theorem servicesJson_eq (context : InterfaceContext) :
    servicesJson context = .ok (namesJson context.getServiceNames) := by
  have grown (names : List Str) (done : List Json) :
      names.foldlM (fun j name => Json.pushBackAt "services".toList j (.string name))
          (.object [("services".toList, .array done)]) =
        (.ok (.object [("services".toList, .array (done ++ names.map .string))]) : Run Json) := by
    induction names generalizing done with
    | nil => rw [List.map_nil, List.append_nil]; rfl
    | cons name names ih =>
        have round : Json.pushBackAt "services".toList (.object [("services".toList, .array done)])
            (.string name) = .ok (.object [("services".toList, .array (done ++ [.string name]))]) := rfl
        rw [List.foldlM_cons, round, Cxx.bind_ok, ih, List.append_assoc]
        rfl
  exact grown context.getServiceNames []

theorem answer_services :
    answer? dump indent checked read "/dbus/service".toList =
      some (written dump (namesJson checked.getServiceNames)) := by
  have routed : routeGet getRoutes "/dbus/service".toList = some (.services, []) := by decide
  rw [answer?, routed]
  simp only [servicesJson_eq, Cxx.bind_ok]

theorem routeGet_service {service : Str} (askable : Askable service) :
    routeGet getRoutes (servicePath service) = some (.service, service) :=
  routeGet_of_rest (.refl _) html_before (by decide) rfl askable.unbroken

theorem answer_service {service : Str} (askable : Askable service)
    {stored : OrderedMap Str ObjectPath} (known : checked.containsService service = true)
    (found : read.objectPaths.find? service = some stored) :
    answer? dump indent checked read (servicePath service) = some (written indent (toJson stored)) := by
  rw [answer?, routeGet_service askable]
  simp only [Handler.next, Handler.check, if_neg askable.plain, if_pos known,
    InterfaceContext.objectPathsOfService, found]
  rfl

theorem routeGet_interfacePath {name : Str} (askable : Askable name) :
    routeGet getRoutes (interfacePath name) = some (.interface, name) :=
  routeGet_interface askable.plain askable.unbroken

theorem answer_interface {name : Str} (askable : Askable name) {interface : Interface}
    (known : checked.containsInterface name = true)
    (found : read.interfaces.find? name = some interface) :
    answer? dump indent checked read (interfacePath name) =
      some (written indent (toJson interface)) := by
  rw [answer?, routeGet_interfacePath askable]
  simp only [Handler.next, Handler.check, if_neg askable.plain, if_pos known,
    InterfaceContext.getInterfaces, found]
  rfl

/-- What is answered for a name: what is stored under it, or that there is no such thing. -/
def answerTo {T : Type} [JsonForm T] (write : Writer) (missing : Str) : Option T → Run Response
  | some stored => written write (toJson stored)
  | none => .ok { status := 404, content := missing, contentType := "text/plain".toList }

/-- A name with a slash gets an empty answer. -/
def answerIf (suffix : Str) (answer : Run Response) : Run Response :=
  if '/' ∈ suffix then .ok { content := [], contentType := [] } else answer

theorem answerIf_congr {suffix : Str} {answer answer' : Run Response}
    (same : '/' ∉ suffix → answer = answer') : answerIf suffix answer = answerIf suffix answer' := by
  rw [answerIf, answerIf]
  split_ifs with slash
  · rfl
  · exact same slash

theorem handler_service (context : InterfaceContext) (suffix : Str) :
    (((Handler.service suffix).next context).next context).answer? indent = some (answerIf suffix
      (answerTo indent "service not found".toList (context.objectPaths.find? suffix))) := by
  simp only [Handler.next, Handler.check, answerIf]
  by_cases slash : '/' ∈ suffix
  · rw [if_pos slash, if_pos slash]
    rfl
  · rw [if_neg slash, if_neg slash, InterfaceContext.containsService, OrderedMap.contains]
    cases found : context.objectPaths.find? suffix with
    | none => rfl
    | some stored =>
        simp only [Option.isSome_some, if_true, InterfaceContext.objectPathsOfService, found]
        rfl

theorem handler_interface (context : InterfaceContext) (suffix : Str) :
    (((Handler.interface suffix).next context).next context).answer? indent = some (answerIf suffix
      (answerTo indent "interface not found".toList (context.interfaces.find? suffix))) := by
  simp only [Handler.next, Handler.check, answerIf]
  by_cases slash : '/' ∈ suffix
  · rw [if_pos slash, if_pos slash]
    rfl
  · rw [if_neg slash, if_neg slash, InterfaceContext.containsInterface, OrderedMap.contains]
    cases found : context.interfaces.find? suffix with
    | none => rfl
    | some interface =>
        simp only [Option.isSome_some, if_true, InterfaceContext.getInterfaces, found]
        rfl

/-- The JSON answers of one registry. -/
theorem answer_eq (context : InterfaceContext) (path : Str) :
    answer? dump indent context context path =
      match routeGet getRoutes path with
      | some (.services, _) => some (written dump (namesJson context.getServiceNames))
      | some (.service, suffix) => some (answerIf suffix
          (answerTo indent "service not found".toList (context.objectPaths.find? suffix)))
      | some (.interface, suffix) => some (answerIf suffix
          (answerTo indent "interface not found".toList (context.interfaces.find? suffix)))
      | _ => none := by
  rw [answer?]
  simp only [servicesJson_eq, Cxx.bind_ok, handler_service, handler_interface]

theorem answer_service_eq (context : InterfaceContext) {service : Str} (askable : Askable service) :
    answer? dump indent context context (servicePath service) =
      some (answerTo indent "service not found".toList (context.objectPaths.find? service)) := by
  rw [answer_eq, routeGet_service askable]
  exact congrArg some (if_neg askable.plain)

theorem answer_interface_eq (context : InterfaceContext) {name : Str} (askable : Askable name) :
    answer? dump indent context context (interfacePath name) =
      some (answerTo indent "interface not found".toList (context.interfaces.find? name)) := by
  rw [answer_eq, routeGet_interfacePath askable]
  exact congrArg some (if_neg askable.plain)

/-- All JSON answers of this registry can be written. -/
def Legible (dump indent : Writer) (context : InterfaceContext) : Prop :=
  ∀ path answer, answer? dump indent context context path = some answer →
    ∃ response, answer = .ok response

theorem Legible.of_written {context : InterfaceContext}
    (names : ∃ text, dump (namesJson context.getServiceNames) = .ok text)
    (objects : ∀ service stored, context.objectPaths.find? service = some stored →
      ∃ text, indent (toJson stored) = .ok text)
    (interfaces : ∀ name interface, context.interfaces.find? name = some interface →
      ∃ text, indent (toJson interface) = .ok text) : Legible dump indent context := by
  have told {T : Type} [JsonForm T] (suffix missing : Str) (found : Option T)
      (each : ∀ stored, found = some stored → ∃ text, indent (toJson stored) = .ok text) :
      ∃ response, answerIf suffix (answerTo indent missing found) = .ok response := by
    rw [answerIf]
    split_ifs
    · exact ⟨_, rfl⟩
    · cases found with
      | none => exact ⟨_, rfl⟩
      | some stored =>
          obtain ⟨text, wrote⟩ := each stored rfl
          exact ⟨_, written_eq_ok.mpr ⟨text, wrote, rfl⟩⟩
  intro path answer answered
  rw [answer_eq] at answered
  cases routed : routeGet getRoutes path with
  | none =>
      rw [routed] at answered
      cases answered
  | some found =>
      obtain ⟨route, suffix⟩ := found
      rw [routed] at answered
      cases route with
      | services =>
          obtain ⟨text, wrote⟩ := names
          exact ⟨_, (Option.some.inj answered).symm.trans (written_eq_ok.mpr ⟨text, wrote, rfl⟩)⟩
      | service =>
          obtain ⟨response, wrote⟩ := told suffix _ _ (objects suffix)
          exact ⟨response, (Option.some.inj answered).symm.trans wrote⟩
      | interface =>
          obtain ⟨response, wrote⟩ := told suffix _ _ (interfaces suffix)
          exact ⟨response, (Option.some.inj answered).symm.trans wrote⟩
      | html => cases answered
      | interfaceHtml => cases answered
      | tryCall => cases answered
      | matchrule => cases answered

theorem Legible.text {context : InterfaceContext} (legible : Legible dump indent context)
    {path : Str} {write : Writer} {j : Json}
    (answered : answer? dump indent context context path = some (written write j)) :
    ∃ text, write j = .ok text ∧ written write j = .ok (jsonResponse text) := by
  obtain ⟨response, wrote⟩ := legible path _ answered
  obtain ⟨text, succeeded, rfl⟩ := written_eq_ok.mp wrote
  exact ⟨text, succeeded, wrote⟩

end Answers

/-! ### A registry with one lamp -/

/-- A lamp whose root has the given children. -/
def lampWith (childrenPaths : List Str) : InterfaceContext :=
  (InterfaceContext.addInterface {} { name := "a.Lamp".toList }).addObjectPath "a.lamp".toList
    { path := "/".toList, interfaces := ["a.Lamp".toList], childrenPaths := childrenPaths }

def lampObjects (childrenPaths : List Str) : OrderedMap Str ObjectPath :=
  OrderedMap.empty.insert "/".toList
    { path := "/".toList, interfaces := ["a.Lamp".toList], childrenPaths := childrenPaths }

def lampNames : List (Json × Str) :=
  [(namesJson ["a.lamp".toList], "\x7b\"services\":[\"a.lamp\"]\x7d".toList)]

/-- The text of an interface without members. -/
def bareText (name : String) : Str :=
  ("\x7b\n  \"flags\": null,\n  \"methods\": \x7b\x7d,\n  \"name\": \"" ++ name ++ "\",\n" ++
    "  \"properties\": \x7b\x7d,\n  \"signals\": \x7b\x7d\n\x7d").toList

def lampForms : List (Json × Str) := [
  (toJson (lampObjects ["x".toList]),
    "\x7b\n  \"/\": \x7b\n    \"interfaces\": [\n      \"a.Lamp\"\n    ]\n  \x7d\n\x7d".toList),
  (toJson ({ name := "a.Lamp".toList } : Interface), bareText "a.Lamp"),
  (toJson ({ name := "a.Dimmer".toList } : Interface), bareText "a.Dimmer")]

theorem lampForms_distinct : (lampForms.map Prod.fst).Nodup := by
  have names :
      ((lampForms.map Prod.fst).map fun j => (j.member? "name".toList).map Json.keyText).Nodup := by
    decide
  exact List.Nodup.of_map _ names

theorem lampWith_find? (childrenPaths : List Str) (service : Str) :
    (lampWith childrenPaths).objectPaths.find? service =
      if service = "a.lamp".toList then some (lampObjects childrenPaths) else none := by
  by_cases here : service = "a.lamp".toList
  · rw [if_pos here, here]
    rfl
  · rw [if_neg here, lampWith, InterfaceContext.find?_addObjectPath_of_ne _ _ _ here]
    rfl

/-- The answers about the lamp can be written, whether its dimmer is known or not. -/
theorem lamp_legible {context : InterfaceContext}
    (objects : context.objectPaths = (lampWith ["x".toList]).objectPaths)
    (interfaces : ∀ name interface, context.interfaces.find? name = some interface →
      interface = { name := "a.Lamp".toList } ∨ interface = { name := "a.Dimmer".toList }) :
    Legible (tableWriter lampNames) (tableWriter lampForms) context := by
  refine .of_written ?_ (fun service stored found => ?_) fun name interface found => ?_
  · rw [InterfaceContext.getServiceNames, objects]
    have distinct : (lampNames.map Prod.fst).Nodup := List.nodup_singleton _
    exact ⟨_, tableWriter_of_mem distinct List.mem_cons_self⟩
  · rw [objects, lampWith_find?] at found
    split_ifs at found
    rw [← Option.some.inj found]
    exact ⟨_, tableWriter_of_mem lampForms_distinct List.mem_cons_self⟩
  · rcases interfaces name interface found with rfl | rfl
    · exact ⟨_, tableWriter_of_mem lampForms_distinct (List.mem_cons_of_mem _ List.mem_cons_self)⟩
    · exact ⟨_, tableWriter_of_mem lampForms_distinct
        (List.mem_cons_of_mem _ (List.mem_cons_of_mem _ List.mem_cons_self))⟩

theorem lampWith_interfaces {childrenPaths : List Str} {name : Str} {interface : Interface}
    (found : (lampWith childrenPaths).interfaces.find? name = some interface) :
    interface = { name := "a.Lamp".toList } := by
  rw [lampWith, InterfaceContext.interfaces_addObjectPath, InterfaceContext.interfaces_addInterface,
    OrderedMap.find?_insert] at found
  split_ifs at found
  · exact (Option.some.inj found).symm
  · cases found

/-! ### Following the names -/

section Following

open DbusEnumerator

theorem ScanRun.within {bus : Bus} {before after : Scanner} (run : ScanRun bus before after) :
    before.context.Within after.context := by
  induction run with
  | refl => exact ⟨fun _ => id, fun _ => id, fun _ _ => id⟩
  | tail _ step grown =>
      have more := step.within
      exact ⟨fun name known => more.interfaces name (grown.interfaces name known),
        fun name known => more.services name (grown.services name known),
        fun service path known => more.objects service path (grown.objects service path known)⟩

theorem objects_of_contains {context : InterfaceContext} {service : Str}
    (known : context.containsService service = true) :
    ∃ stored, context.objectPaths.find? service = some stored :=
  Option.isSome_iff_exists.mp known

/-- The answers of the proxy lead from one to the next. A client that asks for the names of the
services, then for the objects of one of them, then for an interface of one of these objects gets
at each stage the text of what is stored when it is read, wherever the update thread is in its scans;
and this has all objects that were there when the client began, each under its own path. Only names
with a slash or an end of a line cannot be asked for. -/
theorem answers_lead_on {bus : Bus} {asked checked read checked' read' : Scanner}
    (begun : ScanRun bus {} asked) (first : ScanRun bus asked checked) (second : ScanRun bus checked read)
    (third : ScanRun bus read checked') (fourth : ScanRun bus checked' read') {dump indent : Writer}
    (legible : Legible dump indent asked.context) (legible' : Legible dump indent read.context)
    (legible'' : Legible dump indent read'.context) :
    (∃ text, dump (namesJson asked.context.getServiceNames) = .ok text ∧
      answer? dump indent asked.context asked.context "/dbus/service".toList =
        some (.ok (jsonResponse text))) ∧
      ∀ service ∈ asked.context.getServiceNames, Askable service →
        ∃ stored text, read.context.objectPaths.find? service = some stored ∧
          indent (toJson stored) = .ok text ∧
          answer? dump indent checked.context read.context (servicePath service) =
            some (.ok (jsonResponse text)) ∧
          (∀ path, (asked.context.object? service path).isSome → stored.contains path = true) ∧
          ∀ path object, stored.find? path = some object → object.path = path ∧
            ∀ name ∈ object.interfaces, Askable name →
              ∃ interface text, read'.context.interfaces.find? name = some interface ∧
                interface.name = name ∧ indent (toJson interface) = .ok text ∧
                answer? dump indent checked'.context read'.context (interfacePath name) =
                  some (.ok (jsonResponse text)) := by
  constructor
  · obtain ⟨text, succeeded, wrote⟩ := legible.text answer_services
    exact ⟨text, succeeded, answer_services.trans (congrArg some wrote)⟩
  intro service listed askable
  have known : checked.context.containsService service = true :=
    (ScanRun.within first).services service ((OrderedMap.mem_keys_iff _ _).mp listed)
  have known' := (ScanRun.within second).services service known
  obtain ⟨stored, found⟩ := objects_of_contains known'
  have object_eq (path : Str) : read.context.object? service path = stored.find? path := by
    rw [InterfaceContext.object?, found]
    rfl
  obtain ⟨text, succeeded, wrote⟩ := legible'.text (answer_service askable known' found)
  refine ⟨stored, text, found, succeeded, (answer_service askable known found).trans (congrArg some wrote),
    fun path before => ?_, fun path object there => ?_⟩
  · have later := (ScanRun.within second).objects service path
      ((ScanRun.within first).objects service path before)
    rwa [object_eq] at later
  · have coherent := (run_steady ((begun.trans first).trans second)).coherent
    rw [← object_eq] at there
    refine ⟨coherent.objects service path object there, fun name inside askableName => ?_⟩
    have registered : checked'.context.containsInterface name = true :=
      (ScanRun.within third).interfaces name (coherent.listed service path object there name inside)
    have registered' := (ScanRun.within fourth).interfaces name registered
    obtain ⟨interface, defined⟩ := Option.isSome_iff_exists.mp registered'
    obtain ⟨text, succeeded, wrote⟩ := legible''.text (answer_interface askableName registered' defined)
    have whole := (((begun.trans first).trans second).trans third).trans fourth
    exact ⟨interface, text, defined, (run_steady whole).coherent.interfaces name interface defined,
      succeeded, (answer_interface askableName registered defined).trans (congrArg some wrote)⟩

open DbusEnumerator in
/-- The interface of a lamp is asked for while its second object is read. -/
theorem lamp_answers_lead_on :
    answer? (tableWriter lampNames) (tableWriter lampForms) lampSeen.context lampSeen.context
        (interfacePath "a.Lamp".toList) =
      some (.ok (jsonResponse (bareText "a.Lamp"))) := by
  have rooted : Legible (tableWriter lampNames) (tableWriter lampForms) lampRooted.context :=
    lamp_legible rfl fun _ _ found => .inl (lampWith_interfaces found)
  have seen : Legible (tableWriter lampNames) (tableWriter lampForms) lampSeen.context := by
    refine lamp_legible rfl fun name interface found => ?_
    rw [lampSeen, InterfaceContext.interfaces_addInterface, OrderedMap.find?_insert] at found
    split_ifs at found
    · exact .inr (Option.some.inj found).symm
    · exact .inl (lampWith_interfaces found)
  obtain ⟨stored, _, found, -, -, -, objects⟩ := (answers_lead_on lamp_rooted .refl .refl lamp_seen .refl
    rooted rooted seen).2 "a.lamp".toList (by decide) (by decide)
  obtain ⟨interface, text, defined, -, wrote, answered⟩ := (objects "/".toList
    ⟨"/".toList, ["a.Lamp".toList], ["x".toList]⟩ (by rw [← Option.some.inj found]; rfl)).2
    "a.Lamp".toList List.mem_cons_self (by decide)
  obtain rfl : { name := "a.Lamp".toList } = interface := Option.some.inj defined
  rw [tableWriter_of_mem lampForms_distinct (List.mem_cons_of_mem _ List.mem_cons_self)] at wrote
  rw [answered, ← Except.ok.inj wrote]

end Following

/-! ### What the answers tell -/

/-- The paths of a service with the interfaces of each object. -/
def listed (stored : OrderedMap Str ObjectPath) : List (Str × List Str) :=
  stored.entries.map fun entry => (entry.1, entry.2.interfaces)

/-- Two registries that differ only in what cannot be asked for: the children of objects, and what
is stored under names with a slash or an end of a line. -/
structure Alike (first second : InterfaceContext) : Prop where
  services : first.getServiceNames = second.getServiceNames
  objects : ∀ service, Askable service →
    (first.objectPaths.find? service).map listed = (second.objectPaths.find? service).map listed
  interfaces : ∀ name, Askable name → first.interfaces.find? name = second.interfaces.find? name

theorem toJson_objects (stored : OrderedMap Str ObjectPath) :
    toJson stored = .object ((listed stored).map fun entry =>
      (entry.1, .object [("interfaces".toList, toJson entry.2)])) := by
  rw [listed, List.map_map]
  rfl

theorem listed_of_toJson {first second : OrderedMap Str ObjectPath} (same : toJson first = toJson second) :
    listed first = listed second := by
  rw [toJson_objects, toJson_objects] at same
  refine List.map_injective_iff.mpr ?_ (Json.object.inj same)
  rintro ⟨path, names⟩ ⟨path', names'⟩ equal
  injection equal with samePath sameMembers
  simp only [Json.object.injEq, List.cons.injEq, Prod.mk.injEq, true_and, and_true] at sameMembers
  have strings : Function.Injective fun name : Str => Json.string name := fun _ _ => Json.string.inj
  exact Prod.ext samePath (List.map_injective_iff.mpr strings (Json.array.inj sameMembers))

section Plain

open Json (Plain plain_ofAssignments)

theorem str_plain (s : Str) : (toJson s).Plain := .string s

theorem list_plain {T : Type} [JsonForm T] (each : ∀ x : T, (toJson x).Plain) (xs : List T) :
    (toJson xs).Plain := by
  refine .array fun item inside => ?_
  obtain ⟨x, -, rfl⟩ := List.mem_map.mp inside
  exact each x

theorem map_plain {T : Type} [JsonForm T] (each : ∀ x : T, (toJson x).Plain) (m : OrderedMap Str T) :
    (toJson m).Plain := by
  refine .object (List.pairwise_map.mpr m.ascending) fun member inside => ?_
  obtain ⟨entry, -, rfl⟩ := List.mem_map.mp inside
  exact each entry.2

theorem flags_plain (flags : Flags) : (toJson flags).Plain := by
  refine plain_ofAssignments fun member inside => ?_
  have written {T : Type} [JsonForm T] {keep : Bool} {key : Str} {value : T}
      (plain : (toJson value).Plain) (here : member ∈ writeMemberIf keep key value) : member.2.Plain := by
    cases keep with
    | false => cases here
    | true =>
        rw [List.mem_singleton.mp here]
        exact plain
  simp only [Flags.written, List.mem_append] at inside
  rcases inside with here | here | here | here | here
  · exact written (.bool _) here
  · exact written (.bool _) here
  · exact written (.bool _) here
  · exact written (.string _) here
  · exact written (.string _) here

theorem argument_plain (arg : Argument) : (toJson arg).Plain := by
  refine plain_ofAssignments ?_
  simp only [Argument.members, List.forall_mem_cons]
  exact ⟨str_plain _, str_plain _, str_plain _, flags_plain _, by simp⟩

theorem method_plain (method : Method) : (toJson method).Plain := by
  refine plain_ofAssignments ?_
  simp only [Method.members, List.forall_mem_cons]
  exact ⟨str_plain _, list_plain argument_plain _, flags_plain _, by simp⟩

theorem signal_plain (signal : Signal) : (toJson signal).Plain := by
  refine plain_ofAssignments ?_
  simp only [Signal.members, List.forall_mem_cons]
  exact ⟨str_plain _, list_plain argument_plain _, flags_plain _, by simp⟩

theorem property_plain (property : Property) : (toJson property).Plain := by
  refine plain_ofAssignments ?_
  simp only [Property.members, List.forall_mem_cons]
  exact ⟨str_plain _, str_plain _, str_plain _, flags_plain _, by simp⟩

theorem interface_plain (interface : Interface) : (toJson interface).Plain := by
  refine plain_ofAssignments ?_
  simp only [Interface.members, List.forall_mem_cons]
  exact ⟨str_plain _, map_plain method_plain _, map_plain signal_plain _, map_plain property_plain _,
    flags_plain _, by simp⟩

theorem object_plain (object : ObjectPath) : (toJson object).Plain := by
  refine plain_ofAssignments ?_
  simp only [ObjectPath.members, List.forall_mem_cons]
  exact ⟨list_plain str_plain _, by simp⟩

theorem names_plain (names : List Str) : (namesJson names).Plain := by
  refine .object (List.pairwise_singleton _ _) ?_
  simp only [List.forall_mem_cons]
  exact ⟨list_plain str_plain names, by simp⟩

end Plain

/-- The members of an interface tell it. -/
theorem interface_of_toJson {first second : Interface} (same : toJson first = toJson second) :
    first = second := by
  have member {T : Type} [JsonForm T] (key : Str) (x : Interface → T)
      (inside : ∀ interface : Interface, (key, toJson (x interface)) ∈ interface.members)
      (back : ∀ interface, ReadsBack (x interface)) : x first = x second := by
    have distinct (interface : Interface) : (interface.members.map Prod.fst).Nodup := by
      show ["name".toList, "methods".toList, "signals".toList, "properties".toList,
        "flags".toList].Nodup
      decide
    have one := readMember_back (distinct first) (inside first) (back first)
    have other := readMember_back (distinct second) (inside second) (back second)
    rw [show Json.ofAssignments first.members = Json.ofAssignments second.members from same, other] at one
    exact (Except.ok.inj one).symm
  have name := member "name".toList Interface.name (by simp [Interface.members]) fun _ => str_back _
  have methods := member "methods".toList Interface.methods (by simp [Interface.members])
    fun _ => map_back method_back _
  have signals := member "signals".toList Interface.signals (by simp [Interface.members])
    fun _ => map_back signal_back _
  have properties := member "properties".toList Interface.properties (by simp [Interface.members])
    fun _ => map_back property_back _
  have flags := member "flags".toList Interface.flags (by simp [Interface.members]) fun _ => flags_back _
  cases first
  cases second
  simp_all only

/-- An answer tells what it is about. -/
theorem toJson_of_answerTo {T : Type} [JsonForm T] {write : Writer} (faithful : Faithful write)
    (plain : ∀ x : T, (toJson x).Plain) {missing : Str} {first second : Option T} {response : Response}
    (one : answerTo write missing first = .ok response)
    (other : answerTo write missing second = .ok response) : first.map toJson = second.map toJson := by
  have apart {stored : T} (wrote : answerTo write missing (some stored) = .ok response)
      (lacked : answerTo write missing (none : Option T) = .ok response) : False := by
    obtain ⟨content, -, rfl⟩ := written_eq_ok.mp wrote
    have status : 404 = 200 := congrArg Response.status (Except.ok.inj lacked)
    omega
  cases first with
  | none =>
      cases second with
      | none => rfl
      | some stored => exact (apart other one).elim
  | some stored =>
      cases second with
      | none => exact (apart one other).elim
      | some stored' =>
          exact congrArg some (eq_of_written faithful (plain stored) (plain stored') one other)

section Telling

variable {dump indent : Writer} {first second : InterfaceContext}

theorem Alike.of_answers (faithfulDump : Faithful dump) (faithful : Faithful indent)
    (legible : Legible dump indent first)
    (same : ∀ path, answer? dump indent first first path = answer? dump indent second second path) :
    Alike first second where
  services := by
    have other := same "/dbus/service".toList
    obtain ⟨response, wrote⟩ := legible _ _ answer_services
    rw [answer_services, answer_services, wrote] at other
    have equal := eq_of_written faithfulDump (names_plain _) (names_plain _) wrote
      (Option.some.inj other).symm
    simp only [namesJson, Json.object.injEq, List.cons.injEq, Prod.mk.injEq, true_and, and_true,
      Json.array.injEq] at equal
    exact List.map_injective_iff.mpr (fun _ _ => Json.string.inj) equal
  objects service askable := by
    have other := same (servicePath service)
    obtain ⟨response, wrote⟩ := legible _ _ (answer_service_eq first askable)
    rw [answer_service_eq first askable, answer_service_eq second askable, wrote] at other
    have equal := toJson_of_answerTo faithful (map_plain object_plain) wrote (Option.some.inj other).symm
    cases found : first.objectPaths.find? service with
    | none =>
        rw [found] at equal
        rw [Option.map_eq_none_iff.mp equal.symm]
    | some stored =>
        rw [found] at equal
        obtain ⟨stored', found', forms⟩ := Option.map_eq_some_iff.mp equal.symm
        rw [found']
        exact congrArg some (listed_of_toJson forms.symm)
  interfaces name askable := by
    have other := same (interfacePath name)
    obtain ⟨response, wrote⟩ := legible _ _ (answer_interface_eq first askable)
    rw [answer_interface_eq first askable, answer_interface_eq second askable, wrote] at other
    have equal := toJson_of_answerTo faithful interface_plain wrote (Option.some.inj other).symm
    exact Option.map_injective (fun _ _ => interface_of_toJson) equal

/-- What is answered for the objects of a service depends on what is listed of them. -/
theorem answerTo_objects (missing : Str) {stored stored' : Option (OrderedMap Str ObjectPath)}
    (same : stored.map listed = stored'.map listed) :
    answerTo indent missing stored = answerTo indent missing stored' := by
  cases stored with
  | none =>
      cases stored' with
      | none => rfl
      | some objects' => cases same
  | some objects =>
      cases stored' with
      | none => cases same
      | some objects' =>
          have forms : toJson objects = toJson objects' := by
            rw [toJson_objects, toJson_objects, Option.some.inj same]
          exact congrArg (written indent) forms

theorem Alike.answers (alike : Alike first second) (path : Str) :
    answer? dump indent first first path = answer? dump indent second second path := by
  rw [answer_eq first path, answer_eq second path]
  cases routed : routeGet getRoutes path with
  | none => rfl
  | some found =>
      obtain ⟨route, suffix⟩ := found
      cases route with
      | services => exact congrArg (fun names => some (written dump (namesJson names))) alike.services
      | service =>
          have unbroken := (match?_rest_eq_some (match?_of_routeGet routed)).2
          refine congrArg some (answerIf_congr fun plain => ?_)
          exact answerTo_objects _ (alike.objects suffix ⟨plain, unbroken⟩)
      | interface =>
          have unbroken := (match?_rest_eq_some (match?_of_routeGet routed)).2
          refine congrArg some (answerIf_congr fun plain => ?_)
          rw [alike.interfaces suffix ⟨plain, unbroken⟩]
      | html => rfl
      | interfaceHtml => rfl
      | tryCall => rfl
      | matchrule => rfl

end Telling

/-- The answers tell the registry: two registries get the same JSON answers on all paths exactly when
they know the same services, list the same interfaces at the same paths of each of them, and define
the same interfaces, names that cannot be asked for apart. The children of an object are told by
none. -/
theorem answers_tell_iff {dump indent : Writer} (faithfulDump : Faithful dump) (faithful : Faithful indent)
    {first : InterfaceContext} (legible : Legible dump indent first) (second : InterfaceContext) :
    (∀ path, answer? dump indent first first path = answer? dump indent second second path) ↔
      Alike first second :=
  ⟨.of_answers faithfulDump faithful legible, fun alike path => alike.answers path⟩

/-- The answers do not tell whether the lamp has children. -/
theorem lamp_answers_tell :
    (∀ path, answer? (tableWriter lampNames) (tableWriter lampForms) (lampWith ["x".toList])
        (lampWith ["x".toList]) path =
      answer? (tableWriter lampNames) (tableWriter lampForms) (lampWith []) (lampWith []) path) ∧
    (lampWith ["x".toList]).object? "a.lamp".toList "/".toList ≠
      (lampWith []).object? "a.lamp".toList "/".toList := by
  have tells := answers_tell_iff (tableWriter_faithful lampNames (by decide))
    (tableWriter_faithful lampForms (by decide))
    (lamp_legible rfl fun _ _ found => .inl (lampWith_interfaces found)) (lampWith [])
  refine ⟨tells.mpr ⟨rfl, fun service _ => ?_, fun _ _ => rfl⟩, by decide⟩
  rw [lampWith_find?, lampWith_find?]
  by_cases here : service = "a.lamp".toList
  · rw [if_pos here, if_pos here]
    rfl
  · rw [if_neg here, if_neg here]

end WebService

end Dbus2Http
