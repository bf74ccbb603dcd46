import Dbus2Http.DbusEnumerator

set_option autoImplicit false

namespace Dbus2Http.DbusEnumerator

open Cxx (Str)
open DbusSerialization

/-- The states that scans of any services, in any order, lead to. -/
inductive Scanned (bus : Bus) : Scan → Prop
  | start : Scanned bus {}
  | scan {before after : Scan} {service path : Str} {fuel : Nat} {objects : List ObjectPath}
      (run : Scanned bus before)
      (done : parseObjectPathsRecursively bus service fuel path before = .ok (objects, after)) :
      Scanned bus after

theorem Scanned.replayed {bus : Bus} {scan : Scan} (run : Scanned bus scan) :
    Replayed bus scan := by
  induction run with
  | start => exact .start bus
  | scan _ done replayed => exact replayed.scan done

/-- A document of this object declared `own`, and `later` is everything declared since, in the
order of the scans. -/
inductive Declares (bus : Bus) (scan : Scan) (service path : Str) :
    Interface → List Interface → Prop
  | document {earlier rest : List Introspection} {call : Introspection}
      {first last : List Interface} {own : Interface}
      (asked : scan.asked = earlier ++ call :: rest)
      (ofService : call.service = service) (ofPath : call.path = path)
      (declared : declarations bus.rootElement call = first ++ own :: last) :
      Declares bus scan service path own (last ++ rest.flatMap (declarations bus.rootElement))

/-- Methods are typed by the document of the object they are called on. -/
def TypedByOwnDocument (bus : Bus) (scan : Scan) : Prop :=
  ∀ service path object interfaceName, scan.context.object? service path = some object →
    interfaceName ∈ object.interfaces →
    ∀ own later, Declares bus scan service path own later → own.name = interfaceName →
    ∀ methodName (method : Method), own.get methodName = .ok method →
      ∃ found : Method, scan.context.get interfaceName methodName = .ok found ∧
        found.args = method.args

theorem exists_declared {node : Element} {name : Str} (listed : name ∈ interfaceNames node) :
    ∃ own ∈ declared node, own.name = name := by
  obtain ⟨iface, inside, found⟩ := List.mem_filterMap.mp listed
  refine ⟨parseInterface iface, List.mem_map_of_mem inside, ?_⟩
  rw [parseInterface_name, found]
  rfl

/-- Only a document with a root element lists interfaces, and it declares them. -/
theorem exists_declaration {rootElement : Str → Option Element} {call : Introspection} {name : Str}
    (listed : name ∈ (objectOf rootElement call).interfaces) :
    (objectOf rootElement call).path = call.path ∧
      ∃ own ∈ declarations rootElement call, own.name = name := by
  rw [objectOf] at listed ⊢
  rw [declarations]
  cases root : rootElement call.xml with
  | none => simp [root] at listed
  | some node =>
      rw [root] at listed
      exact ⟨rfl, exists_declared listed⟩

/-- What a stored object lists was declared by its own document. -/
theorem exists_declares {bus : Bus} {scan : Scan} {service path name : Str} {object : ObjectPath}
    (run : Scanned bus scan) (stored : scan.context.object? service path = some object)
    (listed : name ∈ object.interfaces) :
    ∃ own later, Declares bus scan service path own later ∧ own.name = name := by
  rw [run.replayed] at stored
  obtain ⟨call, asked, ofService, same, samePath⟩ := asked_of_object?_replay _ stored
  obtain ⟨ownPath, own, inside, named⟩ := exists_declaration (same ▸ listed)
  have ofPath : call.path = path := by rw [← ownPath, same, samePath]
  obtain ⟨earlier, rest, split⟩ := List.append_of_mem asked
  obtain ⟨first, last, document⟩ := List.append_of_mem inside
  exact ⟨own, _, .document split ofService ofPath document, named⟩

theorem find?_reverse_append {α : Type} {p : α → Bool} (before : List α) {own : α}
    (later : List α) (hit : p own = true) :
    (before ++ own :: later).reverse.find? p = (own :: later).reverse.find? p := by
  obtain ⟨last, -, found, -⟩ := OrderedMap.exists_last p (List.mem_cons_self (l := later)) hit
  rw [List.reverse_append, List.find?_append, found]
  rfl

/-- The registry answers with the last declaration of a name. -/
theorem get_eq_last {bus : Bus} {scan : Scan} {service path : Str} {own : Interface}
    {later : List Interface} (run : Scanned bus scan)
    (declares : Declares bus scan service path own later) :
    ∃ last, (own :: later).reverse.find? (·.name = own.name) = some last ∧
      ∀ methodName, scan.context.get (T := Method) own.name methodName = last.get methodName := by
  cases declares with
  | @document earlier rest call first last own asked ofService ofPath declared =>
      have all : scan.asked.flatMap (declarations bus.rootElement) =
          (earlier.flatMap (declarations bus.rootElement) ++ first) ++
            own :: (last ++ rest.flatMap (declarations bus.rootElement)) := by
        rw [asked, List.flatMap_append, List.flatMap_cons, declared]
        simp
      have registered := interfaces_replay bus.rootElement scan.asked {} own.name
      rw [← run.replayed, all, find?_reverse_append _ _ (by simp)] at registered
      have hit : decide (own.name = own.name) = true := decide_eq_true rfl
      obtain ⟨answer, -, found, -⟩ := OrderedMap.exists_last
        (fun other : Interface => other.name = own.name)
        (List.mem_cons_self (l := last ++ rest.flatMap (declarations bus.rootElement))) hit
      refine ⟨answer, found, fun methodName => ?_⟩
      rw [found] at registered
      rw [InterfaceContext.get, registered]
      rfl

/-- A call is typed by the last declaration of its interface: by the object's own document when no
later document declares the method otherwise. -/
theorem get_typed_by_last_declaration {bus : Bus} {scan : Scan} {service path name : Str}
    {object : ObjectPath} (run : Scanned bus scan)
    (stored : scan.context.object? service path = some object)
    (listed : name ∈ object.interfaces) :
    (∃ own later, Declares bus scan service path own later ∧ own.name = name) ∧
    ∀ own later, Declares bus scan service path own later → own.name = name →
      (∃ last, (own :: later).reverse.find? (·.name = name) = some last ∧
        ∀ methodName, scan.context.get (T := Method) name methodName = last.get methodName) ∧
      ∀ methodName (method : Method), own.get methodName = .ok method →
        (∀ other ∈ later, other.name = name →
          ∃ same : Method, other.get methodName = .ok same ∧ same.args = method.args) →
        ∃ found : Method, scan.context.get name methodName = .ok found ∧
          found.args = method.args := by
  refine ⟨exists_declares run stored listed, fun own later declares named => ?_⟩
  subst named
  obtain ⟨last, isLast, answers⟩ := get_eq_last run declares
  refine ⟨⟨last, isLast, answers⟩, fun methodName method declared agree => ?_⟩
  have member : last ∈ own :: later :=
    List.mem_reverse.mp (List.mem_of_find?_eq_some isLast)
  have named : last.name = own.name := by simpa using List.find?_some isLast
  rw [answers]
  rcases List.mem_cons.mp member with same | since
  · exact ⟨method, same ▸ declared, rfl⟩
  · exact agree last since named

/-! ### Two services with an interface of the same name -/

/-- A light whose method `Set` takes one argument. -/
def lightDocument (name type : Str) : Element :=
  .mk "node".toList [] [.mk "interface".toList [("name".toList, "x.Light".toList)] [
    .mk "method".toList [("name".toList, "Set".toList)] [
      .mk "arg".toList
        [("name".toList, name), ("type".toList, type), ("direction".toList, "in".toList)] []]]]

def lightText (name type : Str) : Str :=
  "<node><interface name='x.Light'><method name='Set'><arg name='".toList ++ name ++
    "' type='".toList ++ type ++ "' direction='in'/></method></interface></node>".toList

def deskText : Str := lightText "level".toList "y".toList

def streetText : Str := lightText "scene".toList "s".toList

def lightBus : Bus where
  introspectService _ service _ :=
    if service = "a.desk".toList then deskText
    else if service = "b.street".toList then streetText
    else []
  rootElement xml :=
    if xml = deskText then some (lightDocument "level".toList "y".toList)
    else if xml = streetText then some (lightDocument "scene".toList "s".toList)
    else none
  rootElement_empty := by decide

def deskCall : Introspection := ⟨"a.desk".toList, "/".toList, deskText⟩

def streetCall : Introspection := ⟨"b.street".toList, "/".toList, streetText⟩

def lightsScanned : Scan where
  context := [deskCall, streetCall].foldl (recorded lightBus.rootElement) {}
  asked := [deskCall, streetCall]

theorem lights_scanned : Scanned lightBus lightsScanned := by
  have desk : parseObjectPathsRecursively lightBus "a.desk".toList 1 "/".toList {} =
      .ok (_, ⟨recorded lightBus.rootElement {} deskCall, [deskCall]⟩) := rfl
  have street : parseObjectPathsRecursively lightBus "b.street".toList 1 "/".toList
      ⟨recorded lightBus.rootElement {} deskCall, [deskCall]⟩ = .ok (_, lightsScanned) := rfl
  exact .scan (.scan .start desk) street

def lightInterface (name type : Str) : Interface :=
  { name := "x.Light".toList
    methods := OrderedMap.empty.insert "Set".toList
      { name := "Set".toList, args := [⟨name, type, "in".toList, {}⟩] } }

theorem desk_declares : Declares lightBus lightsScanned "a.desk".toList "/".toList
    (lightInterface "level".toList "y".toList) [lightInterface "scene".toList "s".toList] := by
  have asked : lightsScanned.asked = [] ++ deskCall :: [streetCall] := rfl
  have document : declarations lightBus.rootElement deskCall =
      [] ++ lightInterface "level".toList "y".toList :: [] := rfl
  exact .document asked rfl rfl document

theorem street_declares : Declares lightBus lightsScanned "b.street".toList "/".toList
    (lightInterface "scene".toList "s".toList) [] := by
  have asked : lightsScanned.asked = [deskCall] ++ streetCall :: [] := rfl
  have document : declarations lightBus.rootElement streetCall =
      [] ++ lightInterface "scene".toList "s".toList :: [] := rfl
  exact .document asked rfl rfl document

/-- The street light was scanned last, so its own declaration types the calls to it. -/
theorem street_light_typed : ∃ found : Method,
    lightsScanned.context.get "x.Light".toList "Set".toList = .ok found ∧
      found.args = [⟨"scene".toList, "s".toList, "in".toList, {}⟩] := by
  have listed : "x.Light".toList ∈ (objectOf lightBus.rootElement streetCall).interfaces := by
    decide
  exact ((get_typed_by_last_declaration lights_scanned rfl listed).2 _ _ street_declares rfl).2
    "Set".toList _ rfl (by simp)

/-- The desk light declared a byte, and calls to it are typed with the street light's string. -/
theorem desk_light_mistyped :
    Scanned lightBus lightsScanned ∧ ¬ TypedByOwnDocument lightBus lightsScanned := by
  refine ⟨lights_scanned, fun typed => ?_⟩
  have listed : "x.Light".toList ∈ (objectOf lightBus.rootElement deskCall).interfaces := by decide
  have registered : lightsScanned.context.get (T := Method) "x.Light".toList "Set".toList =
      (lightInterface "scene".toList "s".toList).get "Set".toList := rfl
  obtain ⟨found, answered, declared⟩ := typed "a.desk".toList "/".toList _ _ rfl listed _ _
    desk_declares rfl "Set".toList _ rfl
  rw [registered] at answered
  cases answered
  exact absurd declared (by decide)

end Dbus2Http.DbusEnumerator
