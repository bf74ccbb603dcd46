import Dbus2Http.InterfaceContext

set_option autoImplicit false

namespace Dbus2Http

open Cxx (Str Run throwExn)

/-- An XML element as the parser hands it over: texts and comments between the child elements are
never asked for, and an attribute is a C string, so that its value is what comes before the first
NUL. -/
inductive Element
  | mk (name : Str) (attributes : List (Str × Str)) (children : List Element)

namespace Element

def name : Element → Str
  | mk name _ _ => name

/-- `Attribute(key)`, `none` standing for the null pointer. -/
def attribute? (key : Str) : Element → Option Str
  | mk _ attributes _ => attributes.lookup key

/-- The elements met by `FirstChildElement(name)` and then `NextSiblingElement(name)`. -/
def childElements (name : Str) : Element → List Element
  | mk _ _ children => children.filter (·.name = name)

end Element

namespace DbusSerialization

def setDeprecated (flags : Flags) (value : Str) : Flags :=
  if value = "true".toList then { flags with deprecated := true }
  else if value = "false".toList then { flags with deprecated := false }
  else flags

def setMethodNoReply (flags : Flags) (value : Str) : Flags :=
  if value = "true".toList then { flags with methodNoReply := true }
  else if value = "false".toList then { flags with methodNoReply := false }
  else flags

def setEmitsChangedSignal (flags : Flags) (value : Str) : Flags :=
  if value = "true".toList then { flags with emitsChangedSignal := .true }
  else if value = "false".toList then { flags with emitsChangedSignal := .false }
  else if value = "invalidates".toList then { flags with emitsChangedSignal := .invalidates }
  else if value = "const".toList then { flags with emitsChangedSignal := .const }
  else flags

/-- One annotation. What is not understood is logged and leaves the flags alone. -/
def parseAnnotation (flags : Flags) (node : Element) : Flags :=
  match node.attribute? "name".toList, node.attribute? "value".toList with
  | some name, some value =>
      if name = "org.freedesktop.DBus.Deprecated".toList then setDeprecated flags value
      else if name = "org.freedesktop.DBus.Method.NoReply".toList then setMethodNoReply flags value
      else if name = "org.freedesktop.DBus.Property.EmitsChangedSignal".toList then
        setEmitsChangedSignal flags value
      else if name = "org.freedesktop.DBus.GLib.CSymbol".toList then { flags with cSymbol := value }
      else flags
  | _, _ => flags

def parseFlags (parentNode : Element) : Flags :=
  (parentNode.childElements "annotation".toList).foldl parseAnnotation {}

def parseArgument (argNode : Element) : Argument where
  name := (argNode.attribute? "name".toList).getD []
  type := (argNode.attribute? "type".toList).getD []
  direction := (argNode.attribute? "direction".toList).getD []
  flags := parseFlags argNode

def parseProperty (propNode : Element) : Property where
  name := (propNode.attribute? "name".toList).getD []
  type := (propNode.attribute? "type".toList).getD []
  access := (propNode.attribute? "access".toList).getD []
  flags := parseFlags propNode

def parseSignal (signalNode : Element) : Signal :=
  let named : Signal := { name := (signalNode.attribute? "name".toList).getD [] }
  let signal := (signalNode.childElements "arg".toList).foldl
    (fun signal arg => signal.add (parseArgument arg)) named
  { signal with flags := parseFlags signalNode }

def parseMethod (methodNode : Element) : Method :=
  let named : Method := { name := (methodNode.attribute? "name".toList).getD [] }
  let method := (methodNode.childElements "arg".toList).foldl
    (fun method arg => method.add (parseArgument arg)) named
  { method with flags := parseFlags methodNode }

def parseInterface (ifaceNode : Element) : Interface :=
  let named : Interface := { name := (ifaceNode.attribute? "name".toList).getD [] }
  let withMethods := (ifaceNode.childElements "method".toList).foldl
    (fun interface method => interface.add (parseMethod method)) named
  let withSignals := (ifaceNode.childElements "signal".toList).foldl
    (fun interface signal => interface.add (parseSignal signal)) withMethods
  let withProperties := (ifaceNode.childElements "property".toList).foldl
    (fun interface property => interface.add (parseProperty property)) withSignals
  { withProperties with flags := parseFlags ifaceNode }

/-- `std::string(const char*)` raises on the null pointer. -/
def stringOf : Option Str → Run Str
  | some text => .ok text
  | none => throwExn .logicError "basic_string: construction from null is not valid".toList

/-- The loop body for one `interface` element. -/
def takeInterface (state : ObjectPath × InterfaceContext) (iface : Element) :
    Run (ObjectPath × InterfaceContext) := do
  let name ← stringOf (iface.attribute? "name".toList)
  return (state.1.addInterface name, state.2.addInterface (parseInterface iface))

/-- The loop body for one `node` element. -/
def takeChild (objectPath : ObjectPath) (child : Element) : ObjectPath :=
  match child.attribute? "name".toList with
  | some name => objectPath.addChildpath name
  | none => objectPath

/-- A document without a root element gives a default object, whose path is empty. -/
def parseSingleObjectPath (node : Option Element) (path : Str) (context : InterfaceContext) :
    Run (ObjectPath × InterfaceContext) :=
  match node with
  | none => return ({}, context)
  | some node => do
      let (objectPath, context) ←
        (node.childElements "interface".toList).foldlM takeInterface ({ path := path }, context)
      return ((node.childElements "node".toList).foldl takeChild objectPath, context)

/-! ### What a document says -/

/-- The interfaces a document declares, in document order. -/
def declared (node : Element) : List Interface :=
  (node.childElements "interface".toList).map parseInterface

def interfaceNames (node : Element) : List Str :=
  (node.childElements "interface".toList).filterMap (·.attribute? "name".toList)

def childNames (node : Element) : List Str :=
  (node.childElements "node".toList).filterMap (·.attribute? "name".toList)

/-- Every interface element has a name. -/
def Named (node : Element) : Prop :=
  ∀ iface ∈ node.childElements "interface".toList, (iface.attribute? "name".toList).isSome

instance (node : Element) : Decidable (Named node) :=
  inferInstanceAs (Decidable (∀ iface ∈ node.childElements "interface".toList, _))

/-- The object a document with a root element describes. -/
def describedObject (path : Str) (node : Element) : ObjectPath where
  path := path
  interfaces := interfaceNames node
  childrenPaths := childNames node

/-! ### The parser reads exactly that -/

theorem name_foldl_add {T : Type} [Member T]
    (keepsName : ∀ (interface : Interface) (members : OrderedMap Str T),
      (Member.withContainer interface members).name = interface.name)
    (parse : Element → T) (nodes : List Element) (interface : Interface) :
    (nodes.foldl (fun interface node => interface.add (parse node)) interface).name =
      interface.name := by
  induction nodes generalizing interface with
  | nil => rfl
  | cons node rest ih => exact (ih _).trans (keepsName _ _)

/-- Adding members leaves the name alone, so it stays the one of the attribute. -/
theorem parseInterface_name (ifaceNode : Element) :
    (parseInterface ifaceNode).name = (ifaceNode.attribute? "name".toList).getD [] := by
  have methods := name_foldl_add (T := Method) (fun _ _ => rfl) parseMethod
  have signals := name_foldl_add (T := Signal) (fun _ _ => rfl) parseSignal
  have properties := name_foldl_add (T := Property) (fun _ _ => rfl) parseProperty
  simp only [parseInterface, properties, signals, methods]

theorem takeInterface_eq_ok {iface : Element} {state after : ObjectPath × InterfaceContext} :
    takeInterface state iface = .ok after ↔ ∃ name, iface.attribute? "name".toList = some name ∧
      after = (state.1.addInterface name, state.2.addInterface (parseInterface iface)) := by
  rw [takeInterface, Cxx.bind_eq_ok]
  cases iface.attribute? "name".toList with
  | none => simp only [stringOf, Cxx.throwExn_ne_ok, false_and, exists_false, reduceCtorEq]
  | some name =>
      constructor
      · rintro ⟨taken, same, rest⟩
        cases same
        cases rest
        exact ⟨_, rfl, rfl⟩
      · rintro ⟨taken, same, rfl⟩
        cases same
        exact ⟨_, rfl, rfl⟩

theorem takeInterfaces_eq_ok {ifaces : List Element} {state after : ObjectPath × InterfaceContext} :
    ifaces.foldlM takeInterface state = .ok after ↔
      (∀ iface ∈ ifaces, (iface.attribute? "name".toList).isSome) ∧ after =
        ({ state.1 with
            interfaces := state.1.interfaces ++ ifaces.filterMap (·.attribute? "name".toList) },
          (ifaces.map parseInterface).foldl InterfaceContext.addInterface state.2) := by
  induction ifaces generalizing state with
  | nil =>
      have same : after = state ↔ state = after := eq_comm
      simp [pure, Except.pure, same]
  | cons iface rest ih =>
      rw [List.foldlM_cons, Cxx.bind_eq_ok, List.forall_mem_cons]
      constructor
      · rintro ⟨next, taken, others⟩
        obtain ⟨name, found, rfl⟩ := takeInterface_eq_ok.mp taken
        obtain ⟨named, rfl⟩ := ih.mp others
        refine ⟨⟨Option.isSome_of_eq_some found, named⟩, ?_⟩
        rw [List.filterMap_cons_some found]
        simp [ObjectPath.addInterface]
      · rintro ⟨⟨first, named⟩, rfl⟩
        obtain ⟨name, found⟩ := Option.isSome_iff_exists.mp first
        refine ⟨_, takeInterface_eq_ok.mpr ⟨name, found, rfl⟩, ih.mpr ⟨named, ?_⟩⟩
        rw [List.filterMap_cons_some found]
        simp [ObjectPath.addInterface]

theorem takeChildren (children : List Element) (objectPath : ObjectPath) :
    children.foldl takeChild objectPath = { objectPath with
      childrenPaths :=
        objectPath.childrenPaths ++ children.filterMap (·.attribute? "name".toList) } := by
  induction children generalizing objectPath with
  | nil => simp
  | cons child rest ih =>
      rw [List.foldl_cons, ih, takeChild]
      cases found : child.attribute? "name".toList with
      | none => rw [List.filterMap_cons_none found]
      | some name =>
          rw [List.filterMap_cons_some found]
          simp [ObjectPath.addChildpath]

/-- With a root element the call returns exactly when every interface has a name, and then gives
the object the document describes and registers every interface it declares. -/
theorem parseSingleObjectPath_some {node : Element} {path : Str} {context : InterfaceContext}
    {result : ObjectPath × InterfaceContext} :
    parseSingleObjectPath (some node) path context = .ok result ↔
      Named node ∧ result =
        (describedObject path node, (declared node).foldl InterfaceContext.addInterface context) := by
  rw [parseSingleObjectPath, Cxx.bind_eq_ok]
  constructor
  · rintro ⟨taken, parsed, returned⟩
    obtain ⟨named, rfl⟩ := takeInterfaces_eq_ok.mp parsed
    refine ⟨named, ?_⟩
    cases returned
    rw [takeChildren]
    rfl
  · rintro ⟨named, rfl⟩
    refine ⟨_, takeInterfaces_eq_ok.mpr ⟨named, rfl⟩, ?_⟩
    dsimp only
    rw [takeChildren]
    rfl

/-- Whatever else is missing in a document, only the name of an interface is needed for the call
to return. -/
theorem parseSingleObjectPath_returns_iff (node : Option Element) (path : Str)
    (context : InterfaceContext) :
    (∃ result, parseSingleObjectPath node path context = .ok result) ↔
      ∀ root, node = some root → Named root := by
  cases node with
  | none =>
      constructor
      · intro _ root impossible
        contradiction
      · intro _
        exact ⟨_, rfl⟩
  | some root =>
      constructor
      · rintro ⟨result, returned⟩ other same
        cases same
        exact (parseSingleObjectPath_some.mp returned).1
      · intro named
        exact ⟨_, parseSingleObjectPath_some.mpr ⟨named root rfl, rfl⟩⟩

/-- An interface without a name, and the call raises. -/
theorem parseSingleObjectPath_nameless :
    Cxx.Throws (parseSingleObjectPath (some (.mk "node".toList [] [.mk "interface".toList [] []]))
      "/".toList {}) ∧
    ¬ ∃ result, parseSingleObjectPath (some (.mk "node".toList [] [.mk "interface".toList [] []]))
      "/".toList {} = .ok result := by
  have raised : Cxx.Throws (parseSingleObjectPath
      (some (.mk "node".toList [] [.mk "interface".toList [] []])) "/".toList {}) := ⟨_, rfl⟩
  refine ⟨raised, ?_⟩
  rintro ⟨result, returned⟩
  exact raised.ne_ok result returned

end DbusSerialization

end Dbus2Http
