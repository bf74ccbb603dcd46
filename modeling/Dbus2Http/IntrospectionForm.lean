import Dbus2Http.InterfaceJson
import Dbus2Http.RegistryInvariant

set_option autoImplicit false

namespace Dbus2Http

open Cxx (Str Run)

namespace DbusSerialization

/-! ### Flags -/

/-- The value an annotation gives to a flag, if it is about this flag and its value is understood. -/
def recognised {β : Type} (key : Str) (understood : Str → Option β) (node : Element) :
    Option β :=
  match node.attribute? "name".toList, node.attribute? "value".toList with
  | some name, some value => if name = key then understood value else none
  | _, _ => none

def truth (value : Str) : Option Bool :=
  if value = "true".toList then some true else if value = "false".toList then some false else none

def emission (value : Str) : Option EmitsChangedSignal :=
  if value = "true".toList then some .true
  else if value = "false".toList then some .false
  else if value = "invalidates".toList then some .invalidates
  else if value = "const".toList then some .const
  else none

/-- The last value that is understood, for each flag on its own. -/
def lastRecognised {β : Type} (key : Str) (understood : Str → Option β) (node : Element) : Option β :=
  ((node.childElements "annotation".toList).filterMap (recognised key understood)).getLast?

section Annotation

variable (flags : Flags) (value : Str)

theorem setDeprecated_eq : setDeprecated flags value =
    { flags with deprecated := (truth value).getD flags.deprecated } := by
  unfold setDeprecated truth
  split_ifs <;> rfl

theorem setMethodNoReply_eq : setMethodNoReply flags value =
    { flags with methodNoReply := (truth value).getD flags.methodNoReply } := by
  unfold setMethodNoReply truth
  split_ifs <;> rfl

theorem setEmitsChangedSignal_eq : setEmitsChangedSignal flags value =
    { flags with emitsChangedSignal := (emission value).getD flags.emitsChangedSignal } := by
  unfold setEmitsChangedSignal emission
  split_ifs <;> rfl

/-- Each annotation is about one flag at most. -/
theorem parseAnnotation_eq (node : Element) : parseAnnotation flags node = {
    deprecated := (recognised "org.freedesktop.DBus.Deprecated".toList truth node).getD flags.deprecated
    methodNoReply :=
      (recognised "org.freedesktop.DBus.Method.NoReply".toList truth node).getD flags.methodNoReply
    privileged := flags.privileged
    emitsChangedSignal := (recognised "org.freedesktop.DBus.Property.EmitsChangedSignal".toList
      emission node).getD flags.emitsChangedSignal
    cSymbol := (recognised "org.freedesktop.DBus.GLib.CSymbol".toList some node).getD flags.cSymbol } := by
  unfold parseAnnotation recognised
  cases node.attribute? "name".toList with
  | none => rfl
  | some name =>
      cases node.attribute? "value".toList with
      | none => rfl
      | some value =>
          dsimp only
          by_cases deprecated : name = "org.freedesktop.DBus.Deprecated".toList
          · subst deprecated
            rw [setDeprecated_eq]
            rfl
          · by_cases noReply : name = "org.freedesktop.DBus.Method.NoReply".toList
            · subst noReply
              rw [if_neg deprecated, if_pos rfl, setMethodNoReply_eq]
              rfl
            · by_cases emits : name = "org.freedesktop.DBus.Property.EmitsChangedSignal".toList
              · subst emits
                rw [if_neg deprecated, if_neg noReply, if_pos rfl, setEmitsChangedSignal_eq]
                rfl
              · by_cases symbol : name = "org.freedesktop.DBus.GLib.CSymbol".toList
                · subst symbol
                  rfl
                · simp only [deprecated, noReply, emits, symbol, ↓reduceIte, Option.getD_none]

end Annotation

/-- Every flag holds the last value given to it that is understood, or its default; nothing sets
`privileged`. -/
theorem parseFlags_eq (node : Element) : parseFlags node = {
    deprecated := (lastRecognised "org.freedesktop.DBus.Deprecated".toList truth node).getD false
    methodNoReply := (lastRecognised "org.freedesktop.DBus.Method.NoReply".toList truth node).getD false
    privileged := false
    emitsChangedSignal := (lastRecognised "org.freedesktop.DBus.Property.EmitsChangedSignal".toList
      emission node).getD .true
    cSymbol := (lastRecognised "org.freedesktop.DBus.GLib.CSymbol".toList some node).getD [] } := by
  have last {β : Type} (read : Flags → β) {key : Str} {understood : Str → Option β}
      (step : ∀ flags node,
        read ( parseAnnotation flags node) = (recognised key understood node).getD (read flags)) :
      read (parseFlags node) = (lastRecognised key understood node).getD (read {}) :=
    OrderedMap.foldl_last read (recognised key understood) step _ {}
  have privileged : (parseFlags node).privileged = false := by
    refine List.foldlRecOn (motive := fun flags : Flags => flags.privileged = false) _ _ rfl ?_
    intro flags kept node _
    rw [parseAnnotation_eq]
    exact kept
  have deprecated := last Flags.deprecated fun flags node => congrArg _ ( parseAnnotation_eq flags node)
  have methodNoReply := last Flags.methodNoReply
    fun flags node => congrArg _ ( parseAnnotation_eq flags node)
  have emits := last Flags.emitsChangedSignal fun flags node => congrArg _ ( parseAnnotation_eq flags node)
  have cSymbol := last Flags.cSymbol fun flags node => congrArg _ ( parseAnnotation_eq flags node)
  cases parsed : parseFlags node
  rw [parsed] at privileged deprecated methodNoReply emits cSymbol
  simp only at privileged deprecated methodNoReply emits cSymbol
  rw [privileged, deprecated, methodNoReply, emits, cSymbol]

/-! ### A document for given interfaces -/

def annotationElement (name value : Str) : Element :=
  .mk "annotation".toList [("name".toList, name), ("value".toList, value)] []

def annotationIf (keep : Bool) (name value : Str) : List Element :=
  if keep then [annotationElement name value] else []

def emissionText : EmitsChangedSignal → Str
  | .true => "true".toList
  | .invalidates => "invalidates".toList
  | .const => "const".toList
  | .false => "false".toList

/-- The annotations that set what differs from its default. -/
def annotations (flags : Flags) : List Element :=
  annotationIf flags.deprecated "org.freedesktop.DBus.Deprecated".toList "true".toList ++
    (annotationIf flags.methodNoReply "org.freedesktop.DBus.Method.NoReply".toList "true".toList ++
    (annotationIf (flags.emitsChangedSignal ≠ .true)
      "org.freedesktop.DBus.Property.EmitsChangedSignal".toList (emissionText flags.emitsChangedSignal) ++
    annotationIf (flags.cSymbol ≠ []) "org.freedesktop.DBus.GLib.CSymbol".toList flags.cSymbol))

def argumentElement (arg : Argument) : Element :=
  .mk "arg".toList [("name".toList, arg.name), ("type".toList, arg.type),
    ("direction".toList, arg.direction)] (annotations arg.flags)

def methodElement (method : Method) : Element :=
  .mk "method".toList [("name".toList, method.name)]
    (method.args.map argumentElement ++ annotations method.flags)

def signalElement (signal : Signal) : Element :=
  .mk "signal".toList [("name".toList, signal.name)]
    (signal.args.map argumentElement ++ annotations signal.flags)

def propertyElement (property : Property) : Element :=
  .mk "property".toList [("name".toList, property.name), ("type".toList, property.type),
    ("access".toList, property.access)] (annotations property.flags)

def interfaceElement (interface : Interface) : Element :=
  .mk "interface".toList [("name".toList, interface.name)]
    (interface.methods.entries.map (fun entry => methodElement entry.2) ++
      (interface.signals.entries.map (fun entry => signalElement entry.2) ++
      (interface.properties.entries.map (fun entry => propertyElement entry.2) ++
      annotations interface.flags)))

def childElement (name : Str) : Element := .mk "node".toList [("name".toList, name)] []

def documentOf (interfaces : List Interface) (children : List Str) : Element :=
  .mk "node".toList [] (interfaces.map interfaceElement ++ children.map childElement)

/-! ### The parser reads it back -/

theorem filter_own {nodes : List Element} {own : Str} (named : ∀ node ∈ nodes, node.name = own)
    (wanted : Str) :
    nodes.filter (fun node => node.name = wanted) = if own = wanted then nodes else [] := by
  by_cases same : own = wanted
  · rw [if_pos same, List.filter_eq_self]
    intro node inside
    exact decide_eq_true ((named node inside).trans same)
  · rw [if_neg same, List.filter_eq_nil_iff]
    intro node inside found
    exact same ((named node inside).symm.trans (of_decide_eq_true found))

theorem filter_map_own {ι : Type} (element : ι → Element) (own : Str)
    (named : ∀ x, (element x).name = own) (xs : List ι) (wanted : Str) :
    (xs.map element).filter (fun node => node.name = wanted) =
      if own = wanted then xs.map element else [] := by
  refine filter_own (fun node inside => ?_) wanted
  obtain ⟨x, -, rfl⟩ := List.mem_map.mp inside
  exact named x

theorem filter_annotations (flags : Flags) (wanted : Str) :
    (annotations flags).filter (fun node => node.name = wanted) =
      if "annotation".toList = wanted then annotations flags else [] := by
  refine filter_own (fun node inside => ?_) wanted
  have own {keep : Bool} {name value : Str} (here : node ∈ annotationIf keep name value) :
      node.name = "annotation".toList := by
    cases keep with
    | false => cases here
    | true => rw [List.mem_singleton.mp here]; rfl
  simp only [annotations, List.mem_append] at inside
  rcases inside with here | here | here | here <;> exact own here

theorem recognised_annotationElement {β : Type} (key : Str) (understood : Str → Option β)
    (name value : Str) : recognised key understood (annotationElement name value) =
      if name = key then understood value else none := rfl

theorem filterMap_annotationIf {β : Type} (key : Str) (understood : Str → Option β) (keep : Bool)
    (name value : Str) : (annotationIf keep name value).filterMap (recognised key understood) =
      if keep = true ∧ name = key then (understood value).toList else [] := by
  cases keep with
  | false => simp [annotationIf]
  | true =>
      rw [annotationIf, if_pos rfl, List.filterMap_cons, List.filterMap_nil, recognised_annotationElement]
      by_cases same : name = key
      · rw [if_pos same, if_pos ⟨rfl, same⟩]
        cases understood value <;> rfl
      · rw [if_neg same, if_neg fun both => same both.2]

theorem emission_emissionText (e : EmitsChangedSignal) : emission (emissionText e) = some e := by
  cases e <;> rfl

theorem parseFlags_annotations {node : Element} {flags : Flags}
    (held : node.childElements "annotation".toList = annotations flags)
    (unprivileged : flags.privileged = false) : parseFlags node = flags := by
  rw [parseFlags_eq]
  simp only [lastRecognised, held, annotations, List.filterMap_append, filterMap_annotationIf]
  obtain ⟨deprecated, methodNoReply, privileged, emits, cSymbol⟩ := flags
  simp only at unprivileged
  subst unprivileged
  have emitted : (emission (emissionText emits)).toList = [emits] := by rw [emission_emissionText]; rfl
  congr 1
  · cases deprecated <;> simp [truth]
  · cases methodNoReply <;> simp [truth]
  · by_cases default : emits = .true <;> simp [default, emitted]
  · by_cases empty : cSymbol = [] <;> simp [empty]

theorem parseArgument_element {arg : Argument} (unprivileged : arg.flags.privileged = false) :
    parseArgument (argumentElement arg) = arg := by
  have flags : parseFlags (argumentElement arg) = arg.flags :=
    parseFlags_annotations (filter_annotations _ _) unprivileged
  rw [parseArgument, flags]
  rfl

theorem parseProperty_element {property : Property} (unprivileged : property.flags.privileged = false) :
    parseProperty (propertyElement property) = property := by
  have flags : parseFlags (propertyElement property) = property.flags :=
    parseFlags_annotations (filter_annotations _ _) unprivileged
  rw [parseProperty, flags]
  rfl

/-- The arguments stand before the annotations. -/
theorem filter_argElements (args : List Argument) (flags : Flags) (wanted : Str) :
    (args.map argumentElement ++ annotations flags).filter (fun node => node.name = wanted) =
      (if "arg".toList = wanted then args.map argumentElement else []) ++
        if "annotation".toList = wanted then annotations flags else [] := by
  rw [List.filter_append, filter_map_own argumentElement "arg".toList fun _ => rfl, filter_annotations]

theorem parseSignal_element {signal : Signal} (unprivileged : signal.flags.privileged = false)
    (args : ∀ arg ∈ signal.args, arg.flags.privileged = false) :
    parseSignal (signalElement signal) = signal := by
  have flags : parseFlags (signalElement signal) = signal.flags :=
    parseFlags_annotations (filter_argElements _ _ _) unprivileged
  have added (left : List Argument) (kept : ∀ arg ∈ left, arg.flags.privileged = false) (read : Signal) :
      (left.map argumentElement).foldl (fun signal arg => signal.add (parseArgument arg)) read =
        { read with args := read.args ++ left } := by
    induction left generalizing read with
    | nil => rw [List.append_nil]; rfl
    | cons arg left ih =>
        obtain ⟨first, others⟩ := List.forall_mem_cons.mp kept
        rw [List.map_cons, List.foldl_cons, parseArgument_element first, ih others]
        simp [Signal.add]
  have children : (signalElement signal).childElements "arg".toList = signal.args.map argumentElement :=
    (filter_argElements _ _ _).trans (List.append_nil _)
  rw [parseSignal, flags, children, added _ args]
  rfl

theorem parseMethod_element {method : Method} (named : method.ArgumentsNamed)
    (unprivileged : method.flags.privileged = false)
    (args : ∀ arg ∈ method.args, arg.flags.privileged = false) :
    parseMethod (methodElement method) = method := by
  have flags : parseFlags (methodElement method) = method.flags :=
    parseFlags_annotations (filter_argElements _ _ _) unprivileged
  have added (left : List Argument) (kept : ∀ arg ∈ left, arg.name ≠ [] ∧ arg.flags.privileged = false)
      (read : Method) :
      (left.map argumentElement).foldl (fun method arg => method.add (parseArgument arg)) read =
        { read with args := read.args ++ left } := by
    induction left generalizing read with
    | nil => rw [List.append_nil]; rfl
    | cons arg left ih =>
        obtain ⟨first, others⟩ := List.forall_mem_cons.mp kept
        rw [List.map_cons, List.foldl_cons, parseArgument_element first.2, ih others]
        simp [Method.add, first.1]
  have children : (methodElement method).childElements "arg".toList = method.args.map argumentElement :=
    (filter_argElements _ _ _).trans (List.append_nil _)
  rw [parseMethod, flags, children, added _ fun arg inside => ⟨named arg inside, args arg inside⟩]
  rfl

/-- Members that are read back go to their places in the map again. -/
theorem members_back {T : Type} [Member T] {parse : Element → T} {element : T → Element}
    (withContainer_withContainer : ∀ (interface : Interface) (first second : OrderedMap Str T),
      Member.withContainer (Member.withContainer interface first) second =
        Member.withContainer interface second)
    (container_withContainer : ∀ (interface : Interface) (members : OrderedMap Str T),
      Member.container (Member.withContainer interface members) = members)
    (withContainer_container : ∀ interface : Interface,
      Member.withContainer interface (Member.container (T := T) interface) = interface)
    {members : OrderedMap Str T} (keyed : KeyedByName members)
    (back : ∀ name member, members.find? name = some member → parse (element member) = member)
    (interface : Interface) (empty : Member.container (T := T) interface = .empty) :
    (members.entries.map fun entry => element entry.2).foldl
        (fun interface node => interface.add (parse node)) interface =
      Member.withContainer interface members := by
  have added (left : List (Str × T))
      (kept : ∀ entry ∈ left, Member.name entry.2 = entry.1 ∧ parse (element entry.2) = entry.2)
      (read : Interface) :
      (left.map fun entry => element entry.2).foldl
          (fun interface node => interface.add (parse node)) read =
        Member.withContainer read
          (left.foldl (fun m entry => m.insert entry.1 entry.2) (Member.container read)) := by
    induction left generalizing read with
    | nil => exact (withContainer_container read).symm
    | cons entry left ih =>
        obtain ⟨⟨name, same⟩, others⟩ := List.forall_mem_cons.mp kept
        rw [List.map_cons, List.foldl_cons, same, ih others, Interface.add, name, container_withContainer,
          withContainer_withContainer]
        rfl
  rw [added _ _ interface, empty, OrderedMap.foldl_insert_entries]
  intro entry inside
  have found := members.find?_of_mem inside
  exact ⟨keyed _ _ found, back _ _ found⟩

end DbusSerialization

/-! ### What can be declared -/

def Method.Unprivileged (method : Method) : Prop :=
  method.flags.privileged = false ∧ ∀ arg ∈ method.args, arg.flags.privileged = false

def Signal.Unprivileged (signal : Signal) : Prop :=
  signal.flags.privileged = false ∧ ∀ arg ∈ signal.args, arg.flags.privileged = false

structure Interface.MembersUnprivileged (interface : Interface) : Prop where
  methods : ∀ name method, interface.methods.find? name = some method → method.Unprivileged
  signals : ∀ name signal, interface.signals.find? name = some signal → signal.Unprivileged
  properties : ∀ name property, interface.properties.find? name = some property →
    property.flags.privileged = false

/-- An interface is stored as the registry stores it, and no flag is set that no annotation sets. -/
structure Interface.Declarable (interface : Interface) : Prop where
  keyed : interface.WellKeyed
  flags : interface.flags.privileged = false
  members : interface.MembersUnprivileged

namespace DbusSerialization

theorem parseInterface_element {interface : Interface} (declarable : interface.Declarable) :
    parseInterface (interfaceElement interface) = interface := by
  have children (wanted : Str) : (interfaceElement interface).childElements wanted =
      (if "method".toList = wanted then
        interface.methods.entries.map (fun entry => methodElement entry.2) else []) ++
      ((if "signal".toList = wanted then
        interface.signals.entries.map (fun entry => signalElement entry.2) else []) ++
      ((if "property".toList = wanted then
        interface.properties.entries.map (fun entry => propertyElement entry.2) else []) ++
      if "annotation".toList = wanted then annotations interface.flags else [])) := by
    rw [interfaceElement, Element.childElements, List.filter_append, List.filter_append,
      List.filter_append, filter_annotations,
      filter_map_own (fun entry : Str × Method => methodElement entry.2) "method".toList
        fun _ => rfl,
      filter_map_own (fun entry : Str × Signal => signalElement entry.2) "signal".toList
        fun _ => rfl,
      filter_map_own (fun entry : Str × Property => propertyElement entry.2) "property".toList
        fun _ => rfl]
  have flags : parseFlags (interfaceElement interface) = interface.flags :=
    parseFlags_annotations (children _) declarable.flags
  have methods := members_back (T := Method) (fun _ _ _ => rfl) (fun _ _ => rfl) (fun _ => rfl)
    declarable.keyed.methods
    (fun name method found => parseMethod_element (declarable.keyed.arguments name method found)
      (declarable.members.methods name method found).1
      (declarable.members.methods name method found).2)
  have signals := members_back (T := Signal) (fun _ _ _ => rfl) (fun _ _ => rfl) (fun _ => rfl)
    declarable.keyed.signals
    (fun name signal found => parseSignal_element (declarable.members.signals name signal found).1
      (declarable.members.signals name signal found).2)
  have properties := members_back (T := Property) (fun _ _ _ => rfl) (fun _ _ => rfl) (fun _ => rfl)
    declarable.keyed.properties
    (fun name property found =>
      parseProperty_element (declarable.members.properties name property found))
  have methodNodes : (interfaceElement interface).childElements "method".toList =
      interface.methods.entries.map fun entry => methodElement entry.2 :=
    (children _).trans (List.append_nil _)
  have signalNodes : (interfaceElement interface).childElements "signal".toList =
      interface.signals.entries.map fun entry => signalElement entry.2 :=
    (children _).trans (List.append_nil _)
  have propertyNodes : (interfaceElement interface).childElements "property".toList =
      interface.properties.entries.map fun entry => propertyElement entry.2 :=
    (children _).trans (List.append_nil _)
  rw [parseInterface, flags, methodNodes, signalNodes, propertyNodes]
  rw [methods _ rfl, signals _ rfl, properties _ rfl]
  rfl

/-! ### Only these are read -/

theorem parseFlags_unprivileged (node : Element) : (parseFlags node).privileged = false := by
  rw [parseFlags_eq]

theorem parseMethod_unprivileged (methodNode : Element) : (parseMethod methodNode).Unprivileged := by
  refine ⟨parseFlags_unprivileged _, ?_⟩
  refine List.foldlRecOn
    (motive := fun method : Method => ∀ arg ∈ method.args, arg.flags.privileged = false) _ _ (by simp) ?_
  intro method kept node _ arg inside
  rcases List.mem_append.mp inside with old | new
  · exact kept arg old
  · rw [List.mem_singleton.mp new]
    split <;> exact parseFlags_unprivileged node

theorem parseSignal_unprivileged (signalNode : Element) : (parseSignal signalNode).Unprivileged := by
  refine ⟨parseFlags_unprivileged _, ?_⟩
  refine List.foldlRecOn
    (motive := fun signal : Signal => ∀ arg ∈ signal.args, arg.flags.privileged = false) _ _ (by simp) ?_
  intro signal kept node _ arg inside
  rcases List.mem_append.mp inside with old | new
  · exact kept arg old
  · rw [List.mem_singleton.mp new]
    exact parseFlags_unprivileged node

theorem parseInterface_declarable (ifaceNode : Element) : (parseInterface ifaceNode).Declarable := by
  have start (name : Str) : Interface.MembersUnprivileged { name := name } :=
    ⟨(fun _ _ found => by cases found), (fun _ _ found => by cases found),
      fun _ _ found => by cases found⟩
  have methods := List.foldlRecOn (motive := Interface.MembersUnprivileged)
    (ifaceNode.childElements "method".toList)
    (fun interface method => interface.add (parseMethod method))
    (start ((ifaceNode.attribute? "name".toList).getD []))
    fun _ kept method _ => ⟨OrderedMap.forall_find?_insert (parseMethod_unprivileged method) kept.methods,
      kept.signals, kept.properties⟩
  have signals := List.foldlRecOn (motive := Interface.MembersUnprivileged)
    (ifaceNode.childElements "signal".toList)
    (fun interface signal => interface.add (parseSignal signal)) methods
    fun _ kept signal _ => ⟨kept.methods,
      OrderedMap.forall_find?_insert (parseSignal_unprivileged signal) kept.signals, kept.properties⟩
  have properties := List.foldlRecOn (motive := Interface.MembersUnprivileged)
    (ifaceNode.childElements "property".toList)
    (fun interface property => interface.add (parseProperty property)) signals
    fun _ kept property _ => ⟨kept.methods, kept.signals,
      OrderedMap.forall_find?_insert (parseFlags_unprivileged property) kept.properties⟩
  exact ⟨parseInterface_wellKeyed ifaceNode, parseFlags_unprivileged ifaceNode,
    ⟨properties.methods, properties.signals, properties.properties⟩⟩

theorem interfaceElements (interfaces : List Interface) (children : List Str) :
    (documentOf interfaces children).childElements "interface".toList =
        interfaces.map interfaceElement ∧
      (documentOf interfaces children).childElements "node".toList = children.map childElement := by
  have both (wanted : Str) : (documentOf interfaces children).childElements wanted =
      (if "interface".toList = wanted then interfaces.map interfaceElement else []) ++
        if "node".toList = wanted then children.map childElement else [] := by
    rw [documentOf, Element.childElements, List.filter_append,
      filter_map_own interfaceElement "interface".toList fun _ => rfl,
      filter_map_own childElement "node".toList fun _ => rfl]
  exact ⟨(both _).trans (List.append_nil _), both _⟩

/-- The interfaces that an introspection document can declare are just those that the registry may
hold with no flag `privileged`, and a document that declares some of them and some children is read
as the object that has these, with exactly these interfaces added to the registry in their order. -/
theorem introspection_exact :
    (∀ interface, (∃ ifaceNode, parseInterface ifaceNode = interface) ↔ interface.Declarable) ∧
      ∀ (interfaces : List Interface) (children : List Str) (path : Str) (context : InterfaceContext),
        (∀ interface ∈ interfaces, interface.Declarable) →
          parseSingleObjectPath (some (documentOf interfaces children)) path context =
            .ok (⟨path, interfaces.map Interface.name, children⟩,
              interfaces.foldl InterfaceContext.addInterface context) := by
  constructor
  · intro interface
    constructor
    · rintro ⟨ifaceNode, rfl⟩
      exact parseInterface_declarable ifaceNode
    · intro declarable
      exact ⟨interfaceElement interface, parseInterface_element declarable⟩
  · intro interfaces children path context declarable
    obtain ⟨interfaceNodes, childNodes⟩ := interfaceElements interfaces children
    rw [parseSingleObjectPath_some]
    have names : interfaceNames (documentOf interfaces children) = interfaces.map Interface.name := by
      rw [interfaceNames, interfaceNodes, List.filterMap_map]
      change interfaces.filterMap (some ∘ Interface.name) = _
      rw [List.filterMap_eq_map]
    have childrenPaths : childNames (documentOf interfaces children) = children := by
      rw [childNames, childNodes, List.filterMap_map]
      exact List.filterMap_some
    have all : declared (documentOf interfaces children) = interfaces := by
      rw [declared, interfaceNodes, List.map_map]
      refine (List.map_congr_left fun interface inside => ?_).trans (List.map_id _)
      exact parseInterface_element (declarable interface inside)
    refine ⟨?_, by rw [describedObject, names, childrenPaths, all]⟩
    rw [Named, interfaceNodes]
    rintro _ inside
    obtain ⟨interface, -, rfl⟩ := List.mem_map.mp inside
    rfl

def dim : Method where
  name := "Dim".toList
  args := [{ name := "level".toList, type := "y".toList, direction := "in".toList }]
  flags := { methodNoReply := true }

def dimmer : Interface where
  name := "a.Dimmer".toList
  methods := OrderedMap.empty.insert "Dim".toList dim
  flags := { emitsChangedSignal := .const, cSymbol := "dimmer".toList }

theorem dimmer_declarable : dimmer.Declarable where
  keyed := {
    methods := KeyedByName.empty.insert dim
    signals := .empty
    properties := .empty
    arguments := OrderedMap.forall_find?_insert (by simp [Method.ArgumentsNamed, dim])
      fun _ _ found => by cases found }
  flags := rfl
  members := {
    methods := OrderedMap.forall_find?_insert (by simp [Method.Unprivileged, dim])
      fun _ _ found => by cases found
    signals := fun _ _ found => by cases found
    properties := fun _ _ found => by cases found }

theorem dimmer_read : parseSingleObjectPath (some (documentOf [dimmer] ["x".toList])) "/".toList {} =
    .ok (⟨"/".toList, ["a.Dimmer".toList], ["x".toList]⟩, InterfaceContext.addInterface {} dimmer) :=
  introspection_exact.2 [dimmer] ["x".toList] "/".toList {}
    (List.forall_mem_singleton.mpr dimmer_declarable)

end DbusSerialization

end Dbus2Http
