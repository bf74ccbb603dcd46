import Dbus2Http.ScanExact
import Dbus2Http.ScanSteps
import Dbus2Http.TypedCalls

set_option autoImplicit false

namespace Dbus2Http

open Cxx (Str)

/-! ### Interfaces -/

/-- Every member is stored under its own name. -/
def KeyedByName {T : Type} [Member T] (members : OrderedMap Str T) : Prop :=
  ∀ name member, members.find? name = some member → Member.name member = name

theorem KeyedByName.empty {T : Type} [Member T] : KeyedByName (T := T) .empty := by
  intro name member found
  cases found

theorem KeyedByName.insert {T : Type} [Member T] {members : OrderedMap Str T}
    (keyed : KeyedByName members) (added : T) :
    KeyedByName (members.insert (Member.name added) added) :=
  OrderedMap.forall_find?_insert rfl keyed

/-- Every argument has a name. -/
def Method.ArgumentsNamed (method : Method) : Prop := ∀ arg ∈ method.args, arg.name ≠ []

theorem Method.ArgumentsNamed.add {method : Method} (named : method.ArgumentsNamed)
    (arg : Argument) : (method.add arg).ArgumentsNamed := by
  intro stored inside
  rcases List.mem_append.mp inside with old | new
  · exact named stored old
  · rw [List.mem_singleton.mp new]
    by_cases unnamed : arg.name = []
    · rw [if_pos unnamed]
      exact List.append_ne_nil_of_left_ne_nil (by decide) _
    · rwa [if_neg unnamed]

/-- The members of an interface are stored under their names, and the arguments of its methods
have names. -/
structure Interface.WellKeyed (interface : Interface) : Prop where
  methods : KeyedByName interface.methods
  signals : KeyedByName interface.signals
  properties : KeyedByName interface.properties
  arguments : ∀ name method, interface.methods.find? name = some method → method.ArgumentsNamed

namespace Interface.WellKeyed

variable {interface : Interface}

theorem addMethod (keyed : interface.WellKeyed) {method : Method} (named : method.ArgumentsNamed) :
    (interface.add method).WellKeyed where
  methods := keyed.methods.insert method
  signals := keyed.signals
  properties := keyed.properties
  arguments := OrderedMap.forall_find?_insert named keyed.arguments

theorem addSignal (keyed : interface.WellKeyed) (signal : Signal) :
    (interface.add signal).WellKeyed where
  methods := keyed.methods
  signals := keyed.signals.insert signal
  properties := keyed.properties
  arguments := keyed.arguments

theorem addProperty (keyed : interface.WellKeyed) (property : Property) :
    (interface.add property).WellKeyed where
  methods := keyed.methods
  signals := keyed.signals
  properties := keyed.properties.insert property
  arguments := keyed.arguments

end Interface.WellKeyed

namespace DbusSerialization

theorem parseMethod_named (methodNode : Element) : (parseMethod methodNode).ArgumentsNamed := by
  have folded : ∀ (args : List Element) (method : Method), method.ArgumentsNamed →
      (args.foldl (fun method arg => method.add (parseArgument arg)) method).ArgumentsNamed :=
    fun args method named =>
      List.foldlRecOn args _ named fun _ kept arg _ => kept.add (parseArgument arg)
  exact folded _ _ (by simp [Method.ArgumentsNamed])

/-- Whatever the document says, the parsed interface is well keyed. -/
theorem parseInterface_wellKeyed (ifaceNode : Element) : (parseInterface ifaceNode).WellKeyed := by
  have start : ∀ name : Str, Interface.WellKeyed { name := name } := fun name =>
    ⟨.empty, .empty, .empty, fun _ _ found => by cases found⟩
  have methods := List.foldlRecOn (motive := Interface.WellKeyed)
    (ifaceNode.childElements "method".toList)
    (fun interface method => interface.add (parseMethod method))
    (start ((ifaceNode.attribute? "name".toList).getD []))
    fun _ kept method _ => kept.addMethod (parseMethod_named method)
  have signals := List.foldlRecOn (motive := Interface.WellKeyed)
    (ifaceNode.childElements "signal".toList)
    (fun interface signal => interface.add (parseSignal signal)) methods
    fun _ kept signal _ => kept.addSignal (parseSignal signal)
  have properties := List.foldlRecOn (motive := Interface.WellKeyed)
    (ifaceNode.childElements "property".toList)
    (fun interface property => interface.add (parseProperty property)) signals
    fun _ kept property _ => kept.addProperty (parseProperty property)
  exact ⟨properties.methods, properties.signals, properties.properties, properties.arguments⟩

end DbusSerialization

/-! ### The registry -/

/-- Objects are stored under their paths and interfaces under their names, with members under
theirs; and every interface that a stored object lists is registered. -/
structure InterfaceContext.Coherent (context : InterfaceContext) : Prop where
  objects : ∀ service path object, context.object? service path = some object → object.path = path
  interfaces : ∀ name interface, context.interfaces.find? name = some interface →
    interface.name = name
  members : ∀ name interface, context.interfaces.find? name = some interface → interface.WellKeyed
  listed : ∀ service path object, context.object? service path = some object →
    ∀ name ∈ object.interfaces, context.containsInterface name = true

namespace InterfaceContext

theorem containsInterface_addInterface (context : InterfaceContext) (interface : Interface)
    (name : Str) : (context.addInterface interface).containsInterface name = true ↔
      name = interface.name ∨ context.containsInterface name = true := by
  simp [containsInterface, OrderedMap.contains_insert]

theorem Coherent.empty : Coherent {} where
  objects _ _ _ stored := by cases stored
  interfaces _ _ found := by cases found
  members _ _ found := by cases found
  listed _ _ _ stored := by cases stored

theorem Coherent.addInterface {context : InterfaceContext} (coherent : context.Coherent)
    {interface : Interface} (keyed : interface.WellKeyed) :
    (context.addInterface interface).Coherent where
  objects := coherent.objects
  interfaces := OrderedMap.forall_find?_insert rfl coherent.interfaces
  members := OrderedMap.forall_find?_insert keyed coherent.members
  listed := by
    intro service path object stored name inside
    rw [containsInterface_addInterface]
    exact .inr (coherent.listed service path object stored name inside)

theorem Coherent.addObjectPath {context : InterfaceContext} (coherent : context.Coherent)
    (service : Str) {object : ObjectPath}
    (registered : ∀ name ∈ object.interfaces, context.containsInterface name = true) :
    (context.addObjectPath service object).Coherent where
  objects := by
    intro wanted path found stored
    rw [object?_addObjectPath] at stored
    by_cases here : wanted = service ∧ path = object.path
    · rw [if_pos here] at stored
      rw [← Option.some.inj stored, here.2]
    · rw [if_neg here] at stored
      exact coherent.objects wanted path found stored
  interfaces := coherent.interfaces
  members := coherent.members
  listed := by
    intro wanted path found stored name inside
    rw [object?_addObjectPath] at stored
    by_cases here : wanted = service ∧ path = object.path
    · rw [if_pos here] at stored
      rw [← Option.some.inj stored] at inside
      exact registered name inside
    · rw [if_neg here] at stored
      exact coherent.listed wanted path found stored name inside

end InterfaceContext

namespace DbusEnumerator

open DbusSerialization

/-! ### Every step of the scanner -/

/-- What is still to be added fits the registry: interfaces are well keyed, and the interfaces of
an object are known by then. -/
def Ready (known : Str → Prop) : List Work → Prop
  | [] => True
  | .raise :: todo => Ready known todo
  | .visit _ _ :: todo => Ready known todo
  | .add (.interface interface) :: todo =>
      interface.WellKeyed ∧ Ready (fun name => name = interface.name ∨ known name) todo
  | .add (.object _ object) :: todo => (∀ name ∈ object.interfaces, known name) ∧ Ready known todo

theorem Ready.mono {known more : Str → Prop} {todo : List Work} (ready : Ready known todo)
    (grown : ∀ name, known name → more name) : Ready more todo := by
  induction todo generalizing known more with
  | nil => trivial
  | cons work todo ih =>
      cases work with
      | raise => exact ih ready grown
      | visit service path => exact ih ready grown
      | add write =>
          cases write with
          | interface interface =>
              exact ⟨ready.1, ih ready.2 fun name => Or.imp_right (grown name)⟩
          | object service object =>
              exact ⟨fun name inside => grown name (ready.1 name inside), ih ready.2 grown⟩

theorem ready_visits {known : Str → Prop} {todo : List Work} (ready : Ready known todo)
    (service : Str) (paths : List Str) :
    Ready known (paths.map (fun path => .visit service path) ++ todo) := by
  induction paths with
  | nil => exact ready
  | cons path paths ih => exact ih

/-- The interfaces of a document are ready, and what follows them may count on them. -/
theorem ready_interfaces {known : Str → Prop} {interfaces : List Interface} {todo : List Work}
    (keyed : ∀ interface ∈ interfaces, interface.WellKeyed)
    (after : Ready
      (fun name => (∃ interface ∈ interfaces, interface.name = name) ∨ known name) todo) :
    Ready known (interfaces.map (fun interface => .add (.interface interface)) ++ todo) := by
  induction interfaces generalizing known with
  | nil => exact after.mono fun name either => either.resolve_left (by simp)
  | cons interface interfaces ih =>
      refine ⟨keyed interface List.mem_cons_self, ?_⟩
      apply ih fun other inside => keyed other (List.mem_cons_of_mem _ inside)
      apply after.mono
      intro name either
      simp only [List.mem_cons, exists_eq_or_imp] at either
      rcases either with (same | later) | known
      · exact .inr (.inl same.symm)
      · exact .inl later
      · exact .inr (.inr known)

theorem declarations_wellKeyed {rootElement : Str → Option Element} {call : Introspection} :
    ∀ interface ∈ declarations rootElement call, interface.WellKeyed := by
  intro interface inside
  rw [declarations] at inside
  split at inside
  · obtain ⟨iface, _, rfl⟩ := List.mem_map.mp inside
    exact parseInterface_wellKeyed iface
  · simp at inside

/-- What an introspection adds is ready, since the object comes after its interfaces. -/
theorem ready_works {known : Str → Prop} {todo : List Work} (ready : Ready known todo)
    (rootElement : Str → Option Element) (call : Introspection) :
    Ready known (works rootElement call ++ todo) := by
  have object : Ready (fun name =>
      (∃ interface ∈ declarations rootElement call, interface.name = name) ∨ known name)
      (.add (.object call.service (objectOf rootElement call)) ::
        ((objectOf rootElement call).childrenPaths.map
          (fun child => .visit call.service (childPath call.path child)) ++ todo)) := by
    constructor
    · intro name listed
      exact .inl (exists_declaration listed).2
    · have grown : Ready (fun name =>
          (∃ interface ∈ declarations rootElement call, interface.name = name) ∨ known name) todo :=
        ready.mono fun name => Or.inr
      have visits := ready_visits grown call.service
        ((objectOf rootElement call).childrenPaths.map (childPath call.path))
      rw [List.map_map] at visits
      exact visits
  have whole := ready_interfaces declarations_wellKeyed object
  simpa [works, writes, Function.comp_def] using whole

theorem ready_beforeRaise (known : Str → Prop) (node : Element) :
    Ready known ((writesBeforeRaise node).map .add ++ [.raise]) := by
  rw [writesBeforeRaise]
  induction (node.childElements "interface".toList).takeWhile
      fun iface => (iface.attribute? "name".toList).isSome generalizing known with
  | nil => trivial
  | cons iface rest ih => exact ⟨parseInterface_wellKeyed iface, ih _⟩

/-- The registry is coherent, and what the scanner still has to add fits it. -/
structure Steady (scanner : Scanner) : Prop where
  coherent : scanner.context.Coherent
  ready : Ready (fun name => scanner.context.containsInterface name = true) scanner.todo

theorem ScanStep.steady {bus : Bus} {before after : Scanner} (step : ScanStep bus before after)
    (steady : Steady before) : Steady after := by
  cases step with
  | begin scan service path => exact ⟨steady.coherent, trivial⟩
  | visit todo answered named =>
      have rest : Ready _ todo := steady.ready
      exact ⟨steady.coherent, ready_works rest _ _⟩
  | unnamed todo answered root lacking => exact ⟨steady.coherent, ready_beforeRaise _ _⟩
  | add scan write todo =>
      have coherent : scan.context.Coherent := steady.coherent
      have ready : Ready _ (.add write :: todo) := steady.ready
      cases write with
      | interface interface =>
          refine ⟨coherent.addInterface ready.1, ready.2.mono ?_⟩
          intro name either
          exact (InterfaceContext.containsInterface_addInterface _ _ _).mpr either
      | object service object => exact ⟨coherent.addObjectPath service ready.1, ready.2⟩

theorem run_steady {bus : Bus} {scanner : Scanner} (run : ScanRun bus {} scanner) :
    Steady scanner := by
  induction run with
  | refl => exact ⟨.empty, trivial⟩
  | tail _ step steady => exact step.steady steady

/-- The registry is coherent after every single step of any scans, whatever the services answer. -/
theorem readers_see_coherent {bus : Bus} {scanner : Scanner} (run : ScanRun bus {} scanner) :
    scanner.context.Coherent :=
  (run_steady run).coherent

/-- The scans that return are runs of such steps. -/
theorem Scanned.run {bus : Bus} {scan : Scan} (scanned : Scanned bus scan) :
    ScanRun bus {} ⟨scan, []⟩ := by
  induction scanned with
  | start => exact .refl
  | scan _ done run => exact run.trans (.head (.begin _ _ _) (run_scan done []))

/-! ### The registry in the middle of a scan -/

/-- The scan of the lamps when the first object is stored. -/
def lampRooted : Scanner where
  scan := {
    context := recorded lampBus.rootElement {} ⟨"a.lamp".toList, "/".toList, lampText "/".toList⟩
    asked := [⟨"a.lamp".toList, "/".toList, lampText "/".toList⟩] }
  todo := [.visit "a.lamp".toList "/x".toList]

/-- The same scan between the two interfaces of the second object. -/
def lampSeen : Scanner where
  scan := {
    context := lampRooted.context.addInterface (parseInterface
      (.mk "interface".toList [("name".toList, "a.Dimmer".toList)] []))
    asked := lampRooted.scan.asked ++ [⟨"a.lamp".toList, "/x".toList, lampText "/x".toList⟩] }
  todo := [
    .add (.interface (parseInterface
      (.mk "interface".toList [("name".toList, "a.Lamp".toList)] []))),
    .add (.object "a.lamp".toList ⟨"/x".toList, ["a.Dimmer".toList, "a.Lamp".toList], []⟩)]

theorem lamp_rooted : ScanRun lampBus {} lampRooted := by
  have answered : ∀ node, lampBus.rootElement (lampText "/".toList) = some node → Named node := by
    intro node root
    cases root
    decide
  have visited : visit lampBus "a.lamp".toList "/".toList {} = .ok _ :=
    visit_eq_ok.mpr ⟨answered, rfl⟩
  exact .head (.begin {} "a.lamp".toList "/".toList) (run_visit visited [])

theorem lamp_seen : ScanRun lampBus lampRooted lampSeen := by
  have answered : ∀ node, lampBus.rootElement (lampText "/x".toList) = some node → Named node := by
    intro node root
    cases root
    decide
  exact .head (.visit [] rfl answered) (.single (.add _ (.interface _) _))

theorem lamp_seen_coherent : lampSeen.context.Coherent :=
  readers_see_coherent (lamp_rooted.trans lamp_seen)

end DbusEnumerator

end Dbus2Http
