import Dbus2Http.RegistryInvariant
import Dbus2Http.SharedStore

set_option autoImplicit false

namespace Dbus2Http

open Cxx (Str Run Fault)

/-! ### The registry only grows -/

namespace InterfaceContext

/-- What the one registry knows, the other knows as well. -/
structure Within (context later : InterfaceContext) : Prop where
  interfaces : ∀ name, context.containsInterface name = true → later.containsInterface name = true
  services : ∀ name, context.containsService name = true → later.containsService name = true
  objects : ∀ service path, (context.object? service path).isSome →
    (later.object? service path).isSome

theorem within_apply (context : InterfaceContext) (write : Add) :
    context.Within (context.apply write) := by
  cases write with
  | interface interface =>
      refine ⟨fun name known => ?_, fun _ => id, fun _ _ => id⟩
      exact (containsInterface_addInterface context interface name).mpr (.inr known)
  | object service object =>
      refine ⟨fun _ => id, fun name known => ?_, fun wanted path known => ?_⟩
      · exact (containsService_addObjectPath context service object name).mpr (.inr known)
      · change ((context.addObjectPath service object).object? wanted path).isSome
        rw [object?_addObjectPath]
        by_cases here : wanted = service ∧ path = object.path
        · rw [if_pos here]
          rfl
        · rw [if_neg here]
          exact known

end InterfaceContext

/-- No step of the scanner removes anything from the registry. -/
theorem DbusEnumerator.ScanStep.within {bus : Bus} {before after : Scanner}
    (step : ScanStep bus before after) : before.context.Within after.context := by
  have same : before.context.Within before.context := ⟨fun _ => id, fun _ => id, fun _ _ => id⟩
  cases step with
  | begin scan service path => exact same
  | visit todo answered named => exact same
  | unnamed todo answered root lacking => exact same
  | add scan write todo => exact InterfaceContext.within_apply scan.context write

/-! ### The handlers -/

namespace Dbus2Html

def detailsOpen (summary : Str) : Str :=
  "<details>".toList ++ "<summary>".toList ++ summary ++ "</summary>".toList

def detailsClose : Str := "</details>".toList

/-- `to_html` of one interface name of an object. -/
def linkToHtml (op : ObjectPath) (serviceName interface : Str) : Str :=
  "<p>".toList ++ "<a href=\"".toList ++ "/dbus/interface/html/".toList ++ interface ++
    "?object_path=".toList ++ op.path ++ "&interface_name=".toList ++ interface ++
    (if serviceName = [] then [] else "&service_name=".toList ++ serviceName) ++
    "\">".toList ++ interface ++ "</a>".toList ++ "</p>".toList

def objectPathToHtml (op : ObjectPath) (serviceName : Str) : Str :=
  detailsOpen op.path ++ op.interfaces.flatMap (linkToHtml op serviceName) ++ detailsClose

end Dbus2Html

namespace WebService

open Dbus2Html

/-- What a handler sends: an interface, which is written as a page or as JSON, the objects of a
service, the text between header and footer, or a text with the status 404. Nothing is set where the
name in the path has a slash. -/
inductive Content
  | interface (interface : Interface)
  | objects (stored : OrderedMap Str ObjectPath)
  | page (text : Str)
  | notFound (text : Str)
  | unset

/-- A GET handler between two operations on the registry. The page of all services keeps the text so
far, the names it still has to go through and, inside a service, the paths. -/
inductive Handler
  | interface (suffix : Str)
  | interfaceFound (interfaceName : Str)
  | service (suffix : Str)
  | serviceFound (serviceName : Str)
  | html
  | services (oss : Str) (names : List Str)
  | paths (oss serviceName : Str) (left names : List Str)
  | done (content : Content)
  | failed (fault : Fault)

def Handler.ofRun {α : Type} (next : α → Handler) : Run α → Handler
  | .ok value => next value
  | .error fault => .failed fault

/-- The check of the handlers of one interface and of one service. -/
def Handler.check (suffix : Str) (present : Bool) (found : Handler) (missing : Str) : Handler :=
  if '/' ∈ suffix then .done .unset
  else if present then found
  else .done (.notFound missing)

/-- The next operation of a handler, with what it does until the one after. -/
def Handler.next (context : InterfaceContext) : Handler → Handler
  | .interface suffix =>
      .check suffix (context.containsInterface suffix) (.interfaceFound suffix)
        "interface not found".toList
  | .interfaceFound interfaceName =>
      .ofRun (fun interface => .done (.interface interface)) (context.getInterfaces interfaceName)
  | .service suffix =>
      .check suffix (context.containsService suffix) (.serviceFound suffix)
        "service not found".toList
  | .serviceFound serviceName =>
      .ofRun (fun stored => .done (.objects stored)) (context.objectPathsOfService serviceName)
  | .html => .services [] context.getServiceNames
  | .services oss [] => .done (.page oss)
  | .services oss (serviceName :: names) =>
      .paths (oss ++ detailsOpen serviceName) serviceName
        (context.getObjectPathString serviceName) names
  | .paths oss _ [] names => .services (oss ++ detailsClose) names
  | .paths oss serviceName (path :: rest) names =>
      .ofRun
        (fun object => .paths (oss ++ objectPathToHtml object serviceName) serviceName rest names)
        (context.getObjectPath serviceName path)
  | .done content => .done content
  | .failed fault => .failed fault

/-- The requests that come in. -/
inductive Handler.Starts : Handler → Prop
  | interface (suffix : Str) : Starts (.interface suffix)
  | service (suffix : Str) : Starts (.service suffix)
  | html : Starts .html

/-- The update thread writes the registry and the handlers read it. -/
def handlers (bus : Bus) : SharedStore.System DbusEnumerator.Scanner Handler where
  write := DbusEnumerator.ScanStep bus
  arrives := Handler.Starts
  read scanner before after := after = before.next scanner.context

/-! ### What a handler has checked stays true -/

/-- A handler past its check can count on what it has seen, and it has not failed. -/
def Handler.Safe (context : InterfaceContext) : Handler → Prop
  | .interfaceFound interfaceName => context.containsInterface interfaceName = true
  | .serviceFound serviceName => context.containsService serviceName = true
  | .paths _ serviceName left _ => ∀ path ∈ left, (context.object? serviceName path).isSome
  | .failed _ => False
  | _ => True

theorem Handler.Starts.safe {handler : Handler} (starts : handler.Starts)
    (context : InterfaceContext) : handler.Safe context := by
  cases starts <;> trivial

theorem Handler.Safe.within {context later : InterfaceContext} {handler : Handler}
    (safe : handler.Safe context) (grown : context.Within later) : handler.Safe later := by
  cases handler with
  | interfaceFound interfaceName => exact grown.interfaces interfaceName safe
  | serviceFound serviceName => exact grown.services serviceName safe
  | paths oss serviceName left names =>
      intro path inside
      exact grown.objects serviceName path (safe path inside)
  | failed fault => exact safe
  | interface suffix => trivial
  | service suffix => trivial
  | html => trivial
  | services oss names => trivial
  | done content => trivial

theorem Handler.safe_check {context : InterfaceContext} {suffix missing : Str} {present : Bool}
    {found : Handler} (safe : present = true → found.Safe context) :
    (Handler.check suffix present found missing).Safe context := by
  unfold Handler.check
  by_cases slash : '/' ∈ suffix
  · rw [if_pos slash]
    trivial
  · rw [if_neg slash]
    by_cases known : present = true
    · rw [if_pos known]
      exact safe known
    · rw [if_neg known]
      trivial

theorem Handler.Safe.next {context : InterfaceContext} {handler : Handler}
    (safe : handler.Safe context) : (handler.next context).Safe context := by
  cases handler with
  | interface suffix => exact Handler.safe_check id
  | interfaceFound interfaceName =>
      obtain ⟨interface, found⟩ := InterfaceContext.getInterfaces_of_contains safe
      rw [Handler.next, found]
      trivial
  | service suffix => exact Handler.safe_check id
  | serviceFound serviceName =>
      obtain ⟨stored, found⟩ := InterfaceContext.objectPathsOfService_of_contains safe
      rw [Handler.next, found]
      trivial
  | html => trivial
  | services oss names =>
      cases names with
      | nil => trivial
      | cons serviceName names =>
          intro path inside
          exact (InterfaceContext.mem_getObjectPathString context serviceName path).mp inside
  | paths oss serviceName left names =>
      cases left with
      | nil => trivial
      | cons path rest =>
          obtain ⟨first, others⟩ := List.forall_mem_cons.mp safe
          obtain ⟨object, found⟩ := InterfaceContext.getObjectPath_of_isSome first
          rw [Handler.next, found]
          exact others
  | done content => trivial
  | failed fault => exact safe

theorem handlers_outline (bus : Bus) :
    SharedStore.Outline (handlers bus) SharedStore.Anything (fun _ => True)
      (fun scanner handler => handler.Safe scanner.context) where
  kept _ _ := trivial
  arrives _ starts := starts.safe _
  own := by
    intro scanner before after _ safe taken
    rw [show after = before.next scanner.context from taken]
    exact safe.next
  stable _ safe written _ := safe.within written.within

/-- Whatever the update thread adds between the two steps of a handler, the second step returns: of
an interface found, of a service found, and of every path of every service on the page. -/
theorem second_steps_return {bus : Bus} {scanner : DbusEnumerator.Scanner}
    {state : SharedStore.State DbusEnumerator.Scanner Handler}
    (run : SharedStore.Run (handlers bus) SharedStore.Anything ⟨scanner, []⟩ state) :
    (∀ name, .interfaceFound name ∈ state.readers →
      ∃ interface, state.store.context.getInterfaces name = .ok interface) ∧
    (∀ name, .serviceFound name ∈ state.readers →
      ∃ stored, state.store.context.objectPathsOfService name = .ok stored) ∧
    (∀ oss service left names, .paths oss service left names ∈ state.readers →
      ∀ path ∈ left, ∃ object, state.store.context.getObjectPath service path = .ok object) ∧
    ∀ fault, .failed fault ∉ state.readers := by
  obtain ⟨-, safe⟩ := run.holds (handlers_outline bus) ⟨trivial, by simp⟩
  refine ⟨fun name found => ?_, fun name found => ?_, ?_, fun fault failed => safe _ failed⟩
  · exact InterfaceContext.getInterfaces_of_contains (safe _ found)
  · exact InterfaceContext.objectPathsOfService_of_contains (safe _ found)
  · intro oss service left names inLoop path inside
    exact InterfaceContext.getObjectPath_of_isSome (safe _ inLoop path inside)

open DbusEnumerator in
/-- Two handlers between their steps while the second object of the lamps is read. -/
theorem lamp_steps_return :
    (∃ interface, lampSeen.context.getInterfaces "a.Lamp".toList = .ok interface) ∧
      ∃ object, lampSeen.context.getObjectPath "a.lamp".toList "/".toList = .ok object := by
  let found : List Handler := [.interfaceFound "a.Lamp".toList]
  let page : Handler :=
    .paths (detailsOpen "a.lamp".toList) "a.lamp".toList ["/".toList] []
  have checked : SharedStore.Run (handlers lampBus) SharedStore.Anything ⟨lampRooted, []⟩
      ⟨lampRooted, found⟩ :=
    .head (.arrive _ [] (.interface "a.Lamp".toList)) (.single (.read _ [] [] rfl))
  have listed : SharedStore.Run (handlers lampBus) SharedStore.Anything ⟨lampRooted, found⟩
      ⟨lampRooted, page :: found⟩ :=
    .head (.arrive _ _ .html) (.head (.read _ [] found rfl) (.single (.read _ [] found rfl)))
  have written : SharedStore.Run (handlers lampBus) SharedStore.Anything
      ⟨lampRooted, page :: found⟩ ⟨lampSeen, page :: found⟩ :=
    SharedStore.run_writes lamp_seen _ fun _ _ _ _ => trivial
  have safe := second_steps_return (checked.trans (listed.trans written))
  exact ⟨safe.1 _ (by simp [found]), safe.2.2.1 _ _ _ _ List.mem_cons_self _ List.mem_cons_self⟩

end WebService

end Dbus2Http
