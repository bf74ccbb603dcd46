import Dbus2Http.UpdateThread

set_option autoImplicit false

namespace Dbus2Http.UpdateThread

open Cxx (Str)
open DbusSerialization DbusEnumerator

/-- The moments of an update, told apart by what had been asked. -/
def During (before after : Scan) (moment : List Introspection) : Prop :=
  before.asked <+: moment ∧ moment <+: after.asked

/-- The paths a scan made during the update would go to. -/
inductive Needed (bus : Bus) (before after : Scan) (service : Str) : Str → Prop
  | root : Needed bus before after service "/".toList
  | child {path name : Str} {moment : List Introspection} {node : Element}
      (parent : Needed bus before after service path) (during : During before after moment)
      (answer : bus.rootElement (bus.introspectService moment service path) = some node)
      (listed : name ∈ childNames node) : Needed bus before after service (childPath path name)

/-- All the while every `Introspect` call a scan of the service needs would be answered with a
document that has a root element. -/
def AnswersDuring (bus : Bus) (before after : Scan) (service : Str) : Prop :=
  ∀ path, Needed bus before after service path → ∀ moment, During before after moment →
    (bus.rootElement (bus.introspectService moment service path)).isSome

def lastAsked (scan : Scan) (service path : Str) : Option Introspection :=
  scan.asked.reverse.find? fun call => service = call.service ∧ path = call.path

/-- The object `/` is stored with the interfaces of the document it last answered with. -/
def RootStored (bus : Bus) (scan : Scan) (service : Str) : Prop :=
  ∃ call node object, lastAsked scan service "/".toList = some call ∧
    bus.rootElement call.xml = some node ∧
    scan.context.object? service "/".toList = some object ∧
    object.interfaces = interfaceNames node

/-- A failed introspection does not hide a service: in a run of updates over `listings` that ends
in `before`, and one more update that ends in `after`. -/
structure NothingHidden (bus : Bus) (servicePrefixes : List Str) (fuel : Nat)
    (listings : List (Option (List Str))) (names : Option (List Str)) (before after : Scan) :
    Prop where
  rootStored : ∀ service ∈ listServices names, matchPrefix servicePrefixes service = true →
    AnswersDuring bus before after service → RootStored bus after service
  failedScan : ∀ passed service start done,
    passed ++ [service] <+: (listings ++ [names]).flatMap listServices →
    passed.foldlM (updateService bus servicePrefixes fuel) {} = .ok start →
    updateService bus servicePrefixes fuel start service = .ok done →
    matchPrefix servicePrefixes service = true →
    start.context.containsService service = false →
    bus.introspectService start.asked service "/".toList = [] →
    done.context.containsService service = false
  pathsRooted : ∀ service path, path ∈ after.context.getObjectPathString service →
    "/".toList <+: path ∧ ∃ call ∈ after.asked, call.service = service ∧ call.path = path

variable {bus : Bus} {servicePrefixes : List Str} {fuel : Nat}

/-- Every introspection so far was answered with a document that has a root element. -/
def AllAnswered (bus : Bus) (scan : Scan) : Prop :=
  ∀ call ∈ scan.asked, (bus.rootElement call.xml).isSome

theorem path_objectOf {call : Introspection} (answered : (bus.rootElement call.xml).isSome) :
    (objectOf bus.rootElement call).path = call.path := by
  obtain ⟨node, root⟩ := Option.isSome_iff_exists.mp answered
  rw [objectOf, root]
  rfl

/-- Where every call was answered, each path holds what was last asked of it. -/
theorem object?_eq_lastAsked {scan : Scan} (kept : Kept bus scan) (answered : AllAnswered bus scan)
    (service path : Str) :
    scan.context.object? service path =
      (lastAsked scan service path).map (objectOf bus.rootElement) := by
  have empty : InterfaceContext.object? {} service path = none := rfl
  have same : scan.asked.reverse.find? (fun call => decide (service = call.service ∧
      path = (objectOf bus.rootElement call).path)) = lastAsked scan service path := by
    refine List.find?_congr fun call inside => ?_
    rw [path_objectOf (answered call (List.mem_reverse.mp inside))]
  rw [kept.replayed, object?_replay, same, empty, Option.or_none]

theorem rootStored_of_contains {scan : Scan} (kept : Kept bus scan)
    (answered : AllAnswered bus scan) {service : Str}
    (known : scan.context.containsService service = true) : RootStored bus scan service := by
  rw [kept.replayed, containsService_replay] at known
  rcases known with ⟨other, asked, ofService⟩ | absent
  · obtain ⟨root, rootAsked, sameService, atRoot⟩ := kept.rootAsked other asked
    have hit : service = root.service ∧ "/".toList = root.path :=
      ⟨(sameService.trans ofService).symm, atRoot.symm⟩
    obtain ⟨call, inside, found, -⟩ := OrderedMap.exists_last
      (fun call : Introspection => service = call.service ∧ "/".toList = call.path)
      rootAsked (decide_eq_true hit)
    obtain ⟨node, document⟩ := Option.isSome_iff_exists.mp (answered call inside)
    have stored := object?_eq_lastAsked kept answered service "/".toList
    rw [lastAsked, found, Option.map_some, objectOf, document] at stored
    exact ⟨call, node, _, found, document, stored, rfl⟩
  · cases absent

theorem pathsRooted_of_answered {scan : Scan} (kept : Kept bus scan)
    (answered : AllAnswered bus scan) {service path : Str}
    (stored : path ∈ scan.context.getObjectPathString service) :
    "/".toList <+: path ∧ ∃ call ∈ scan.asked, call.service = service ∧ call.path = path := by
  rw [InterfaceContext.mem_getObjectPathString, kept.replayed] at stored
  obtain ⟨object, found⟩ := Option.isSome_iff_exists.mp stored
  obtain ⟨call, asked, ofService, same, ofPath⟩ := asked_of_object?_replay _ found
  have samePath : call.path = path := by
    rw [← path_objectOf (answered call asked), same, ofPath]
  exact ⟨samePath ▸ kept.rooted call asked, call, asked, ofService, samePath⟩

/-- An introspection without a root element leaves an entry under the empty path. -/
theorem empty_path_stored {scan : Scan} (kept : Kept bus scan) {call : Introspection}
    (asked : call ∈ scan.asked) (failed : bus.rootElement call.xml = none) :
    [] ∈ scan.context.getObjectPathString call.service := by
  have hit : call.service = call.service ∧ [] = (objectOf bus.rootElement call).path := by
    rw [objectOf, failed]
    exact ⟨rfl, rfl⟩
  obtain ⟨other, -, found, -⟩ := OrderedMap.exists_last
    (fun other : Introspection => call.service = other.service ∧
      [] = (objectOf bus.rootElement other).path) asked (decide_eq_true hit)
  rw [InterfaceContext.mem_getObjectPathString, kept.replayed, object?_replay, found]
  rfl

theorem scan_of_failed_root_asked {services passed : List Str} {service : Str}
    {start done after : Scan} (turn : passed ++ [service] <+: services)
    (run : services.foldlM (updateService bus servicePrefixes fuel) {} = .ok after)
    (reached : passed.foldlM (updateService bus servicePrefixes fuel) {} = .ok start)
    (step : updateService bus servicePrefixes fuel start service = .ok done)
    (matched : matchPrefix servicePrefixes service = true)
    (unknown : start.context.containsService service = false) :
    ⟨service, "/".toList, bus.introspectService start.asked service "/".toList⟩ ∈ after.asked := by
  obtain ⟨rest, split⟩ := turn
  rw [← split, List.append_assoc, List.foldlM_append, reached, Cxx.bind_ok, List.singleton_append,
    List.foldlM_cons, step, Cxx.bind_ok] at run
  refine (services_ask run).subset ?_
  rcases updateService_cases step with ⟨-, known⟩ | ⟨-, -, objects, scanned⟩
  · rw [known matched] at unknown
    cases unknown
  · exact scan_asks_start scanned

/-- Failures hide nothing exactly in the runs in which no call failed: every one of them stores an
object without a path, and that makes the service count as known. -/
theorem nothingHidden_iff {listings : List (Option (List Str))} {names : Option (List Str)}
    {before after : Scan} (run : updates bus servicePrefixes fuel listings = .ok before)
    (last : update bus servicePrefixes fuel before names = .ok after) :
    NothingHidden bus servicePrefixes fuel listings names before after ↔
      ∀ call ∈ after.asked, (bus.rootElement call.xml).isSome := by
  have keptBefore := updates_kept run
  have kept : Kept bus after := keptBefore.services last
  have whole : ((listings ++ [names]).flatMap listServices).foldlM
      (updateService bus servicePrefixes fuel) {} = .ok after := by
    rw [← updates_eq, updates, List.foldlM_append, ← updates, run, Cxx.bind_ok, List.foldlM_cons,
      last]
    rfl
  constructor
  · intro hidden call asked
    cases failed : bus.rootElement call.xml with
    | some node => rfl
    | none =>
        have rooted := (hidden.pathsRooted _ _ (empty_path_stored kept asked failed)).1
        exact absurd rooted (by decide)
  · intro answered
    refine ⟨?_, ?_, fun service path => pathsRooted_of_answered kept answered⟩
    · intro service listed matched _
      exact rootStored_of_contains kept answered (update_contains keptBefore last listed matched)
    · intro passed service start done turn reached step matched unknown failed
      have asked := answered _ (scan_of_failed_root_asked turn whole reached step matched unknown)
      rw [failed, bus.rootElement_empty] at asked
      cases asked

/-! ### A service that answers from a given call on -/

def clockText : Str := "<node><interface name='a.Clock'/></node>".toList

def clockDocument : Element :=
  .mk "node".toList [] [.mk "interface".toList [("name".toList, "a.Clock".toList)] []]

/-- The first calls fail, the later ones are answered. -/
def clockBus (failures : Nat) : Bus where
  introspectService asked _ _ := if asked.length < failures then [] else clockText
  rootElement xml := if xml = clockText then some clockDocument else none
  rootElement_empty := by decide

def clockListing : Option (List Str) := some [":1.7".toList, "a.clock".toList]

/-- The registry after one introspection of the clock. -/
def clockScanned (failures : Nat) : Scan :=
  let call : Introspection := ⟨"a.clock".toList, "/".toList,
    (clockBus failures).introspectService [] "a.clock".toList "/".toList⟩
  { context := recorded (clockBus failures).rootElement {} call, asked := [call] }

theorem clock_hidden :
    updates (clockBus 1) ["a.".toList] 1 [clockListing] = .ok (clockScanned 1) ∧
    update (clockBus 1) ["a.".toList] 1 (clockScanned 1) clockListing = .ok (clockScanned 1) ∧
    "a.clock".toList ∈ listServices clockListing ∧
    AnswersDuring (clockBus 1) (clockScanned 1) (clockScanned 1) "a.clock".toList ∧
    (clockScanned 1).context.object? "a.clock".toList "/".toList = none ∧
    ¬ NothingHidden (clockBus 1) ["a.".toList] 1 [clockListing] clockListing
      (clockScanned 1) (clockScanned 1) := by
  have answers : AnswersDuring (clockBus 1) (clockScanned 1) (clockScanned 1) "a.clock".toList := by
    rintro path - moment ⟨since, -⟩
    have asked : ¬ moment.length < 1 := by
      have grown := since.length_le
      simp only [clockScanned, List.length_singleton] at grown
      omega
    have answered : (clockBus 1).introspectService moment "a.clock".toList path = clockText :=
      if_neg asked
    rw [answered]
    rfl
  refine ⟨rfl, rfl, by decide, answers, rfl, fun hidden => ?_⟩
  obtain ⟨call, node, object, -, -, stored, -⟩ :=
    hidden.rootStored "a.clock".toList (by decide) rfl answers
  cases stored

theorem clock_shown :
    NothingHidden (clockBus 0) ["a.".toList] 1 [clockListing] clockListing
      (clockScanned 0) (clockScanned 0) := by
  have run : updates (clockBus 0) ["a.".toList] 1 [clockListing] = .ok (clockScanned 0) := rfl
  have last : update (clockBus 0) ["a.".toList] 1 (clockScanned 0) clockListing =
      .ok (clockScanned 0) := rfl
  exact (nothingHidden_iff run last).mpr (by decide)

end Dbus2Http.UpdateThread
