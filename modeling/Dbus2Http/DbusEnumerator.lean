import Dbus2Http.DbusSerialization

set_option autoImplicit false

namespace Dbus2Http

open Cxx (Str Run)
open DbusSerialization

/-- One `Introspect` call and what `introspect_service` made of its outcome. -/
structure Introspection where
  service : Str
  path : Str
  xml : Str
deriving DecidableEq

/-- What the scanner meets outside: the answers of the services, which may change from one call to
the next and are empty where a call fails, and the XML library, which finds no root element in an
empty text. -/
structure Bus where
  introspectService : List Introspection → Str → Str → Str
  rootElement : Str → Option Element
  rootElement_empty : rootElement [] = none

/-- The registry and, as a history variable, the introspections made so far. -/
structure Scan where
  context : InterfaceContext := {}
  asked : List Introspection := []

namespace DbusEnumerator

/-- Introspects one object and stores it. -/
def visit (bus : Bus) (service path : Str) (scan : Scan) : Run (ObjectPath × Scan) := do
  let xml := bus.introspectService scan.asked service path
  let (object, context) ← parseSingleObjectPath (bus.rootElement xml) path scan.context
  return (object, {
    context := context.addObjectPath service object
    asked := scan.asked ++ [⟨service, path, xml⟩] })

def childPath (path child : Str) : Str :=
  path ++ (if path = "/".toList then [] else "/".toList) ++ child

def parseObjectPathsRecursively (bus : Bus) (service : Str) :
    Nat → Str → Scan → Run (List ObjectPath × Scan)
  | 0, _, _ => .error .outOfFuel
  | fuel + 1, path, scan => do
      let (object, visited) ← visit bus service path scan
      object.childrenPaths.foldlM (fun (result, scan) child => do
        let (childOps, scanned) ←
          parseObjectPathsRecursively bus service fuel (childPath path child) scan
        return (result ++ childOps, scanned)) ([object], visited)

/-! ### What one introspection does to the registry -/

section Recorded

variable (rootElement : Str → Option Element)

def objectOf (call : Introspection) : ObjectPath :=
  match rootElement call.xml with
  | some node => describedObject call.path node
  | none => {}

def declarations (call : Introspection) : List Interface :=
  match rootElement call.xml with
  | some node => declared node
  | none => []

def recorded (context : InterfaceContext) (call : Introspection) : InterfaceContext :=
  ((declarations rootElement call).foldl InterfaceContext.addInterface context).addObjectPath
    call.service (objectOf rootElement call)

end Recorded

/-- The visits that return are those of documents whose interfaces all have names. -/
theorem visit_eq_ok {bus : Bus} {service path : Str} {scan : Scan} {result : ObjectPath × Scan} :
    visit bus service path scan = .ok result ↔
      let call : Introspection := ⟨service, path, bus.introspectService scan.asked service path⟩
      (∀ node, bus.rootElement call.xml = some node → Named node) ∧
        result = (objectOf bus.rootElement call, {
          context := recorded bus.rootElement scan.context call
          asked := scan.asked ++ [call] }) := by
  cases root : bus.rootElement (bus.introspectService scan.asked service path) with
  | none =>
      simp only [visit, root, parseSingleObjectPath, recorded, objectOf, declarations]
      constructor
      · rintro returned
        cases returned
        exact ⟨by simp, rfl⟩
      · rintro ⟨-, rfl⟩
        rfl
  | some node =>
      simp only [visit, root, Cxx.bind_eq_ok, parseSingleObjectPath_some, recorded, objectOf,
        declarations]
      constructor
      · rintro ⟨parsed, ⟨named, rfl⟩, returned⟩
        cases returned
        exact ⟨by simpa using named, rfl⟩
      · rintro ⟨named, rfl⟩
        exact ⟨_, ⟨named node rfl, rfl⟩, rfl⟩

/-! ### Whole scans -/

/-- What every visit preserves, a scan preserves. The visited paths are the start and what child
names are appended to. -/
theorem scan_preserves {bus : Bus} {service : Str} {P : Scan → Prop} {Q : Str → Prop}
    (child : ∀ path name, Q path → Q (childPath path name))
    (step : ∀ path before object after, Q path →
      visit bus service path before = .ok (object, after) → P before → P after)
    {fuel : Nat} {path : Str} {before after : Scan} {objects : List ObjectPath} (start : Q path)
    (done : parseObjectPathsRecursively bus service fuel path before = .ok (objects, after))
    (holds : P before) : P after := by
  induction fuel generalizing path before objects after with
  | zero => cases done
  | succ fuel ih =>
      rw [parseObjectPathsRecursively, Cxx.bind_eq_ok] at done
      obtain ⟨⟨object, visited⟩, first, children⟩ := done
      have afterVisit := step path before object visited start first holds
      refine Cxx.foldlM_preserves (P := fun state : List ObjectPath × Scan => P state.2) ?_
        children afterVisit
      intro name _ state next round kept
      rw [Cxx.bind_eq_ok] at round
      obtain ⟨⟨childOps, scanned⟩, recursive, returned⟩ := round
      cases returned
      exact ih (child path name start) recursive kept

/-- A scan only adds introspections, the first of them that of the path it starts at. -/
theorem scan_asks {bus : Bus} {service : Str} {fuel : Nat} {path : Str} {before after : Scan}
    {objects : List ObjectPath}
    (done : parseObjectPathsRecursively bus service fuel path before = .ok (objects, after)) :
    before.asked ++ [⟨service, path, bus.introspectService before.asked service path⟩] <+:
      after.asked := by
  cases fuel with
  | zero => cases done
  | succ fuel =>
      rw [parseObjectPathsRecursively, Cxx.bind_eq_ok] at done
      obtain ⟨⟨object, visited⟩, first, children⟩ := done
      obtain ⟨-, made⟩ := visit_eq_ok.mp first
      cases made
      refine Cxx.foldlM_preserves (P := fun state : List ObjectPath × Scan => _ <+: state.2.asked)
        ?_ children (List.prefix_refl _)
      intro name _ state next round kept
      rw [Cxx.bind_eq_ok] at round
      obtain ⟨⟨childOps, scanned⟩, recursive, returned⟩ := round
      cases returned
      refine scan_preserves (Q := fun _ => True) (P := fun scan => _ <+: scan.asked)
        (fun _ _ => id) ?_ trivial recursive kept
      intro child before object after _ visited grown
      obtain ⟨-, made⟩ := visit_eq_ok.mp visited
      cases made
      exact grown.trans (List.prefix_append _ _)

theorem scan_grows {bus : Bus} {service : Str} {fuel : Nat} {path : Str} {before after : Scan}
    {objects : List ObjectPath}
    (done : parseObjectPathsRecursively bus service fuel path before = .ok (objects, after)) :
    before.asked <+: after.asked :=
  (List.prefix_append _ _).trans (scan_asks done)

theorem scan_asks_start {bus : Bus} {service : Str} {fuel : Nat} {path : Str} {before after : Scan}
    {objects : List ObjectPath}
    (done : parseObjectPathsRecursively bus service fuel path before = .ok (objects, after)) :
    ⟨service, path, bus.introspectService before.asked service path⟩ ∈ after.asked :=
  (scan_asks done).subset (List.mem_append_right _ (List.mem_singleton_self _))

/-- A scan asks only its own service, and from `/` on only paths that begin with a slash. -/
theorem scan_calls {bus : Bus} {service : Str} {fuel : Nat} {before after : Scan}
    {objects : List ObjectPath}
    (done : parseObjectPathsRecursively bus service fuel "/".toList before = .ok (objects, after))
    {call : Introspection} (asked : call ∈ after.asked) :
    call ∈ before.asked ∨ call.service = service ∧ "/".toList <+: call.path := by
  have all : ∀ call ∈ after.asked,
      call ∈ before.asked ∨ call.service = service ∧ "/".toList <+: call.path := by
    refine scan_preserves (P := fun scan => ∀ call ∈ scan.asked,
        call ∈ before.asked ∨ call.service = service ∧ "/".toList <+: call.path)
      (Q := fun path => "/".toList <+: path) ?_ ?_ (List.prefix_refl _) done
      fun call known => Or.inl known
    · intro path name rooted
      exact rooted.trans ((List.prefix_append _ _).trans (List.prefix_append _ _))
    · intro path earlier object later rooted visited known call asked
      obtain ⟨-, made⟩ := visit_eq_ok.mp visited
      cases made
      rcases List.mem_append.mp asked with old | new
      · exact known call old
      · rw [List.mem_singleton.mp new]
        exact Or.inr ⟨rfl, rooted⟩
  exact all call asked

/-- The registry is what the introspections made so far put there, in their order. -/
def Replayed (bus : Bus) (scan : Scan) : Prop :=
  scan.context = scan.asked.foldl (recorded bus.rootElement) {}

theorem Replayed.start (bus : Bus) : Replayed bus {} := rfl

theorem Replayed.scan {bus : Bus} {service : Str} {fuel : Nat} {path : Str} {before after : Scan}
    {objects : List ObjectPath} (replayed : Replayed bus before)
    (done : parseObjectPathsRecursively bus service fuel path before = .ok (objects, after)) :
    Replayed bus after := by
  refine scan_preserves (Q := fun _ => True) (fun _ _ => id) ?_ trivial done replayed
  intro path before object after _ visited replayed
  obtain ⟨-, made⟩ := visit_eq_ok.mp visited
  cases made
  rw [Replayed, List.foldl_append, ← replayed]
  rfl

/-! ### Reading a registry that introspections filled -/

section Reading

variable (rootElement : Str → Option Element) (calls : List Introspection)
  (context : InterfaceContext)

theorem interfaces_foldl_addInterface (interfaces : List Interface) (name : Str) :
    (interfaces.foldl InterfaceContext.addInterface context).interfaces.find? name =
      (interfaces.reverse.find? (·.name = name)).or (context.interfaces.find? name) := by
  have step : ∀ (context : InterfaceContext) (interface : Interface),
      (context.addInterface interface).interfaces.find? name =
        if decide (interface.name = name) then some interface
        else context.interfaces.find? name := by
    intro context interface
    rw [InterfaceContext.interfaces_addInterface]
    by_cases same : interface.name = name
    · simp [same]
    · simp [same, OrderedMap.find?_insert_of_ne _ (Ne.symm same)]
  simpa using OrderedMap.read_foldl
    (fun context : InterfaceContext => context.interfaces.find? name) id step interfaces context

theorem objectPaths_foldl_addInterface (interfaces : List Interface) :
    (interfaces.foldl InterfaceContext.addInterface context).objectPaths =
      context.objectPaths := by
  induction interfaces generalizing context with
  | nil => rfl
  | cons interface rest ih => exact ih _

/-- The interface registered under a name is the last one declared with it. -/
theorem interfaces_replay (name : Str) :
    (calls.foldl (recorded rootElement) context).interfaces.find? name =
      ((calls.flatMap (declarations rootElement)).reverse.find? (·.name = name)).or
        (context.interfaces.find? name) := by
  induction calls generalizing context with
  | nil => rfl
  | cons call rest ih =>
      rw [List.foldl_cons, ih, recorded, InterfaceContext.interfaces_addObjectPath,
        interfaces_foldl_addInterface, List.flatMap_cons, List.reverse_append, List.find?_append,
        Option.or_assoc]

theorem object?_recorded (call : Introspection) (service path : Str) :
    (recorded rootElement context call).object? service path =
      if service = call.service ∧ path = (objectOf rootElement call).path then
        some (objectOf rootElement call)
      else context.object? service path := by
  rw [recorded, InterfaceContext.object?_addObjectPath]
  simp only [InterfaceContext.object?, objectPaths_foldl_addInterface]

/-- The object stored at a path is that of the last introspection stored there. -/
theorem object?_replay (service path : Str) :
    (calls.foldl (recorded rootElement) context).object? service path =
      ((calls.reverse.find? fun call =>
        service = call.service ∧ path = (objectOf rootElement call).path).map
          (objectOf rootElement)).or (context.object? service path) := by
  refine OrderedMap.read_foldl (fun context => context.object? service path) _ ?_ calls context
  intro context call
  rw [object?_recorded]
  simp only [decide_eq_true_eq]

omit calls context in
/-- What is stored is the object of some introspection. -/
theorem asked_of_object?_replay {calls : List Introspection} {service path : Str}
    {object : ObjectPath}
    (stored : (calls.foldl (recorded rootElement) {}).object? service path = some object) :
    ∃ call ∈ calls, call.service = service ∧ objectOf rootElement call = object ∧
      object.path = path := by
  have empty : InterfaceContext.object? {} service path = none := rfl
  rw [object?_replay, empty, Option.or_none] at stored
  obtain ⟨call, found, same⟩ := Option.map_eq_some_iff.mp stored
  have hit : service = call.service ∧ path = (objectOf rootElement call).path := by
    simpa using List.find?_some found
  have inside := List.mem_reverse.mp (List.mem_of_find?_eq_some found)
  exact ⟨call, inside, hit.1.symm, same, by rw [← same, hit.2]⟩

theorem containsService_replay (service : Str) :
    (calls.foldl (recorded rootElement) context).containsService service = true ↔
      (∃ call ∈ calls, call.service = service) ∨ context.containsService service = true := by
  induction calls generalizing context with
  | nil => simp
  | cons call rest ih =>
      have registered : ((declarations rootElement call).foldl InterfaceContext.addInterface
          context).containsService service = context.containsService service := by
        simp only [InterfaceContext.containsService, objectPaths_foldl_addInterface]
      have same : service = call.service ↔ call.service = service := eq_comm
      rw [List.foldl_cons, ih, recorded, InterfaceContext.containsService_addObjectPath, registered,
        same]
      simp only [List.mem_cons, exists_eq_or_imp]
      rw [or_left_comm, or_assoc]

/-- Services that are not asked keep their objects. -/
theorem objectPaths_replay_of_ne {service : Str} (other : ∀ call ∈ calls, call.service ≠ service) :
    (calls.foldl (recorded rootElement) context).objectPaths.find? service =
      context.objectPaths.find? service := by
  induction calls generalizing context with
  | nil => rfl
  | cons call rest ih =>
      rw [List.foldl_cons, ih _ fun later inside => other later (List.mem_cons_of_mem _ inside),
        recorded, InterfaceContext.find?_addObjectPath_of_ne _ _ _
          (other call List.mem_cons_self).symm, objectPaths_foldl_addInterface]

end Reading

end DbusEnumerator

end Dbus2Http
