import Dbus2Http.PageLinks

set_option autoImplicit false

namespace Dbus2Http

open Cxx (Str Run)
open Markup (page page_append)

namespace Dbus2Html

/-! ### What a page shows is in the registry -/

/-- The names on the page of all services are shown as they are. -/
structure Shown (context : InterfaceContext) : Prop where
  services : ∀ name, context.containsService name = true → Unmarked name
  objects : ∀ service path, (context.object? service path).isSome → Unmarked path
  interfaces : ∀ name, context.containsInterface name = true → Unmarked name

/-- Services, objects, interfaces and methods have names as the bus allows them, and the other texts
of the interfaces have no tags in them. -/
structure Named (context : InterfaceContext) : Prop where
  services : ∀ name, context.containsService name = true → name ≠ [] ∧ '/' ∉ name ∧ Name name
  objects : ∀ service path, (context.object? service path).isSome → Name path
  interfaces : ∀ name, context.containsInterface name = true → '/' ∉ name ∧ Name name
  pages : ∀ name interface, context.interfaces.find? name = some interface → Untagged interface ∧
    ∀ entry ∈ interface.methods.entries, '/' ∉ entry.2.name ∧ '.' ∉ entry.2.name ∧ Name entry.2.name

theorem Named.shown {context : InterfaceContext} (named : Named context) : Shown context where
  services name known := (named.services name known).2.2.unmarked
  objects service path known := (named.objects service path known).unmarked
  interfaces name known := (named.interfaces name known).2.unmarked

structure Row.Known (context : InterfaceContext) (row : Row) : Prop where
  service : context.containsService row.1 = true
  objects : ∀ op ∈ row.2, (context.object? row.1 op.path).isSome
  listed : ∀ op ∈ row.2, ∀ name ∈ op.interfaces, context.containsInterface name = true

section Known

variable {context later : InterfaceContext}

theorem Row.Known.within {row : Row} (known : row.Known context) (grown : context.Within later) :
    row.Known later where
  service := grown.services row.1 known.service
  objects op shown := grown.objects row.1 op.path (known.objects op shown)
  listed op shown name inside := grown.interfaces name (known.listed op shown name inside)

theorem Row.Known.clean {row : Row} (known : row.Known context) (shown : Shown context) : row.Clean :=
  ⟨shown.services row.1 known.service, fun op listed =>
    ⟨shown.objects row.1 op.path (known.objects op listed), fun name inside =>
      shown.interfaces name (known.listed op listed name inside)⟩⟩

theorem rowsText_cons (row : Row) (rows : List Row) : rowsText (row :: rows) = detailsOpen row.1 ++
    page (row.2.flatMap (objectPieces row.1)) ++ detailsClose ++ rowsText rows := by
  have closed : page closePieces = detailsClose := List.append_nil _
  rw [rowsText, rowsText, List.flatMap_cons, rowPieces, ← closed, detailsOpen_eq]
  simp only [page_append, List.append_assoc]

theorem rowsText_concat (rows : List Row) (row : Row) : rowsText (rows ++ [row]) =
    rowsText rows ++ page (openPieces row.1 ++ row.2.flatMap (objectPieces row.1)) ++ detailsClose := by
  have closed : page closePieces = detailsClose := List.append_nil _
  rw [rowsText, rowsText, List.flatMap_append, List.flatMap_singleton, rowPieces, ← closed]
  simp only [page_append, List.append_assoc]

end Known

end Dbus2Html

namespace WebService

open Dbus2Html

/-- The text that a handler has written so far is that of rows in the registry. -/
def Handler.Drawn (context : InterfaceContext) : Handler → Prop
  | .services oss names => (∀ name ∈ names, context.containsService name = true) ∧
      ∃ rows : List Row, oss = rowsText rows ∧ ∀ row ∈ rows, row.Known context
  | .paths oss serviceName _ names => (∀ name ∈ names, context.containsService name = true) ∧
      ∃ (rows : List Row) (ops : List ObjectPath),
        oss = rowsText rows ++ page (openPieces serviceName ++ ops.flatMap (objectPieces serviceName)) ∧
        (∀ row ∈ rows, row.Known context) ∧ Row.Known context (serviceName, ops)
  | .done (.page text) => ∃ rows : List Row, text = rowsText rows ∧ ∀ row ∈ rows, row.Known context
  | _ => True

theorem Handler.drawn_check {context : InterfaceContext} {suffix missing : Str} {present : Bool}
    {found : Handler} (drawn : found.Drawn context) :
    (Handler.check suffix present found missing).Drawn context := by
  unfold Handler.check
  split_ifs
  · trivial
  · exact drawn
  · trivial

theorem Handler.Drawn.within {context later : InterfaceContext} {handler : Handler}
    (drawn : handler.Drawn context) (grown : context.Within later) : handler.Drawn later := by
  cases handler with
  | services oss names =>
      obtain ⟨known, rows, text, shown⟩ := drawn
      exact ⟨fun name inside => grown.services name (known name inside), rows, text,
        fun row inside => (shown row inside).within grown⟩
  | paths oss service left names =>
      obtain ⟨known, rows, ops, text, shown, last⟩ := drawn
      exact ⟨fun name inside => grown.services name (known name inside), rows, ops, text,
        fun row inside => (shown row inside).within grown, last.within grown⟩
  | done content =>
      cases content with
      | page text =>
          obtain ⟨rows, text, shown⟩ := drawn
          exact ⟨rows, text, fun row inside => (shown row inside).within grown⟩
      | interface | objects | notFound | unset => trivial
  | interface | interfaceFound | service | serviceFound | html | failed => trivial

theorem Handler.Drawn.next {context : InterfaceContext} (coherent : context.Coherent) {handler : Handler}
    (drawn : handler.Drawn context) : (handler.next context).Drawn context := by
  cases handler with
  | interface suffix => exact Handler.drawn_check trivial
  | service suffix => exact Handler.drawn_check trivial
  | interfaceFound name =>
      rw [Handler.next]
      cases context.getInterfaces name <;> trivial
  | serviceFound name =>
      rw [Handler.next]
      cases context.objectPathsOfService name <;> trivial
  | html =>
      refine ⟨fun name inside => (OrderedMap.mem_keys_iff _ _).mp inside, [], rfl, ?_⟩
      exact fun _ inside => absurd inside List.not_mem_nil
  | services oss names =>
      obtain ⟨known, rows, text, shown⟩ := drawn
      cases names with
      | nil => exact ⟨rows, text, shown⟩
      | cons name names =>
          obtain ⟨first, others⟩ := List.forall_mem_cons.mp known
          refine ⟨others, rows, [], ?_, shown, ⟨first, ?_, ?_⟩⟩
          · rw [text, detailsOpen_eq, List.flatMap_nil, List.append_nil]
          · exact fun _ inside => absurd inside List.not_mem_nil
          · exact fun _ inside => absurd inside List.not_mem_nil
  | paths oss service left names =>
      obtain ⟨known, rows, ops, text, shown, last⟩ := drawn
      cases left with
      | nil =>
          refine ⟨known, rows ++ [(service, ops)], ?_, ?_⟩
          · rw [rowsText_concat, text]
          · intro row inside
            rcases List.mem_append.mp inside with before | here
            · exact shown row before
            · exact List.mem_singleton.mp here ▸ last
      | cons path rest =>
          rw [Handler.next]
          cases read : context.getObjectPath service path with
          | error fault => trivial
          | ok op =>
              have stored := InterfaceContext.object?_of_getObjectPath read
              have own := coherent.objects service path op stored
              refine ⟨known, rows, ops ++ [op], ?_, shown, ⟨last.service, ?_, ?_⟩⟩
              · rw [text, objectPathToHtml_eq, List.flatMap_append, List.flatMap_singleton,
                  ← List.append_assoc (openPieces service), page_append (openPieces service ++ _),
                  List.append_assoc]
              · exact List.forall_mem_append.mpr ⟨last.objects,
                  List.forall_mem_singleton.mpr (by rw [own, stored]; rfl)⟩
              · exact List.forall_mem_append.mpr ⟨last.listed,
                  List.forall_mem_singleton.mpr (coherent.listed service path op stored)⟩
  | done content => exact drawn
  | failed fault => trivial

theorem drawn_outline (bus : Bus) :
    SharedStore.Outline (handlers bus) SharedStore.Anything DbusEnumerator.Steady
      (fun scanner handler => handler.Drawn scanner.context) where
  kept steady written := DbusEnumerator.ScanStep.steady written steady
  arrives := by
    rintro scanner reader - starts
    cases starts <;> trivial
  own := by
    intro scanner before after steady drawn taken
    rw [show after = before.next scanner.context from taken]
    exact drawn.next steady.coherent
  stable _ drawn written _ := drawn.within (DbusEnumerator.ScanStep.within written)

theorem ScanRun.steady {bus : Bus} {before after : DbusEnumerator.Scanner}
    (run : DbusEnumerator.ScanRun bus before after) (steady : DbusEnumerator.Steady before) :
    DbusEnumerator.Steady after := by
  induction run with
  | refl => exact steady
  | tail _ step earlier => exact step.steady earlier

/-- The row of a service with what is stored for it. -/
def rowOf (service : Str × OrderedMap Str ObjectPath) : Row := (service.1, service.2.entries.map Prod.snd)

section Alone

variable {context : InterfaceContext}

/-- The handler goes on from one state to another. -/
def Handler.Reaches (context : InterfaceContext) (before after : Handler) : Prop :=
  ∃ rounds, (Handler.next context)^[rounds] before = after

theorem Handler.Reaches.step {before after : Handler} (rest : (before.next context).Reaches context after) :
    before.Reaches context after := by
  obtain ⟨rounds, ends⟩ := rest
  exact ⟨rounds + 1, ends⟩

theorem getObjectPath_of_object? {service path : Str} {op : ObjectPath}
    (stored : context.object? service path = some op) : context.getObjectPath service path = .ok op := by
  obtain ⟨other, read⟩ := InterfaceContext.getObjectPath_of_isSome (by rw [stored]; rfl)
  rw [read, ← Option.some.inj ((InterfaceContext.object?_of_getObjectPath read).symm.trans stored)]

theorem reaches_paths {service : Str} {objects : List (Str × ObjectPath)}
    (stored : ∀ object ∈ objects, context.object? service object.1 = some object.2)
    {oss : Str} {names : List Str} {after : Handler}
    (rest : (Handler.paths (oss ++ page ((objects.map Prod.snd).flatMap (objectPieces service))) service []
      names).Reaches context after) :
    (Handler.paths oss service (objects.map Prod.fst) names).Reaches context after := by
  induction objects generalizing oss with
  | nil =>
      have same : oss ++ page ((([] : List (Str × ObjectPath)).map Prod.snd).flatMap
          (objectPieces service)) = oss := List.append_nil _
      rwa [same] at rest
  | cons object objects ih =>
      obtain ⟨first, others⟩ := List.forall_mem_cons.mp stored
      refine .step ?_
      rw [List.map_cons, Handler.next, getObjectPath_of_object? first]
      apply ih others
      rwa [objectPathToHtml_eq, List.append_assoc, ← page_append, ← List.flatMap_cons, ← List.map_cons]

theorem reads_of_service {service : Str × OrderedMap Str ObjectPath}
    (stored : context.objectPaths.find? service.1 = some service.2) :
    context.getObjectPathString service.1 = service.2.entries.map Prod.fst ∧
      ∀ object ∈ service.2.entries, context.object? service.1 object.1 = some object.2 := by
  constructor
  · rw [InterfaceContext.getObjectPathString, stored]
    rfl
  · intro object inside
    rw [InterfaceContext.object?, stored, Option.bind_some]
    exact service.2.find?_of_mem inside

theorem rowsText_services (oss : Str) (service : Str × OrderedMap Str ObjectPath)
    (services : List (Str × OrderedMap Str ObjectPath)) :
    oss ++ rowsText ((service :: services).map rowOf) = oss ++ detailsOpen service.1 ++
      page ((service.2.entries.map Prod.snd).flatMap (objectPieces service.1)) ++ detailsClose ++
      rowsText (services.map rowOf) := by
  rw [List.map_cons, rowsText_cons]
  simp only [List.append_assoc]
  rfl

theorem reaches_services {services : List (Str × OrderedMap Str ObjectPath)}
    (stored : ∀ service ∈ services, context.objectPaths.find? service.1 = some service.2) (oss : Str) :
    (Handler.services oss (services.map Prod.fst)).Reaches context
      (.done (.page (oss ++ rowsText (services.map rowOf)))) := by
  induction services generalizing oss with
  | nil => exact ⟨1, congrArg (fun text => Handler.done (.page text)) (List.append_nil _).symm⟩
  | cons service services ih =>
      obtain ⟨first, others⟩ := List.forall_mem_cons.mp stored
      obtain ⟨paths, objects⟩ := reads_of_service first
      refine .step ?_
      rw [List.map_cons, Handler.next, paths]
      refine reaches_paths objects (.step ?_)
      rw [Handler.next, rowsText_services]
      exact ih others _

theorem foldlM_paths {service : Str} {objects : List (Str × ObjectPath)}
    (stored : ∀ object ∈ objects, context.object? service object.1 = some object.2) (oss : Str) :
    (objects.map Prod.fst).foldlM (fun oss path => do
      let object ← context.getObjectPath service path
      return oss ++ objectPathToHtml object service) oss =
        (.ok (oss ++ page ((objects.map Prod.snd).flatMap (objectPieces service))) : Run Str) := by
  induction objects generalizing oss with
  | nil => exact congrArg Except.ok (List.append_nil oss).symm
  | cons object objects ih =>
      obtain ⟨first, others⟩ := List.forall_mem_cons.mp stored
      rw [List.map_cons, List.foldlM_cons, getObjectPath_of_object? first, Cxx.bind_ok]
      refine (ih others _).trans (congrArg Except.ok ?_)
      rw [objectPathToHtml_eq, List.append_assoc, ← page_append, ← List.flatMap_cons, ← List.map_cons]

theorem foldlM_services {services : List (Str × OrderedMap Str ObjectPath)}
    (stored : ∀ service ∈ services, context.objectPaths.find? service.1 = some service.2) (oss : Str) :
    (services.map Prod.fst).foldlM (fun oss serviceName => do
      let oss ← (context.getObjectPathString serviceName).foldlM (fun oss path => do
        let object ← context.getObjectPath serviceName path
        return oss ++ objectPathToHtml object serviceName) (oss ++ detailsOpen serviceName)
      return oss ++ detailsClose) oss = (.ok (oss ++ rowsText (services.map rowOf)) : Run Str) := by
  induction services generalizing oss with
  | nil => exact congrArg Except.ok (List.append_nil oss).symm
  | cons service services ih =>
      obtain ⟨first, others⟩ := List.forall_mem_cons.mp stored
      obtain ⟨paths, objects⟩ := reads_of_service first
      rw [List.map_cons, List.foldlM_cons, paths, foldlM_paths objects, rowsText_services]
      exact ih others _

theorem toHtml_eq (context : InterfaceContext) :
    toHtml context = .ok (rowsText (context.objectPaths.entries.map rowOf)) :=
  foldlM_services (fun _ inside => context.objectPaths.find?_of_mem inside) []

/-- The links on the page of a registry are those of every interface of every object of every
service, in their order. -/
theorem hrefs_registry (coherent : context.Coherent) (shown : Shown context) :
    hrefs (header ++ rowsText (context.objectPaths.entries.map rowOf) ++ footer) =
      context.objectPaths.entries.flatMap fun service => service.2.entries.flatMap fun object =>
        object.2.interfaces.map (interfaceAddress service.1 object.1) := by
  have stored : ∀ service ∈ context.objectPaths.entries,
      context.objectPaths.find? service.1 = some service.2 :=
    fun service inside => context.objectPaths.find?_of_mem inside
  have known : ∀ row ∈ context.objectPaths.entries.map rowOf, row.Known context := by
    intro row inside
    obtain ⟨service, member, rfl⟩ := List.mem_map.mp inside
    obtain ⟨-, objects⟩ := reads_of_service (stored service member)
    refine ⟨Option.isSome_iff_exists.mpr ⟨_, stored service member⟩, fun op inRow => ?_,
      fun op inRow => ?_⟩
    · obtain ⟨object, there, rfl⟩ := List.mem_map.mp inRow
      have found := objects object there
      rw [coherent.objects _ _ _ found]
      exact Option.isSome_iff_exists.mpr ⟨_, found⟩
    · obtain ⟨object, there, rfl⟩ := List.mem_map.mp inRow
      exact coherent.listed _ _ _ (objects object there)
  rw [hrefs_indexPage fun row inside => (known row inside).clean shown, addresses, List.flatMap_map]
  refine List.flatMap_congr fun service inside => ?_
  obtain ⟨-, objects⟩ := reads_of_service (stored service inside)
  rw [rowOf, List.flatMap_map]
  refine List.flatMap_congr fun object there => ?_
  rw [coherent.objects service.1 object.1 object.2 (objects object there)]

theorem mem_hrefs_registry (coherent : context.Coherent) (shown : Shown context) {href : Str} :
    href ∈ hrefs (header ++ rowsText (context.objectPaths.entries.map rowOf) ++ footer) ↔
      ∃ service path op, context.object? service path = some op ∧
        ∃ name ∈ op.interfaces, interfaceAddress service path name = href := by
  rw [hrefs_registry coherent shown]
  simp only [List.mem_flatMap, List.mem_map]
  constructor
  · rintro ⟨service, stored, object, listed, name, inside, address⟩
    obtain ⟨-, objects⟩ := reads_of_service (context.objectPaths.find?_of_mem stored)
    exact ⟨service.1, object.1, object.2, objects object listed, name, inside, address⟩
  · rintro ⟨service, path, op, stored, name, inside, address⟩
    obtain ⟨objects, known, found⟩ := Option.bind_eq_some_iff.mp stored
    exact ⟨(service, objects), OrderedMap.mem_of_find? known, (path, op), OrderedMap.mem_of_find? found,
      name, inside, address⟩

end Alone

open DbusEnumerator

def deskScanned : Scanner := ⟨⟨recorded lightBus.rootElement {} deskCall, [deskCall]⟩, []⟩

def deskPage : Str :=
  [] ++ detailsOpen "a.desk".toList ++
    objectPathToHtml ⟨"/".toList, ["x.Light".toList], []⟩ "a.desk".toList ++ detailsClose

theorem desk_scanned : ScanRun lightBus {} deskScanned := by
  have desk : parseObjectPathsRecursively lightBus "a.desk".toList 1 "/".toList {} =
      .ok (_, ⟨recorded lightBus.rootElement {} deskCall, [deskCall]⟩) := rfl
  exact .head (.begin {} "a.desk".toList "/".toList) (run_scan desk [])

theorem street_scanned : ScanRun lightBus deskScanned ⟨lightsScanned, []⟩ := by
  have street : parseObjectPathsRecursively lightBus "b.street".toList 1 "/".toList
      ⟨recorded lightBus.rootElement {} deskCall, [deskCall]⟩ = .ok (_, lightsScanned) := rfl
  exact .head (.begin _ "b.street".toList "/".toList) (run_scan street [])

theorem desk_drawn : SharedStore.Run (handlers lightBus) SharedStore.Anything ⟨deskScanned, []⟩
    ⟨⟨lightsScanned, []⟩, [.done (.page deskPage)]⟩ := by
  have begun : SharedStore.Run (handlers lightBus) SharedStore.Anything ⟨deskScanned, []⟩
      ⟨deskScanned, [.services [] ["a.desk".toList]]⟩ :=
    .head (.arrive _ [] .html) (.single (.read _ [] [] rfl))
  have written : SharedStore.Run (handlers lightBus) SharedStore.Anything
      ⟨deskScanned, [.services [] ["a.desk".toList]]⟩
      ⟨⟨lightsScanned, []⟩, [.services [] ["a.desk".toList]]⟩ :=
    SharedStore.run_writes street_scanned _ fun _ _ _ _ => trivial
  have ends : SharedStore.Run (handlers lightBus) SharedStore.Anything
      ⟨⟨lightsScanned, []⟩, [.services [] ["a.desk".toList]]⟩
      ⟨⟨lightsScanned, []⟩, [.done (.page deskPage)]⟩ :=
    .head (.read _ [] [] rfl) (.head (.read _ [] [] rfl) (.head (.read _ [] [] rfl)
      (.single (.read _ [] [] rfl))))
  exact (begun.trans written).trans ends

theorem lights_paths {P : Str → Prop} {service path : Str}
    (known : (lightsScanned.context.object? service path).isSome)
    (all : ∀ service ∈ lightsScanned.context.getServiceNames,
      ∀ path ∈ lightsScanned.context.getObjectPathString service, P path) : P path := by
  have ofService : lightsScanned.context.containsService service = true := by
    rw [InterfaceContext.object?, Option.isSome_bind] at known
    rw [InterfaceContext.containsService, OrderedMap.contains]
    exact Option.isSome_of_any known
  exact all service ((OrderedMap.mem_keys_iff _ _).mpr ofService) path
    ((InterfaceContext.mem_getObjectPathString _ _ _).mpr known)

theorem lights_named : Named lightsScanned.context where
  services name known := by
    have all : ∀ name ∈ lightsScanned.context.getServiceNames, name ≠ [] ∧ '/' ∉ name ∧ Name name := by
      decide +kernel
    exact all name ((OrderedMap.mem_keys_iff _ _).mpr known)
  objects service path known := lights_paths known (by decide +kernel)
  interfaces name known := by
    have all : ∀ name ∈ lightsScanned.context.interfaces.keys, '/' ∉ name ∧ Name name := by
      decide +kernel
    exact all name ((OrderedMap.mem_keys_iff _ _).mpr known)
  pages name interface found := by
    have whole : lightsScanned.context.interfaces.entries =
        [("x.Light".toList, lightInterface "scene".toList "s".toList)] := rfl
    have here := OrderedMap.mem_of_find? found
    rw [whole, List.mem_singleton, Prod.mk.injEq] at here
    obtain ⟨rfl, rfl⟩ := here
    exact ⟨⟨by decide, by decide, by decide, by decide⟩, by decide⟩

end WebService

end Dbus2Http
