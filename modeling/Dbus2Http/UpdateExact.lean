import Dbus2Http.UpdateRuns
import Dbus2Http.ScanExact
import Dbus2Http.PageNavigation

set_option autoImplicit false

namespace Dbus2Http.UpdateThread

open Cxx (Str Settles)
open DbusSerialization (declared interfaceNames describedObject)
open DbusEnumerator
open Dbus2Html (Unmarked toHtml header footer hrefs interfaceAddress)

/-! ### What a life of updates leaves in the registry -/

section Exact

variable {bus : Bus} {servicePrefixes : List Str} {fuel : Nat} {services : List Str}

/-- The document of an object that one of these services has. -/
def Documents (trees : ∀ service ∈ services, IntrospectionTree bus service) (service path : Str)
    (node : Element) : Prop :=
  ∃ inside : service ∈ services, Reaches (trees service inside).document path ∧
    (trees service inside).document path = node

/-- The introspection of an object that one of these services has. -/
def Asks (trees : ∀ service ∈ services, IntrospectionTree bus service) (call : Introspection) : Prop :=
  ∃ inside : call.service ∈ services, Reaches (trees call.service inside).document call.path ∧
    (trees call.service inside).text call.path = call.xml

theorem scanService_settles {service : Str} (tree : IntrospectionTree bus service) (before : Scan) :
    ∃ walk, (∀ path, path ∈ walk ↔ Reaches tree.document path) ∧
      Settles (fun fuel => scanService bus fuel before service) (.ok (tree.visited walk before)) := by
  obtain ⟨walk, walked⟩ := tree.exists_walk
  have member : ∀ path, path ∈ walk ↔ Reaches tree.document path := by
    intro path
    simp only [walked.mem_iff, List.mem_singleton, exists_eq_left, Reaches]
  obtain ⟨enough, scans⟩ := IntrospectionTree.scan_forest walked fun path => (member path).mp
  refine ⟨walk, member, enough, fun fuel le => ?_⟩
  have forest := scans fuel le ([], before)
  rw [List.foldlM_cons, Cxx.bind_eq_ok] at forest
  obtain ⟨_, scanned, returned⟩ := forest
  cases returned
  rw [IntrospectionTree.scanNext, Cxx.bind_eq_ok] at scanned
  obtain ⟨⟨objects, after⟩, done, same⟩ := scanned
  obtain rfl : after = tree.visited walk before := congrArg Prod.snd (Except.ok.inj same)
  exact Cxx.bind_eq_ok.mpr ⟨_, done, rfl⟩

theorem asks_cons {service : Str} {rest : List Str}
    (trees : ∀ other ∈ service :: rest, IntrospectionTree bus other) (call : Introspection) :
    Asks trees call ↔
      (∃ path, Reaches (trees service List.mem_cons_self).document path ∧
        (trees service List.mem_cons_self).call path = call) ∨
      Asks (fun other inside => trees other (List.mem_cons_of_mem service inside)) call := by
  obtain ⟨asked, path, xml⟩ := call
  constructor
  · rintro ⟨inside, reached, text⟩
    rcases List.mem_cons.mp inside with rfl | later
    · exact .inl ⟨path, reached, congrArg (Introspection.mk _ _) text⟩
    · exact .inr ⟨later, reached, text⟩
  · rintro (⟨own, reached, same⟩ | ⟨later, reached, text⟩)
    · cases same
      exact ⟨List.mem_cons_self, reached, rfl⟩
    · exact ⟨List.mem_cons_of_mem service later, reached, text⟩

/-- Scans of these services, one after the other, ask for just the objects that they have. -/
theorem scans_settle (trees : ∀ service ∈ services, IntrospectionTree bus service) (before : Scan) :
    ∃ calls, (∀ call, call ∈ calls ↔ Asks trees call) ∧
      Settles (fun fuel => services.foldlM (scanService bus fuel) before)
        (.ok ⟨calls.foldl (recorded bus.rootElement) before.context, before.asked ++ calls⟩) := by
  induction services generalizing before with
  | nil =>
      refine ⟨[], fun call => ⟨fun inside => absurd inside List.not_mem_nil, ?_⟩, 0, fun _ _ => ?_⟩
      · exact fun ⟨inside, _⟩ => absurd inside List.not_mem_nil
      · exact congrArg (fun asked => Except.ok (Scan.mk before.context asked))
          (List.append_nil before.asked).symm
  | cons service rest ih =>
      obtain ⟨walk, member, enough, scans⟩ := scanService_settles (trees service List.mem_cons_self) before
      obtain ⟨calls, asks, enough', others⟩ :=
        ih (fun other inside => trees other (List.mem_cons_of_mem service inside))
          ((trees service List.mem_cons_self).visited walk before)
      refine ⟨walk.map (trees service List.mem_cons_self).call ++ calls, fun call => ?_,
        max enough enough', fun fuel le => ?_⟩
      · rw [List.mem_append, List.mem_map, asks, asks_cons]
        simp only [member]
      · have own := scans fuel (by omega)
        have later := others fuel (by omega)
        dsimp only at own later ⊢
        rw [List.foldlM_cons, own, Cxx.bind_ok, later, IntrospectionTree.visited, List.foldl_append,
          List.append_assoc]

section Read

variable {trees : ∀ service ∈ services, IntrospectionTree bus service} {calls : List Introspection}
  (asks : ∀ call, call ∈ calls ↔ Asks trees call)

include asks

theorem documents_iff {service path : Str} {node : Element} :
    Documents trees service path node ↔
      ∃ call ∈ calls, call.service = service ∧ call.path = path ∧ bus.rootElement call.xml = some node := by
  constructor
  · rintro ⟨inside, reached, rfl⟩
    refine ⟨(trees service inside).call path, (asks _).mpr ⟨inside, reached, rfl⟩, rfl, rfl, ?_⟩
    exact (trees service inside).root path reached
  · rintro ⟨call, asked, rfl, rfl, root⟩
    obtain ⟨inside, reached, text⟩ := (asks call).mp asked
    refine ⟨inside, reached, ?_⟩
    rw [← text, (trees _ inside).root _ reached] at root
    exact Option.some.inj root

/-- Just the objects of the services are stored, as their documents describe them. -/
theorem object?_asked {service path : Str} {op : ObjectPath} :
    (calls.foldl (recorded bus.rootElement) {}).object? service path = some op ↔
      ∃ node, Documents trees service path node ∧ describedObject path node = op := by
  have described : ∀ op, (calls.foldl (recorded bus.rootElement) {}).object? service path = some op →
      ∃ node, Documents trees service path node ∧ describedObject path node = op := by
    intro op stored
    obtain ⟨call, asked, rfl, rfl, rfl⟩ := asked_of_object?_replay bus.rootElement stored
    obtain ⟨inside, reached, text⟩ := (asks call).mp asked
    have object : objectOf bus.rootElement call =
        describedObject call.path ((trees _ inside).document call.path) := by
      rw [objectOf, ← text, (trees _ inside).root _ reached]
    rw [object]
    exact ⟨_, ⟨inside, reached, rfl⟩, rfl⟩
  refine ⟨described op, ?_⟩
  rintro ⟨node, document, rfl⟩
  obtain ⟨call, asked, rfl, rfl, root⟩ := (documents_iff asks).mp document
  have own : (objectOf bus.rootElement call).path = call.path := by
    rw [objectOf, root]
    rfl
  have hit : (calls.reverse.find? fun other => call.service = other.service ∧
      call.path = (objectOf bus.rootElement other).path).isSome := by
    rw [List.find?_isSome]
    exact ⟨call, List.mem_reverse.mpr asked, by simp [own]⟩
  obtain ⟨last, found⟩ := Option.isSome_iff_exists.mp hit
  have stored : (calls.foldl (recorded bus.rootElement) {}).object? call.service call.path =
      some (objectOf bus.rootElement last) := by
    rw [object?_replay, found]
    rfl
  obtain ⟨other, ⟨_, _, rfl⟩, same⟩ := described _ stored
  obtain ⟨_, _, rfl⟩ := document
  rw [stored, same]

/-- What is stored under the name of an interface is one of its declarations. -/
theorem interfaces_asked {name : Str} {interface : Interface}
    (found : (calls.foldl (recorded bus.rootElement) {}).interfaces.find? name = some interface) :
    ∃ service path node, Documents trees service path node ∧ interface ∈ declared node ∧
      interface.name = name := by
  have empty : (InterfaceContext.interfaces {}).find? name = none := rfl
  rw [interfaces_replay, empty, Option.or_none] at found
  have inside := List.mem_reverse.mp (List.mem_of_find?_eq_some found)
  obtain ⟨call, asked, declares⟩ := List.mem_flatMap.mp inside
  rw [declarations] at declares
  cases root : bus.rootElement call.xml with
  | none =>
      rw [root] at declares
      exact absurd declares List.not_mem_nil
  | some node =>
      rw [root] at declares
      exact ⟨_, _, node, (documents_iff asks).mpr ⟨call, asked, rfl, rfl, root⟩, declares,
        by simpa using List.find?_some found⟩

end Read

/-- The names of these services, of their objects and of the interfaces are shown as they are. -/
structure ShownTrees (trees : ∀ service ∈ services, IntrospectionTree bus service) : Prop where
  services : ∀ service ∈ services, Unmarked service
  paths : ∀ service path node, Documents trees service path node → Unmarked path
  declared : ∀ service path node, Documents trees service path node → ∀ interface ∈ declared node,
    Unmarked interface.name

theorem ShownTrees.registry {trees : ∀ service ∈ services, IntrospectionTree bus service}
    (shown : ShownTrees trees) {calls : List Introspection}
    (asks : ∀ call, call ∈ calls ↔ Asks trees call) :
    Dbus2Html.Shown (calls.foldl (recorded bus.rootElement) {}) where
  services name known := by
    rcases (containsService_replay _ _ _ _).mp known with ⟨call, asked, rfl⟩ | before
    · obtain ⟨inside, -⟩ := (asks call).mp asked
      exact shown.services _ inside
    · cases before
  objects service path known := by
    obtain ⟨op, stored⟩ := Option.isSome_iff_exists.mp known
    obtain ⟨node, document, -⟩ := (object?_asked asks).mp stored
    exact shown.paths _ _ _ document
  interfaces name known := by
    obtain ⟨interface, found⟩ := Option.isSome_iff_exists.mp known
    obtain ⟨service, path, node, document, declares, rfl⟩ := interfaces_asked asks found
    exact shown.declared _ _ _ document interface declares

theorem scans_coherent {scan : Scan} (done : services.foldlM (scanService bus fuel) {} = .ok scan) :
    scan.context.Coherent := by
  have scanned : Scanned bus scan := by
    refine Cxx.foldlM_preserves (P := Scanned bus) ?_ done .start
    intro service _ before after round run
    rw [scanService, Cxx.bind_eq_ok] at round
    obtain ⟨⟨objects, between⟩, scanned, returned⟩ := round
    cases returned
    exact run.scan scanned
  exact (run_steady scanned.run).coherent

end Exact

def lampListings : List (Option (List Str)) := [some ["a.lamp".toList, "b.lamp".toList]]

theorem lamp_listed {service : Str}
    (inside : service ∈ newServices (configuredPrefixes ["a.".toList]) {} lampListings) :
    "a.lamp".toList = service := by
  have only : newServices (configuredPrefixes ["a.".toList]) {} lampListings = ["a.lamp".toList] := by
    decide
  rw [only] at inside
  exact (List.mem_singleton.mp inside).symm

def lampTrees (service : Str)
    (inside : service ∈ newServices (configuredPrefixes ["a.".toList]) {} lampListings) :
    IntrospectionTree lampBus service :=
  lamp_listed inside ▸ lampTree

theorem lamp_documents {service path : Str} {node : Element} :
    Documents lampTrees service path node ↔
      "a.lamp".toList = service ∧ path ∈ ["/".toList, "/x".toList] ∧ lampDocument path = node := by
  constructor
  · rintro ⟨inside, reached, document⟩
    obtain rfl := lamp_listed inside
    exact ⟨rfl, lamp_paths reached, document⟩
  · rintro ⟨rfl, below, document⟩
    have inside : "a.lamp".toList ∈ newServices (configuredPrefixes ["a.".toList]) {} lampListings := by
      decide
    have reached : Reaches lampDocument path := by
      rcases List.mem_pair.mp below with rfl | rfl
      · exact .refl
      · exact .single (by decide)
    exact ⟨inside, reached, document⟩

end Dbus2Http.UpdateThread
