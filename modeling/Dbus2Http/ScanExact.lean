import Dbus2Http.DbusEnumerator
import Dbus2Http.PreorderWalk

set_option autoImplicit false

namespace Dbus2Http.DbusEnumerator

open Cxx (Str Run Settles)
open DbusSerialization

/-- The paths a scan goes on to from one path, when the documents are these. -/
def childrenOf (document : Str → Element) (path : Str) : List Str :=
  (childNames (document path)).map (childPath path)

def Reaches (document : Str → Element) (path : Str) : Prop :=
  PreorderWalk.Below (childrenOf document) "/".toList path

/-- A service whose objects form a finite tree of well formed documents, the same ones each time
they are asked for. -/
structure IntrospectionTree (bus : Bus) (service : Str) where
  text : Str → Str
  document : Str → Element
  answers : ∀ path, Reaches document path →
    ∀ asked, bus.introspectService asked service path = text path
  root : ∀ path, Reaches document path → bus.rootElement (text path) = some (document path)
  named : ∀ path, Reaches document path → Named (document path)
  childrenNamed : ∀ path, Reaches document path → [] ∉ childNames (document path)
  finite : {path | Reaches document path}.Finite

theorem length_childPath (path child : Str) (named : child ≠ []) :
    path.length < (childPath path child).length := by
  have positive := List.length_pos_iff.mpr named
  simp only [childPath, List.length_append]
  omega

namespace IntrospectionTree

variable {bus : Bus} {service : Str} (tree : IntrospectionTree bus service)

/-- Child paths are longer than their parent's, so a finite tree has a preorder. -/
theorem exists_walk :
    ∃ walk, PreorderWalk (childrenOf tree.document) ["/".toList] walk := by
  refine PreorderWalk.exists_of_finite List.length ?_ tree.finite
  intro path reached child inside
  obtain ⟨name, listed, rfl⟩ := List.mem_map.mp inside
  have nonempty : name ≠ [] := by
    intro empty
    exact tree.childrenNamed path reached (empty ▸ listed)
  exact length_childPath path name nonempty

def object (path : Str) : ObjectPath := describedObject path (tree.document path)

def call (path : Str) : Introspection := ⟨service, path, tree.text path⟩

/-- The state after visiting these paths one after another. -/
def visited (walk : List Str) (scan : Scan) : Scan where
  context := (walk.map tree.call).foldl (recorded bus.rootElement) scan.context
  asked := scan.asked ++ walk.map tree.call

theorem visited_nil (scan : Scan) : tree.visited [] scan = scan := by
  simp [visited]

theorem visited_append (first second : List Str) (scan : Scan) :
    tree.visited (first ++ second) scan = tree.visited second (tree.visited first scan) := by
  simp [visited, List.foldl_append]

variable {tree}

theorem objectOf_call {path : Str} (reached : Reaches tree.document path) :
    objectOf bus.rootElement (tree.call path) = tree.object path := by
  rw [objectOf, call, tree.root path reached]
  rfl

theorem declarations_call {path : Str} (reached : Reaches tree.document path) :
    declarations bus.rootElement (tree.call path) = declared (tree.document path) := by
  rw [declarations, call, tree.root path reached]

theorem visit_eq {path : Str} (reached : Reaches tree.document path) (scan : Scan) :
    visit bus service path scan = .ok (tree.object path, tree.visited [path] scan) := by
  have answer := tree.answers path reached scan.asked
  refine visit_eq_ok.mpr ⟨?_, ?_⟩
  · intro node found
    rw [answer, tree.root path reached] at found
    cases found
    exact tree.named path reached
  · rw [answer, ← objectOf_call reached]
    rfl

/-- One round of the loop over the children. -/
def scanNext (bus : Bus) (service : Str) (fuel : Nat) (state : List ObjectPath × Scan)
    (path : Str) : Run (List ObjectPath × Scan) := do
  let (childOps, scanned) ← parseObjectPathsRecursively bus service fuel path state.2
  return (state.1 ++ childOps, scanned)

theorem parse_eq {path : Str} (reached : Reaches tree.document path) (fuel : Nat) (scan : Scan) :
    parseObjectPathsRecursively bus service (fuel + 1) path scan =
      (childrenOf tree.document path).foldlM (scanNext bus service fuel)
        ([tree.object path], tree.visited [path] scan) := by
  rw [parseObjectPathsRecursively, visit_eq reached, childrenOf, List.foldlM_map]
  rfl

/-- The loop visits a forest in preorder. The induction follows the walk: a root uses one unit of
fuel more than its children. -/
theorem scan_forest {forest walk : List Str}
    (walked : PreorderWalk (childrenOf tree.document) forest walk)
    (reached : ∀ path ∈ walk, Reaches tree.document path) :
    ∃ enough, ∀ fuel, enough ≤ fuel → ∀ state : List ObjectPath × Scan,
      forest.foldlM (scanNext bus service fuel) state =
        .ok (state.1 ++ walk.map tree.object, tree.visited walk state.2) := by
  induction walked with
  | nil =>
      refine ⟨0, fun fuel _ state => ?_⟩
      simp [visited_nil, pure, Except.pure]
  | @cons path rest below after down next ihDown ihNext =>
      obtain ⟨deep, children⟩ := ihDown fun child inside => reached child (by simp [inside])
      obtain ⟨wide, others⟩ := ihNext fun other inside => reached other (by simp [inside])
      refine ⟨max (deep + 1) wide, fun fuel le state => ?_⟩
      obtain ⟨fuel, rfl⟩ : ∃ less, fuel = less + 1 := ⟨fuel - 1, by omega⟩
      have own : scanNext bus service (fuel + 1) state path =
          .ok (state.1 ++ (path :: below).map tree.object, tree.visited (path :: below) state.2) := by
        rw [scanNext, parse_eq (reached path List.mem_cons_self), children fuel (by omega)]
        rw [← visited_append]
        rfl
      rw [List.foldlM_cons, own, Cxx.bind_ok, others (fuel + 1) (by omega), ← visited_append]
      simp

/-- Visiting stores each visited object at its path and nothing else. -/
theorem object?_visited {walk : List Str} (reached : ∀ path ∈ walk, Reaches tree.document path)
    (scan : Scan) (path : Str) :
    (tree.visited walk scan).context.object? service path =
      if path ∈ walk then some (tree.object path) else scan.context.object? service path := by
  have hits : ∀ visited ∈ walk, (service = (tree.call visited).service ∧
      path = (objectOf bus.rootElement (tree.call visited)).path) ↔ visited = path := by
    intro visited inside
    rw [objectOf_call (reached visited inside)]
    exact ⟨fun hit => hit.2.symm, fun same => ⟨rfl, same.symm⟩⟩
  rw [visited, object?_replay, ← List.map_reverse, List.find?_map]
  by_cases inside : path ∈ walk
  · obtain ⟨last, member, found, hit⟩ := OrderedMap.exists_last
      ((fun call : Introspection => decide (service = call.service ∧
        path = (objectOf bus.rootElement call).path)) ∘ tree.call)
      inside (decide_eq_true ((hits path inside).mpr rfl))
    have same := (hits last member).mp (of_decide_eq_true hit)
    rw [if_pos inside, found, Option.map_some, Option.map_some, same,
      objectOf_call (reached path inside)]
    rfl
  · rw [if_neg inside]
    have none : walk.reverse.find? ((fun call : Introspection => decide (service = call.service ∧
        path = (objectOf bus.rootElement call).path)) ∘ tree.call) = none := by
      refine List.find?_eq_none.mpr fun visited member => ?_
      have visitedInside := List.mem_reverse.mp member
      have different : visited ≠ path := fun same => inside (same ▸ visitedInside)
      simpa using fun hit => different ((hits visited visitedInside).mp hit)
    rw [none]
    rfl

theorem interfaces_visited {walk : List Str}
    (reached : ∀ path ∈ walk, Reaches tree.document path) (scan : Scan) (name : Str) :
    (tree.visited walk scan).context.interfaces.find? name =
      ((walk.flatMap fun path => declared (tree.document path)).reverse.find? (·.name = name)).or
        (scan.context.interfaces.find? name) := by
  have documents : (walk.map tree.call).flatMap (declarations bus.rootElement) =
      walk.flatMap fun path => declared (tree.document path) := by
    rw [List.flatMap_map]
    exact List.flatMap_congr fun path inside => declarations_call (reached path inside)
  rw [visited, interfaces_replay, documents]

theorem objectPaths_visited {walk : List Str} (scan : Scan) {other : Str} (ne : other ≠ service) :
    (tree.visited walk scan).context.objectPaths.find? other =
      scan.context.objectPaths.find? other := by
  refine objectPaths_replay_of_ne _ _ _ fun call inside => ?_
  obtain ⟨path, -, rfl⟩ := List.mem_map.mp inside
  exact ne.symm

end IntrospectionTree

/-- A scan of such a service ends, returns its objects in preorder, and leaves in the registry what
they declare: their paths beside those known before, each with its own interface names, no other
service touched, and the last declaration of each interface in preorder. -/
theorem scan_exact {bus : Bus} {service : Str} (tree : IntrospectionTree bus service)
    (before : Scan) :
    ∃ walk after,
      PreorderWalk (childrenOf tree.document) ["/".toList] walk ∧
      Settles (fun fuel => parseObjectPathsRecursively bus service fuel "/".toList before)
        (.ok (walk.map fun path => describedObject path (tree.document path), after)) ∧
      (∀ path, path ∈ after.context.getObjectPathString service ↔
        Reaches tree.document path ∨ path ∈ before.context.getObjectPathString service) ∧
      (∀ path, Reaches tree.document path →
        after.context.object? service path = some (describedObject path (tree.document path))) ∧
      (∀ path, ¬ Reaches tree.document path →
        after.context.object? service path = before.context.object? service path) ∧
      (∀ other, other ≠ service →
        after.context.objectPaths.find? other = before.context.objectPaths.find? other) ∧
      ∀ name, after.context.interfaces.find? name =
        ((walk.flatMap fun path => declared (tree.document path)).reverse.find? (·.name = name)).or
          (before.context.interfaces.find? name) := by
  obtain ⟨walk, walked⟩ := tree.exists_walk
  have member : ∀ path, path ∈ walk ↔ Reaches tree.document path := by
    intro path
    simp only [walked.mem_iff, List.mem_singleton, exists_eq_left, Reaches]
  have reached : ∀ path ∈ walk, Reaches tree.document path := fun path => (member path).mp
  have stored := IntrospectionTree.object?_visited reached before
  refine ⟨walk, tree.visited walk before, walked, ?_, ?_, ?_, ?_, ?_, ?_⟩
  · cases walked with
    | @cons _ _ below _ down next =>
        cases next
        obtain ⟨enough, scans⟩ := IntrospectionTree.scan_forest down
          fun path inside => reached path (by simp [inside])
        refine ⟨enough + 1, fun fuel le => ?_⟩
        obtain ⟨fuel, rfl⟩ : ∃ less, fuel = less + 1 := ⟨fuel - 1, by omega⟩
        dsimp only
        rw [IntrospectionTree.parse_eq .refl, scans fuel (by omega),
          ← IntrospectionTree.visited_append, List.append_nil]
        rfl
  · intro path
    rw [InterfaceContext.mem_getObjectPathString, InterfaceContext.mem_getObjectPathString,
      stored, ← member]
    by_cases inside : path ∈ walk <;> simp [inside]
  · intro path reaches
    rw [stored, if_pos ((member path).mpr reaches)]
    rfl
  · intro path unreached
    rw [stored, if_neg fun inside => unreached ((member path).mp inside)]
  · intro other ne
    exact IntrospectionTree.objectPaths_visited before ne
  · exact IntrospectionTree.interfaces_visited reached before

/-! ### A service with two objects -/

def lampText (path : Str) : Str :=
  if path = "/".toList then "<node><interface name='a.Lamp'/><node name='x'/></node>".toList
  else "<node><interface name='a.Dimmer'/><interface name='a.Lamp'/></node>".toList

def lampDocument (path : Str) : Element :=
  if path = "/".toList then
    .mk "node".toList [] [
      .mk "interface".toList [("name".toList, "a.Lamp".toList)] [],
      .mk "node".toList [("name".toList, "x".toList)] []]
  else
    .mk "node".toList [] [
      .mk "interface".toList [("name".toList, "a.Dimmer".toList)] [],
      .mk "interface".toList [("name".toList, "a.Lamp".toList)] []]

def lampBus : Bus where
  introspectService _ _ path := lampText path
  rootElement xml :=
    if xml = lampText "/".toList then some (lampDocument "/".toList)
    else if xml = lampText "/x".toList then some (lampDocument "/x".toList)
    else none
  rootElement_empty := by decide

theorem lamp_paths {path : Str} (reached : Reaches lampDocument path) :
    path ∈ ["/".toList, "/x".toList] := by
  induction reached with
  | refl => exact List.mem_cons_self
  | tail _ step known =>
      have inside : ∀ known ∈ ["/".toList, "/x".toList], ∀ child ∈ childrenOf lampDocument known,
          child ∈ ["/".toList, "/x".toList] := by decide
      exact inside _ known _ step

def lampTree : IntrospectionTree lampBus "a.lamp".toList where
  text := lampText
  document := lampDocument
  answers _ _ _ := rfl
  root path reached := by
    have roots : ∀ path ∈ ["/".toList, "/x".toList],
        lampBus.rootElement (lampText path) = some (lampDocument path) := by
      intro path inside
      rcases List.mem_cons.mp inside with rfl | later
      · rfl
      · rw [List.mem_singleton.mp later]
        rfl
    exact roots path (lamp_paths reached)
  named path reached := by
    have named : ∀ path ∈ ["/".toList, "/x".toList], Named (lampDocument path) := by decide
    exact named path (lamp_paths reached)
  childrenNamed path reached := by
    have named : ∀ path ∈ ["/".toList, "/x".toList], [] ∉ childNames (lampDocument path) := by
      decide
    exact named path (lamp_paths reached)
  finite := Set.Finite.subset (List.finite_toSet ["/".toList, "/x".toList])
    fun _ reached => lamp_paths reached

/-- After the scan of an empty registry both objects are known. -/
theorem lamp_scanned : ∃ objects after,
    Settles (fun fuel => parseObjectPathsRecursively lampBus "a.lamp".toList fuel "/".toList {})
      (.ok (objects, after)) ∧
    "/x".toList ∈ after.context.getObjectPathString "a.lamp".toList := by
  obtain ⟨walk, after, -, ends, paths, -⟩ := scan_exact lampTree {}
  have below : Reaches lampDocument "/x".toList := .single (by decide)
  exact ⟨_, after, ends, (paths "/x".toList).mpr (Or.inl below)⟩

end Dbus2Http.DbusEnumerator
