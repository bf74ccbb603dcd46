import Dbus2Http.ScanExact

set_option autoImplicit false

namespace Dbus2Http.DbusEnumerator

open Cxx (Str Run Ends Throws)
open DbusSerialization
open IntrospectionTree (scanNext)

/-! ### The calls of a scan -/

/-- The child names an answer gives. -/
def childrenIn (bus : Bus) (xml : Str) : List Str :=
  match bus.rootElement xml with
  | some node => childNames node
  | none => []

/-- The parser raises on the answer. -/
def Raises (bus : Bus) (xml : Str) : Prop := ∃ node, bus.rootElement xml = some node ∧ ¬ Named node

theorem childrenIn_empty (bus : Bus) : childrenIn bus [] = [] := by
  rw [childrenIn, bus.rootElement_empty]

theorem objectOf_children (bus : Bus) (call : Introspection) :
    (objectOf bus.rootElement call).childrenPaths = childrenIn bus call.xml := by
  unfold objectOf childrenIn
  cases bus.rootElement call.xml <;> rfl

theorem takeInterface_ends (state : ObjectPath × InterfaceContext) (iface : Element) :
    Ends (takeInterface state iface) := by
  unfold takeInterface
  cases iface.attribute? "name".toList with
  | none => exact .throwExn _ _
  | some name => exact .ok _

/-- The parser comes to an end on every document. -/
theorem visit_ends (bus : Bus) (service path : Str) (scan : Scan) : Ends (visit bus service path scan) := by
  unfold visit
  apply Ends.bind
  · unfold parseSingleObjectPath
    cases bus.rootElement (bus.introspectService scan.asked service path) with
    | none => exact .ok _
    | some node =>
        apply Ends.bind
        · exact .foldlM (fun iface _ state => takeInterface_ends state iface) _
        · intro parsed _
          exact .ok _
  · intro parsed _
    exact .ok _

theorem parse_succ (bus : Bus) (service : Str) (fuel : Nat) (path : Str) (scan : Scan) :
    parseObjectPathsRecursively bus service (fuel + 1) path scan =
      visit bus service path scan >>= fun visited =>
        (visited.1.childrenPaths.map (childPath path)).foldlM (scanNext bus service fuel)
          ([visited.1], visited.2) := by
  rw [parseObjectPathsRecursively]
  congr 1
  funext visited
  rw [List.foldlM_map]
  rfl

/-- What a visit goes on to is in the answer it got. -/
theorem visit_children {bus : Bus} {service path : Str} {scan after : Scan} {object : ObjectPath}
    (visited : visit bus service path scan = .ok (object, after)) :
    object.childrenPaths = childrenIn bus (bus.introspectService scan.asked service path) := by
  obtain ⟨_, made⟩ := visit_eq_ok.mp visited
  rw [(Prod.mk.inj made).1, objectOf_children]

/-! ### Below the root -/

/-- Only finitely many paths are ever answered, whatever the answers are. -/
def FinitelyAnswered (bus : Bus) (service : Str) : Prop :=
  {path | ∃ asked, bus.introspectService asked service path ≠ []}.Finite

/-- No path longer than this is answered. -/
def AnsweredUpTo (bus : Bus) (service : Str) (bound : Nat) : Prop :=
  ∀ asked path, bound < path.length → bus.introspectService asked service path = []

theorem FinitelyAnswered.exists_bound {bus : Bus} {service : Str}
    (finite : FinitelyAnswered bus service) : ∃ bound, AnsweredUpTo bus service bound := by
  obtain ⟨bound, bounded⟩ := (finite.image List.length).bddAbove
  refine ⟨bound, fun asked path long => ?_⟩
  by_contra answered
  have short : path.length ≤ bound := bounded ⟨path, ⟨asked, answered⟩, rfl⟩
  omega

theorem length_childPath_below {path : Str} (below : path ≠ "/".toList) (child : Str) :
    path.length < (childPath path child).length := by
  simp only [childPath, if_neg below, List.length_append]
  change path.length < path.length + 1 + child.length
  omega

/-- The paths below the root. -/
def Deep (path : Str) : Prop := 1 < path.length

theorem Deep.ne_root {path : Str} (deep : Deep path) : path ≠ "/".toList := by
  rintro rfl
  exact Nat.lt_irrefl 1 deep

theorem Deep.child {path : Str} (deep : Deep path) (child : Str) : Deep (childPath path child) :=
  Nat.lt_trans deep (length_childPath_below deep.ne_root child)

theorem deep_child_of_root {child : Str} (named : child ≠ []) : Deep (childPath "/".toList child) := by
  have longer := length_childPath "/".toList child named
  exact longer

/-- Paths only get longer below the root, and no path above the bound has children. -/
theorem scan_ends_below {bus : Bus} {service : Str} {bound : Nat}
    (answered : AnsweredUpTo bus service bound) {fuel : Nat} {path : Str} (deep : Deep path)
    (some : 0 < fuel) (enough : bound + 1 < fuel + path.length) (scan : Scan) :
    Ends (parseObjectPathsRecursively bus service fuel path scan) := by
  induction fuel generalizing path scan with
  | zero => omega
  | succ fuel ih =>
      rw [parse_succ]
      apply (visit_ends bus service path scan).bind
      rintro ⟨object, after⟩ visited
      have children := visit_children visited
      apply Ends.foldlM
      intro child inside state
      obtain ⟨name, listed, rfl⟩ := List.mem_map.mp inside
      have short : path.length ≤ bound := by
        by_contra long
        rw [answered _ path (by omega), childrenIn_empty] at children
        simp only [children, List.not_mem_nil] at listed
      have longer := length_childPath_below deep.ne_root name
      unfold scanNext
      apply (ih (deep.child name) (by omega) (by omega) state.2).bind
      intro scanned _
      exact .ok _

/-- A round of the loop over the children of the root, unless it goes back to the root. -/
theorem scanNext_ends {bus : Bus} {service : Str} {bound : Nat}
    (answered : AnsweredUpTo bus service bound) {child : Str} (named : child ≠ [])
    (state : List ObjectPath × Scan) :
    Ends (scanNext bus service (bound + 1) state (childPath "/".toList child)) := by
  have deep := deep_child_of_root named
  have length : 1 < (childPath "/".toList child).length := deep
  unfold scanNext
  apply (scan_ends_below answered deep (by omega) (by omega) state.2).bind
  intro scanned _
  exact .ok _

/-- The scan comes to an end, normally or with an exception. -/
def Terminates (bus : Bus) (service : Str) (scan : Scan) : Prop :=
  ∃ calls, Ends (parseObjectPathsRecursively bus service calls "/".toList scan)

/-- Where the root never names a child with an empty name the scan ends, even when the
answers change all the time. -/
theorem scan_terminates {bus : Bus} {service : Str} (finite : FinitelyAnswered bus service)
    (named : ∀ asked, [] ∉ childrenIn bus (bus.introspectService asked service "/".toList))
    (scan : Scan) : Terminates bus service scan := by
  obtain ⟨bound, answered⟩ := finite.exists_bound
  refine ⟨bound + 2, ?_⟩
  rw [parse_succ]
  apply (visit_ends bus service _ scan).bind
  rintro ⟨object, after⟩ visited
  have children := visit_children visited
  apply Ends.foldlM
  intro child inside state
  obtain ⟨name, listed, rfl⟩ := List.mem_map.mp inside
  apply scanNext_ends answered
  rintro rfl
  rw [children] at listed
  exact named _ listed

/-! ### A service that gives the same answers each time -/

def AlwaysAnswers (bus : Bus) (service : Str) (text : Str → Str) : Prop :=
  ∀ asked path, bus.introspectService asked service path = text path

/-- The paths a scan goes on to from a path. -/
def childrenAt (bus : Bus) (text : Str → Str) (path : Str) : List Str :=
  (childrenIn bus (text path)).map (childPath path)

/-- Nothing at the path or below it makes the parser raise. -/
def Quiet (bus : Bus) (text : Str → Str) (path : Str) : Prop :=
  ∀ other, PreorderWalk.Below (childrenAt bus text) path other → ¬ Raises bus (text other)

section Steady

variable {bus : Bus} {service : Str} {text : Str → Str} (steady : AlwaysAnswers bus service text)

include steady

theorem visit_ok_of_quiet {path : Str} (calm : ¬ Raises bus (text path)) (scan : Scan) :
    ∃ visited, visit bus service path scan = .ok visited := by
  refine ⟨_, visit_eq_ok.mpr ⟨?_, rfl⟩⟩
  intro node found
  rw [steady] at found
  by_contra nameless
  exact calm ⟨node, found, nameless⟩

theorem calm_of_visit {path : Str} {scan : Scan} {visited : ObjectPath × Scan}
    (done : visit bus service path scan = .ok visited) : ¬ Raises bus (text path) := by
  rintro ⟨node, found, nameless⟩
  have named := (visit_eq_ok.mp done).1
  rw [steady] at named
  exact nameless (named node found)

theorem parse_children {path : Str} {scan : Scan} {visited : ObjectPath × Scan}
    (done : visit bus service path scan = .ok visited) (fuel : Nat) :
    parseObjectPathsRecursively bus service (fuel + 1) path scan =
      (childrenAt bus text path).foldlM (scanNext bus service fuel) ([visited.1], visited.2) := by
  obtain ⟨object, after⟩ := visited
  rw [parse_succ, done, Cxx.bind_ok, visit_children done, steady]
  rfl

/-- Without a document that makes the parser raise, no scan throws. -/
theorem scan_calm {path : Str} (quiet : Quiet bus text path) (fuel : Nat) (scan : Scan) :
    ¬ Throws (parseObjectPathsRecursively bus service fuel path scan) := by
  induction fuel generalizing path scan with
  | zero =>
      rintro ⟨exn, raised⟩
      cases raised
  | succ fuel ih =>
      obtain ⟨visited, done⟩ := visit_ok_of_quiet steady (quiet path .refl) scan
      rw [parse_children steady done]
      apply Cxx.not_throws_foldlM
      intro child inside state throws
      have below : Quiet bus text child := fun other walk => quiet other (.head inside walk)
      rcases throws.of_bind with called | ⟨scanned, _, exn, returned⟩
      · exact ih below state.2 called
      · cases returned

omit steady in
/-- A loop that ends normally has ended normally in every round. -/
theorem exists_round {paths : List Str} {fuel : Nat} {state result : List ObjectPath × Scan}
    (done : paths.foldlM (scanNext bus service fuel) state = .ok result) {path : Str}
    (inside : path ∈ paths) :
    ∃ scan scanned, parseObjectPathsRecursively bus service fuel path scan = .ok scanned := by
  induction paths generalizing state with
  | nil => cases inside
  | cons first rest ih =>
      rw [List.foldlM_cons, Cxx.bind_eq_ok] at done
      obtain ⟨next, round, others⟩ := done
      rcases List.mem_cons.mp inside with same | later
      · obtain ⟨scanned, called, _⟩ := Cxx.bind_eq_ok.mp round
        rw [same]
        exact ⟨state.2, scanned, called⟩
      · exact ih others later

/-- A scan that returns has met no document that makes the parser raise. -/
theorem quiet_of_scan {path : Str} {fuel : Nat} {scan : Scan} {result : List ObjectPath × Scan}
    (done : parseObjectPathsRecursively bus service fuel path scan = .ok result) :
    Quiet bus text path := by
  intro other walk
  induction walk using Relation.ReflTransGen.head_induction_on generalizing fuel scan result with
  | refl =>
      cases fuel with
      | zero => cases done
      | succ fuel =>
          rw [parse_succ, Cxx.bind_eq_ok] at done
          obtain ⟨visited, first, _⟩ := done
          exact calm_of_visit steady first
  | head step _ ih =>
      cases fuel with
      | zero => cases done
      | succ fuel =>
          have visits := done
          rw [parse_succ, Cxx.bind_eq_ok] at visits
          obtain ⟨visited, first, _⟩ := visits
          rw [parse_children steady first] at done
          obtain ⟨scan', scanned, called⟩ := exists_round done step
          exact ih called

/-- The document of the root can be read, it names a child with an empty name, and nothing
makes the parser raise below the children named before that one. -/
def ReturnsToRoot (bus : Bus) (text : Str → Str) : Prop :=
  ¬ Raises bus (text "/".toList) ∧ ∃ before after,
    childrenIn bus (text "/".toList) = before ++ [] :: after ∧
      ∀ child ∈ before, child ≠ [] ∧ Quiet bus text (childPath "/".toList child)

/-- The path of a child of the root without a name is the root again. -/
theorem scan_endless (returns : ReturnsToRoot bus text) (fuel : Nat) (scan : Scan) :
    parseObjectPathsRecursively bus service fuel "/".toList scan = .error .outOfFuel := by
  obtain ⟨calm, before, after, listed, quiet⟩ := returns
  induction fuel generalizing scan with
  | zero => rfl
  | succ fuel ih =>
      obtain ⟨visited, done⟩ := visit_ok_of_quiet steady calm scan
      have paths : childrenAt bus text "/".toList = before.map (childPath "/".toList) ++
          "/".toList :: after.map (childPath "/".toList) := by
        rw [childrenAt, listed, List.map_append, List.map_cons]
        rfl
      rw [parse_children steady done, paths, List.foldlM_append]
      have round : ∀ path ∈ before.map (childPath "/".toList), ∀ state,
          ¬ Throws (scanNext bus service fuel state path) := by
        intro path inside state throws
        obtain ⟨child, member, rfl⟩ := List.mem_map.mp inside
        rcases throws.of_bind with called | ⟨scanned, _, exn, returned⟩
        · exact scan_calm steady (quiet child member).2 fuel state.2 called
        · cases returned
      have calmBefore := Cxx.not_throws_foldlM round ([visited.1], visited.2)
      cases loop : (before.map (childPath "/".toList)).foldlM (scanNext bus service fuel)
          ([visited.1], visited.2) with
      | ok state =>
          rw [Cxx.bind_ok, List.foldlM_cons]
          simp only [scanNext, ih, Cxx.bind_error]
      | error fault =>
          rw [loop] at calmBefore
          cases fault with
          | thrown exn => exact absurd ⟨exn, rfl⟩ calmBefore
          | outOfFuel => rfl

theorem scan_ends_unless_returning (finite : FinitelyAnswered bus service)
    (leaves : ¬ ReturnsToRoot bus text) (scan : Scan) : Terminates bus service scan := by
  by_cases named : [] ∈ childrenIn bus (text "/".toList)
  · obtain ⟨before, after, listed, fresh⟩ := List.eq_append_cons_of_mem named
    obtain ⟨bound, answered⟩ := finite.exists_bound
    refine ⟨bound + 2, ?_⟩
    cases first : visit bus service "/".toList scan with
    | error fault =>
        have ends := visit_ends bus service "/".toList scan
        rw [first] at ends
        rw [parse_succ, first, Cxx.bind_error]
        simpa [Ends] using ends
    | ok visited =>
        rw [parse_children steady first, childrenAt, listed, List.map_append, List.foldlM_append]
        have calm := calm_of_visit steady first
        have rounds : Ends ((before.map (childPath "/".toList)).foldlM
            (scanNext bus service (bound + 1)) ([visited.1], visited.2)) := by
          apply Ends.foldlM
          intro path inside state
          obtain ⟨child, member, rfl⟩ := List.mem_map.mp inside
          apply scanNext_ends answered
          rintro rfl
          exact fresh member
        apply rounds.bind
        intro state done
        -- the children before the empty name have all been scanned
        apply absurd _ leaves
        refine ⟨calm, before, after, listed, ?_⟩
        intro child member
        obtain ⟨scan', scanned, called⟩ := exists_round done (List.mem_map_of_mem member)
        refine ⟨?_, quiet_of_scan steady called⟩
        rintro rfl
        exact fresh member
  · apply scan_terminates finite
    intro asked
    rwa [steady]

end Steady

/-- A scan of a service that answers on finitely many paths ends as long as the root never
names a child with an empty name; and where each path is always answered alike, it ends exactly
when the scan is not sent back to the root by such a child. -/
theorem scan_terminates_iff {bus : Bus} {service : Str} (finite : FinitelyAnswered bus service)
    (scan : Scan) :
    ((∀ asked, [] ∉ childrenIn bus (bus.introspectService asked service "/".toList)) →
      Terminates bus service scan) ∧
    ∀ text, AlwaysAnswers bus service text →
      (Terminates bus service scan ↔ ¬ ReturnsToRoot bus text) := by
  refine ⟨fun named => scan_terminates finite named scan, ?_⟩
  intro text steady
  constructor
  · rintro ⟨calls, ends⟩ returns
    exact ends (scan_endless steady returns calls scan)
  · intro leaves
    exact scan_ends_unless_returning steady finite leaves scan

/-- A service that answers only at the root. -/
def rootOnly (xml : Str) (node : Element) : Bus where
  introspectService _ _ path := if path = "/".toList then xml else []
  rootElement text := if text = [] then none else some node
  rootElement_empty := rfl

theorem rootOnly_finite (xml : Str) (node : Element) (service : Str) :
    FinitelyAnswered (rootOnly xml node) service := by
  apply Set.Finite.subset (Set.finite_singleton "/".toList)
  rintro path ⟨asked, answered⟩
  by_contra other
  exact answered (if_neg other)

theorem rootOnly_answers (xml : Str) (node : Element) (service : Str) :
    AlwaysAnswers (rootOnly xml node) service fun path => if path = "/".toList then xml else [] :=
  fun _ _ => rfl

theorem childrenIn_rootOnly {xml : Str} (some : xml ≠ []) (node : Element) :
    childrenIn (rootOnly xml node) xml = childNames node := by
  simp only [childrenIn, rootOnly, some, ↓reduceIte]

theorem not_raises_rootOnly {xml : Str} {node : Element} (named : Named node) :
    ¬ Raises (rootOnly xml node) xml := by
  rintro ⟨other, found, nameless⟩
  simp only [rootOnly] at found
  split at found
  · contradiction
  · cases found
    exact nameless named

def parentOf (child : Str) : Element :=
  .mk "node".toList [] [.mk "node".toList [("name".toList, child)] []]

theorem scan_of_one_child :
    Terminates (rootOnly "<node><node name='a'/></node>".toList (parentOf "a".toList))
      "a.lamp".toList {} := by
  apply (scan_terminates_iff (rootOnly_finite _ _ _) {}).1
  intro asked
  have children := childrenIn_rootOnly (by decide : "<node><node name='a'/></node>".toList ≠ [])
    (parentOf "a".toList)
  change [] ∉ childrenIn _ "<node><node name='a'/></node>".toList
  rw [children]
  decide

theorem rootOnly_returns {xml : Str} (some : xml ≠ []) :
    ReturnsToRoot (rootOnly xml (parentOf [])) fun path => if path = "/".toList then xml else [] := by
  have children : childrenIn (rootOnly xml (parentOf [])) xml = [] ++ [] :: [] :=
    childrenIn_rootOnly some (parentOf [])
  exact ⟨not_raises_rootOnly (by decide), [], [], children, by simp⟩

/-- The root names a child with an empty name, and the scan never comes back from it. -/
theorem scan_of_empty_child :
    FinitelyAnswered (rootOnly "<node><node name=''/></node>".toList (parentOf []))
      "a.lamp".toList ∧
    ¬ Terminates (rootOnly "<node><node name=''/></node>".toList (parentOf [])) "a.lamp".toList {} := by
  have returns := rootOnly_returns (by decide : "<node><node name=''/></node>".toList ≠ [])
  have steady := rootOnly_answers "<node><node name=''/></node>".toList (parentOf [])
    "a.lamp".toList
  refine ⟨rootOnly_finite _ _ _, ?_⟩
  rintro ⟨calls, ends⟩
  have endless := scan_endless steady returns calls {}
  exact ends endless

end Dbus2Http.DbusEnumerator
