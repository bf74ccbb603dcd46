import Dbus2Http.DbusEnumerator
import Mathlib.Logic.Relation

set_option autoImplicit false

namespace Dbus2Http

open Cxx (Str)

/-- One call of `add`. -/
inductive Add
  | interface (interface : Interface)
  | object (service : Str) (object : ObjectPath)

def InterfaceContext.apply (context : InterfaceContext) : Add → InterfaceContext
  | .interface interface => context.addInterface interface
  | .object service object => context.addObjectPath service object

namespace DbusEnumerator

open DbusSerialization

/-! ### The scanner, one step at a time -/

/-- What the scanner is about to do: introspect an object, one `add`, or raise. -/
inductive Work
  | visit (service path : Str)
  | add (write : Add)
  | raise

/-- The scanner between two steps. -/
structure Scanner where
  scan : Scan := {}
  todo : List Work := []

abbrev Scanner.context (scanner : Scanner) : InterfaceContext := scanner.scan.context

section Works

variable (rootElement : Str → Option Element) (call : Introspection)

/-- The adds of one introspection, in their order: each interface while the document is read, then
the object. -/
def writes : List Add :=
  (declarations rootElement call).map .interface ++
    [.object call.service (objectOf rootElement call)]

/-- After them the children are visited. -/
def works : List Work :=
  (writes rootElement call).map .add ++
    (objectOf rootElement call).childrenPaths.map fun child =>
      .visit call.service (childPath call.path child)

end Works

/-- The adds before the first interface without a name, where the parser raises. -/
def writesBeforeRaise (node : Element) : List Add :=
  ((node.childElements "interface".toList).takeWhile
    fun iface => (iface.attribute? "name".toList).isSome).map
      fun iface => .interface (parseInterface iface)

/-- A scan of any service begins, an object is introspected, or one `add` is made. No step follows
a raise, which ends the process. -/
inductive ScanStep (bus : Bus) : Scanner → Scanner → Prop
  | begin (scan : Scan) (service path : Str) :
      ScanStep bus ⟨scan, []⟩ ⟨scan, [.visit service path]⟩
  | visit {scan : Scan} {service path : Str} {call : Introspection} (todo : List Work)
      (answered : call = ⟨service, path, bus.introspectService scan.asked service path⟩)
      (named : ∀ node, bus.rootElement call.xml = some node → Named node) :
      ScanStep bus ⟨scan, .visit service path :: todo⟩
        ⟨{ scan with asked := scan.asked ++ [call] }, works bus.rootElement call ++ todo⟩
  | unnamed {scan : Scan} {service path : Str} {call : Introspection} {node : Element}
      (todo : List Work)
      (answered : call = ⟨service, path, bus.introspectService scan.asked service path⟩)
      (root : bus.rootElement call.xml = some node) (lacking : ¬ Named node) :
      ScanStep bus ⟨scan, .visit service path :: todo⟩
        ⟨{ scan with asked := scan.asked ++ [call] },
          (writesBeforeRaise node).map .add ++ [.raise]⟩
  | add (scan : Scan) (write : Add) (todo : List Work) :
      ScanStep bus ⟨scan, .add write :: todo⟩
        ⟨{ scan with context := scan.context.apply write }, todo⟩

/-- Any number of steps. -/
abbrev ScanRun (bus : Bus) : Scanner → Scanner → Prop := Relation.ReflTransGen (ScanStep bus)

/-! ### The recursion takes these steps -/

theorem run_adds (bus : Bus) (scan : Scan) (made : List Add) (todo : List Work) :
    ScanRun bus ⟨scan, made.map .add ++ todo⟩
      ⟨{ scan with context := made.foldl InterfaceContext.apply scan.context }, todo⟩ := by
  induction made generalizing scan with
  | nil => exact .refl
  | cons write made ih => exact .head (.add scan write (made.map .add ++ todo)) (ih _)

theorem foldl_writes (rootElement : Str → Option Element) (call : Introspection)
    (context : InterfaceContext) :
    (writes rootElement call).foldl InterfaceContext.apply context =
      recorded rootElement context call := by
  rw [writes, List.foldl_append, List.foldl_map]
  rfl

/-- An introspection that does not raise makes its adds and leaves the children to visit. -/
theorem run_visit {bus : Bus} {service path : Str} {before after : Scan} {object : ObjectPath}
    (visited : visit bus service path before = .ok (object, after)) (todo : List Work) :
    ScanRun bus ⟨before, .visit service path :: todo⟩
      ⟨after, object.childrenPaths.map
        (fun child => .visit service (childPath path child)) ++ todo⟩ := by
  obtain ⟨named, made⟩ := visit_eq_ok.mp visited
  cases made
  refine .head (.visit todo rfl named) ?_
  rw [works, List.append_assoc, ← foldl_writes]
  exact run_adds bus _ _ _

/-- An introspection that raises makes the adds before the raise. -/
theorem run_raise {bus : Bus} {service path : Str} {before : Scan} {fault : Cxx.Fault}
    (raised : visit bus service path before = .error fault) (todo : List Work) :
    ∃ after, ScanRun bus ⟨before, .visit service path :: todo⟩ ⟨after, [.raise]⟩ := by
  have notNamed : ¬ ∀ node, bus.rootElement (bus.introspectService before.asked service path) =
      some node → Named node := by
    intro named
    have returned := visit_eq_ok.mpr ⟨named, rfl⟩
    rw [raised] at returned
    cases returned
  push Not at notNamed
  obtain ⟨node, root, lacking⟩ := notNamed
  exact ⟨_, .head (.unnamed todo rfl root lacking) (run_adds bus _ _ _)⟩

/-- A scan that returns has gone through these steps. -/
theorem run_scan {bus : Bus} {service path : Str} {fuel : Nat} {before after : Scan}
    {objects : List ObjectPath}
    (done : parseObjectPathsRecursively bus service fuel path before = .ok (objects, after))
    (todo : List Work) :
    ScanRun bus ⟨before, .visit service path :: todo⟩ ⟨after, todo⟩ := by
  induction fuel generalizing path before objects after todo with
  | zero => cases done
  | succ fuel ih =>
      rw [parseObjectPathsRecursively, Cxx.bind_eq_ok] at done
      obtain ⟨⟨object, visited⟩, first, children⟩ := done
      refine (run_visit first todo).trans ?_
      clear first
      dsimp only at children
      generalize object.childrenPaths = names at children
      generalize [object] = found at children
      induction names generalizing visited found with
      | nil =>
          cases children
          exact .refl
      | cons name names ihNames =>
          rw [List.foldlM_cons, Cxx.bind_eq_ok] at children
          obtain ⟨⟨result, scanned⟩, round, others⟩ := children
          rw [Cxx.bind_eq_ok] at round
          obtain ⟨⟨childOps, scanned'⟩, recursive, returned⟩ := round
          cases returned
          exact (ih recursive _).trans (ihNames _ _ others)

end DbusEnumerator

end Dbus2Http
