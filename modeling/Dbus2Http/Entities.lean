import Dbus2Http.CxxRuntime
import Dbus2Http.OrderedMap

set_option autoImplicit false

namespace Dbus2Http

open Cxx (Str Run throwExn)

inductive EmitsChangedSignal
  | true | invalidates | const | false
deriving DecidableEq, Repr

structure Flags where
  deprecated : Bool := false
  methodNoReply : Bool := false
  privileged : Bool := false
  emitsChangedSignal : EmitsChangedSignal := .true
  cSymbol : Str := []
deriving DecidableEq

structure Argument where
  name : Str := []
  type : Str := []
  direction : Str := []
  flags : Flags := {}
deriving DecidableEq

structure Method where
  name : Str := []
  args : List Argument := []
  flags : Flags := {}
deriving DecidableEq

namespace Method

/-- An argument without a name is named after its position. -/
def add (m : Method) (arg : Argument) : Method :=
  let argument :=
    if arg.name = [] then { arg with name := "arg".toList ++ Cxx.toDecimal m.args.length } else arg
  { m with args := m.args ++ [argument] }

def inArgs (m : Method) : List Argument := m.args.filter (·.direction = "in".toList)

def outArgs (m : Method) : List Argument := m.args.filter (·.direction = "out".toList)

def inSignature (m : Method) : Str := m.inArgs.flatMap (·.type)

def outSignature (m : Method) : Str := m.outArgs.flatMap (·.type)

end Method

structure Signal where
  name : Str := []
  args : List Argument := []
  flags : Flags := {}
deriving DecidableEq

def Signal.add (s : Signal) (arg : Argument) : Signal := { s with args := s.args ++ [arg] }

structure Property where
  name : Str := []
  type : Str := []
  access : Str := []
  flags : Flags := {}
deriving DecidableEq

structure Interface where
  name : Str := []
  methods : OrderedMap Str Method := .empty
  signals : OrderedMap Str Signal := .empty
  properties : OrderedMap Str Property := .empty
  flags : Flags := {}

/-- The kinds of member of an interface, each with its container there. -/
class Member (T : Type) where
  name : T → Str
  container : Interface → OrderedMap Str T
  withContainer : Interface → OrderedMap Str T → Interface

instance : Member Method where
  name := Method.name
  container := Interface.methods
  withContainer interface methods := { interface with methods := methods }

instance : Member Signal where
  name := Signal.name
  container := Interface.signals
  withContainer interface signals := { interface with signals := signals }

instance : Member Property where
  name := Property.name
  container := Interface.properties
  withContainer interface properties := { interface with properties := properties }

namespace Interface

variable {T : Type} [Member T]

def add (interface : Interface) (member : T) : Interface :=
  Member.withContainer interface ((Member.container interface).insert (Member.name member) member)

def get (interface : Interface) (memberName : Str) : Run T :=
  match (Member.container interface).find? memberName with
  | some member => .ok member
  | none => throwExn .invalidArgument ("member not found: ".toList ++ memberName)

theorem get_eq_ok {interface : Interface} {memberName : Str} {member : T} :
    interface.get memberName = .ok member ↔
      (Member.container interface).find? memberName = some member := by
  rw [get]
  cases (Member.container (T := T) interface).find? memberName with
  | none => simp
  | some found => simp

end Interface

structure ObjectPath where
  path : Str := []
  interfaces : List Str := []
  childrenPaths : List Str := []
deriving DecidableEq

namespace ObjectPath

def addInterface (op : ObjectPath) (i : Str) : ObjectPath :=
  { op with interfaces := op.interfaces ++ [i] }

def addChildpath (op : ObjectPath) (p : Str) : ObjectPath :=
  { op with childrenPaths := op.childrenPaths ++ [p] }

end ObjectPath

end Dbus2Http
