import Dbus2Http.DbusCaller
import Dbus2Http.GetHandlers

set_option autoImplicit false

namespace Dbus2Http

open Cxx (Str Run Fault)
open Dbus (MessageWriter MessageReader)
open DbusEnumerator (Scanner ScanStep)

namespace DbusCaller

/-! ### A call, one step at a time -/

/-- The arguments of `Call`. -/
structure Ask where
  serviceName : Str
  objectPath : Str
  interfaceName : Str
  methodName : Str
  request : Json

/-- A call between two of its steps. The reference it keeps is to the storage of the method in the
interface; `taken` is how often an interface had been assigned there when it was taken. A dangling
call has read storage in which there is no method any more. -/
inductive Call (M R : Type)
  | started (ask : Ask)
  | referenced (ask : Ask) (taken : Nat) (methodCall : M)
  | filled (ask : Ask) (taken : Nat) (inArgs : List Argument) (methodCall : M)
  | replied (ask : Ask) (taken : Nat) (inArgs : List Argument) (methodReply : R)
  | decoded (ask : Ask) (inArgs outArgs : List Argument) (response : Run Json)
  | dangling (ask : Ask)
  | raised (fault : Fault)

/-- The registry as the update thread leaves it, and as history variables what it has been up to
now and the names under which interfaces were added. -/
structure Registry where
  scanner : Scanner
  past : List InterfaceContext
  added : List Str

abbrev Registry.context (registry : Registry) : InterfaceContext := registry.scanner.context

/-- What is read through a reference to a method. The assignment of an interface destroys the
methods of the old one, and the new ones are made in the same storage or in other: a reference
taken before reads what is there now, which may be no method. -/
def Registry.read (registry : Registry) (ask : Ask) (taken : Nat) (there : Option Method) :
    Option Method :=
  if registry.added.count ask.interfaceName = taken then
    (registry.context.get ask.interfaceName ask.methodName).toOption
  else there

variable {M R : Type}

def Call.ofRun : Run (Call M R) → Call M R
  | .ok call => call
  | .error fault => .raised fault

section Steps

variable [MessageWriter M] [MessageReader R]
variable (connection : Connection M R) (env : Message2Json.Env) (fuel : Nat)

/-- The next step of a call: take the reference, fill the request, send it and wait, decode the
reply. The bus has carried the calls `earlier` when the call is sent, and `there` is what the storage
of an overwritten method holds when it is read. -/
def Call.next (registry : Registry) (earlier : List (Sent M)) (there : Option Method) :
    Call M R → Call M R
  | .started ask => .ofRun do
      let methodCall ← raising .busError (connection.createMethodCall
        ask.serviceName ask.objectPath ask.interfaceName ask.methodName)
      let _ : Method ← registry.context.get ask.interfaceName ask.methodName
      return .referenced ask (registry.added.count ask.interfaceName) methodCall
  | .referenced ask taken methodCall => .ofRun do
      let filledType : Method ← registry.context.get ask.interfaceName ask.methodName
      let filled ← Json2Message.fillArguments methodCall filledType.inArgs ask.request
      return .filled ask taken filledType.inArgs filled
  | .filled ask taken inArgs methodCall => .ofRun do
      let methodReply ← raising .busError (connection.callMethod (earlier ++
        [⟨ask.serviceName, ask.objectPath, ask.interfaceName, ask.methodName, methodCall⟩]))
      return .replied ask taken inArgs methodReply
  | .replied ask taken inArgs methodReply =>
      match registry.read ask taken there with
      | some methodType => .decoded ask inArgs methodType.outArgs (do
          let (response, _) ← Message2Json.extractArguments env fuel methodReply methodType.outArgs
          return response)
      | none => .dangling ask
  | .decoded ask inArgs outArgs response => .decoded ask inArgs outArgs response
  | .dangling ask => .dangling ask
  | .raised fault => .raised fault

/-- What the caller gets, when the call is over. -/
def Call.outcome? : Call M R → Option (Run Json)
  | .decoded _ _ _ response => some response
  | .raised fault => some (.error fault)
  | _ => none

/-- On a registry that does not change the steps are those of `Call`. -/
theorem undisturbed (registry : Registry) (sent : List (Sent M)) (there : Option Method) (ask : Ask) :
    ((Call.next connection env fuel registry sent there)^[4] (.started ask)).outcome? =
      some (call connection env fuel registry.context sent ask.serviceName ask.objectPath
        ask.interfaceName ask.methodName ask.request).2 := by
  rw [Function.iterate_succ_apply, call, prepare, Call.next]
  cases raising .busError (connection.createMethodCall ask.serviceName ask.objectPath
      ask.interfaceName ask.methodName) with
  | error fault => rfl
  | ok methodCall =>
      cases found : registry.context.get (T := Method) ask.interfaceName ask.methodName with
      | error fault => rfl
      | ok methodType =>
          let taken := registry.added.count ask.interfaceName
          have second : Call.next connection env fuel registry sent there
              (.referenced ask taken methodCall) = .ofRun (do
                let filled ← Json2Message.fillArguments methodCall methodType.inArgs ask.request
                return .filled ask taken methodType.inArgs filled) := by
            rw [Call.next, found]
            rfl
          simp only [Cxx.bind_ok]
          change (Call.outcome? ((Call.next connection env fuel registry sent there)^[3]
            (.referenced ask taken methodCall))) = _
          rw [Function.iterate_succ_apply, second]
          cases Json2Message.fillArguments methodCall methodType.inArgs ask.request with
          | error fault => rfl
          | ok filled =>
              change (Call.outcome? ((Call.next connection env fuel registry sent there)^[2]
                (.filled ask taken methodType.inArgs filled))) = _
              rw [Function.iterate_succ_apply, Call.next]
              dsimp only [Cxx.bind_ok, pure, Except.pure]
              cases raising .busError (connection.callMethod (sent ++ [⟨ask.serviceName,
                  ask.objectPath, ask.interfaceName, ask.methodName, filled⟩])) with
              | error fault => rfl
              | ok methodReply =>
                  change (Call.outcome? (Call.next connection env fuel registry sent there
                    (.replied ask taken methodType.inArgs methodReply))) = _
                  rw [Call.next, Registry.read, if_pos rfl, found]
                  rfl

end Steps

/-! ### Calls beside the update thread -/

def Registry.start (scanner : Scanner) : Registry := ⟨scanner, [scanner.context], []⟩

/-- The name of the interface that the scanner adds next. -/
def addsNext? (scanner : Scanner) : Option Str :=
  match scanner.todo with
  | .add (.interface interface) :: _ => some interface.name
  | _ => none

def Registry.advance (registry : Registry) (after : Scanner) : Registry where
  scanner := after
  past := after.context :: registry.past
  added := (addsNext? registry.scanner).toList ++ registry.added

/-- Any number of calls and the update thread. Storage that was overwritten holds a method of the
registry or none. -/
def calls [MessageWriter M] [MessageReader R] (bus : Bus) (connection : Connection M R)
    (env : Message2Json.Env) (fuel : Nat) : SharedStore.System Registry (Call M R) where
  write before after :=
    ∃ scanner, ScanStep bus before.scanner scanner ∧ after = before.advance scanner
  arrives call := ∃ ask, call = .started ask
  read registry before after := ∃ earlier there,
    (∀ method, there = some method →
      ∃ interfaceName methodName, registry.context.get interfaceName methodName = .ok method) ∧
    after = before.next connection env fuel registry earlier there

/-- At some moment the method had these input arguments and these output arguments. -/
def HeldTogether (past : List InterfaceContext) (interfaceName methodName : Str)
    (inArgs outArgs : List Argument) : Prop :=
  ∃ context ∈ past, ∃ method : Method, context.get interfaceName methodName = .ok method ∧
    method.inArgs = inArgs ∧ method.outArgs = outArgs

/-- A call that has decoded its reply has used one version of the method, and none has read a
method that is gone. -/
def Call.OneVersion (past : List InterfaceContext) : Call M R → Prop
  | .decoded ask inArgs outArgs _ =>
      HeldTogether past ask.interfaceName ask.methodName inArgs outArgs
  | .dangling _ => False
  | _ => True

/-- A call that has taken its reference and not yet decoded its reply. -/
def Call.waiting? : Call M R → Option Ask
  | .referenced ask _ _ => some ask
  | .filled ask _ _ _ => some ask
  | .replied ask _ _ _ => some ask
  | _ => none

/-- What may be written while the call waits: no interface under the name of its own. -/
def Fits (before _ : Registry) (call : Call M R) : Prop :=
  ∀ ask, call.waiting? = some ask → addsNext? before.scanner ≠ some ask.interfaceName

/-! ### What a waiting call can count on -/

/-- The reference of a waiting call is to the method as it was taken, and from that its request was
filled. -/
def Call.Agrees (registry : Registry) : Call M R → Prop
  | .referenced ask taken _ => registry.added.count ask.interfaceName = taken
  | .filled ask taken inArgs _ => registry.added.count ask.interfaceName = taken ∧
      ∃ method : Method, registry.context.get ask.interfaceName ask.methodName = .ok method ∧
        method.inArgs = inArgs
  | .replied ask taken inArgs _ => registry.added.count ask.interfaceName = taken ∧
      ∃ method : Method, registry.context.get ask.interfaceName ask.methodName = .ok method ∧
        method.inArgs = inArgs
  | call => call.OneVersion registry.past

theorem Call.Agrees.oneVersion {registry : Registry} {call : Call M R} (agrees : call.Agrees registry) :
    call.OneVersion registry.past := by
  cases call with
  | decoded ask inArgs outArgs response => exact agrees
  | dangling ask => exact agrees
  | started | referenced | filled | replied | raised => trivial

/-- A step of the scanner leaves the methods of an interface alone, unless it adds one under its
name. -/
theorem get_after_step {bus : Bus} {before after : Scanner} (step : ScanStep bus before after)
    {interfaceName : Str} (other : addsNext? before ≠ some interfaceName) (methodName : Str) :
    after.context.get (T := Method) interfaceName methodName =
      before.context.get interfaceName methodName := by
  cases step with
  | begin scan service path => rfl
  | visit todo answered named => rfl
  | unnamed todo answered root lacking => rfl
  | add scan write todo =>
      cases write with
      | object service object => rfl
      | interface interface =>
          have different : interfaceName ≠ interface.name := fun same => other (congrArg some same.symm)
          exact (InterfaceContext.get_addInterface scan.context interface _ _).trans (if_neg different)

theorem count_advance {registry : Registry} {after : Scanner} {interfaceName : Str}
    (other : addsNext? registry.scanner ≠ some interfaceName) :
    (registry.advance after).added.count interfaceName = registry.added.count interfaceName := by
  have none : (addsNext? registry.scanner).toList.count interfaceName = 0 := by
    refine List.count_eq_zero.mpr fun inside => other ?_
    exact Option.mem_toList.mp inside
  rw [Registry.advance, List.count_append, none, Nat.zero_add]

theorem Call.Agrees.stable {bus : Bus} {before : Registry} {scanner : Scanner} {call : Call M R}
    (agrees : call.Agrees before) (step : ScanStep bus before.scanner scanner)
    (fits : Fits before (before.advance scanner) call) : call.Agrees (before.advance scanner) := by
  cases call with
  | referenced ask taken methodCall => exact (count_advance (fits ask rfl)).trans agrees
  | filled ask taken inArgs methodCall =>
      obtain ⟨current, method, found, filledWith⟩ := agrees
      have other := fits ask rfl
      exact ⟨(count_advance other).trans current, method, (get_after_step step other _).trans found,
        filledWith⟩
  | replied ask taken inArgs methodReply =>
      obtain ⟨current, method, found, filledWith⟩ := agrees
      have other := fits ask rfl
      exact ⟨(count_advance other).trans current, method, (get_after_step step other _).trans found,
        filledWith⟩
  | decoded ask inArgs outArgs response =>
      obtain ⟨context, inside, held⟩ := agrees
      exact ⟨context, List.mem_cons_of_mem _ inside, held⟩
  | dangling ask => exact agrees
  | started | raised => trivial

theorem Call.agrees_bind {α : Type} {registry : Registry} {first : Run α}
    {next : α → Run (Call M R)}
    (rest : ∀ value, first = .ok value → (Call.ofRun (next value)).Agrees registry) :
    (Call.ofRun (first >>= next)).Agrees registry := by
  cases first with
  | ok value => exact rest value rfl
  | error fault => trivial

theorem Call.Agrees.next [MessageWriter M] [MessageReader R] {connection : Connection M R}
    {env : Message2Json.Env} {fuel : Nat} {registry : Registry} {call : Call M R}
    (current : registry.context ∈ registry.past) (agrees : call.Agrees registry)
    (earlier : List (Sent M)) (there : Option Method) :
    (call.next connection env fuel registry earlier there).Agrees registry := by
  cases call with
  | started ask =>
      rw [Call.next]
      apply Call.agrees_bind
      intro methodCall _
      apply Call.agrees_bind
      intro method _
      exact rfl
  | referenced ask taken methodCall =>
      rw [Call.next]
      apply Call.agrees_bind
      intro method found
      apply Call.agrees_bind
      intro filled _
      exact ⟨agrees, method, found, rfl⟩
  | filled ask taken inArgs methodCall =>
      rw [Call.next]
      apply Call.agrees_bind
      intro methodReply _
      exact agrees
  | replied ask taken inArgs methodReply =>
      obtain ⟨asTaken, method, found, filledWith⟩ := agrees
      rw [Call.next, Registry.read, if_pos asTaken, found]
      exact ⟨registry.context, current, method, found, filledWith, rfl⟩
  | decoded ask inArgs outArgs response => exact agrees
  | dangling ask => exact agrees
  | raised fault => exact agrees

theorem calls_outline [MessageWriter M] [MessageReader R] (bus : Bus) (connection : Connection M R)
    (env : Message2Json.Env) (fuel : Nat) :
    SharedStore.Outline (calls bus connection env fuel) Fits
      (fun registry => registry.context ∈ registry.past) (fun registry call => call.Agrees registry)
    where
  kept := by
    rintro before after - ⟨scanner, -, rfl⟩
    exact List.mem_cons_self
  arrives := by
    rintro registry call - ⟨ask, rfl⟩
    trivial
  own := by
    rintro registry before after current agrees ⟨earlier, there, -, rfl⟩
    exact agrees.next current earlier there
  stable := by
    rintro before after call - agrees ⟨scanner, step, rfl⟩ fits
    exact agrees.stable step fits

/-- In every run that adds no interface under the name of a waiting call's, every call that has
decoded its reply has used one version of its method. -/
theorem calls_use_one_version [MessageWriter M] [MessageReader R] {bus : Bus}
    {connection : Connection M R} {env : Message2Json.Env} {fuel : Nat} {scanner : Scanner}
    {state : SharedStore.State Registry (Call M R)}
    (run : SharedStore.Run (calls bus connection env fuel) Fits ⟨.start scanner, []⟩ state) :
    ∀ call ∈ state.readers, call.OneVersion state.store.past := by
  obtain ⟨-, agree⟩ := run.holds (calls_outline bus connection env fuel)
    ⟨List.mem_singleton_self _, by simp⟩
  exact fun call inside => (agree call inside).oneVersion

/-- What does not fit leaves the reference of a waiting call to storage that may hold no method, and
the call may find that when it decodes its reply. -/
theorem unfit_write_breaks [MessageWriter M] [MessageReader R] {bus : Bus}
    {connection : Connection M R} {env : Message2Json.Env} {fuel : Nat} {before : Registry}
    {scanner : Scanner} {ask : Ask} {taken : Nat} {inArgs : List Argument} {methodReply : R}
    (agrees : (Call.replied (M := M) ask taken inArgs methodReply).Agrees before)
    (unfit : ¬ Fits before (before.advance scanner)
      (.replied (M := M) ask taken inArgs methodReply)) :
    ∃ after, (calls bus connection env fuel).read (before.advance scanner)
      (.replied (M := M) ask taken inArgs methodReply) after ∧
      ¬ after.OneVersion (before.advance scanner).past := by
  refine ⟨_, ⟨[], none, by simp, rfl⟩, ?_⟩
  have adds : addsNext? before.scanner = some ask.interfaceName := by
    by_contra other
    exact unfit fun waiting waits => by cases waits; exact other
  have more : (before.advance scanner).added.count ask.interfaceName = taken + 1 := by
    rw [Registry.advance, adds, Option.toList_some, List.singleton_append, List.count_cons_self,
      agrees.1]
  rw [Call.next, Registry.read, if_neg (by omega)]
  exact id

/-! ### A scale that is declared twice -/

open DbusSerialization DbusEnumerator

/-- A scale whose method `Read` takes the unit and gives the value. -/
def scaleElement (unit value : Str) : Element :=
  .mk "interface".toList [("name".toList, "x.Scale".toList)] [
    .mk "method".toList [("name".toList, "Read".toList)] [
      .mk "arg".toList
        [("name".toList, "unit".toList), ("type".toList, unit), ("direction".toList, "in".toList)] [],
      .mk "arg".toList
        [("name".toList, "value".toList), ("type".toList, value), ("direction".toList, "out".toList)]
        []]]

def scaleText (unit value : Str) : Str :=
  ("<node><interface name='x.Scale'><method name='Read'><arg name='unit' type='".toList ++ unit ++
    "' direction='in'/><arg name='value' type='".toList ++ value ++
    "' direction='out'/></method></interface></node>".toList)

def deskScale : Str := scaleText "s".toList "i".toList

def streetScale : Str := scaleText "i".toList "s".toList

/-- An interface of another name. -/
def chimeElement : Element := .mk "interface".toList [("name".toList, "x.Chime".toList)] []

def chimeText : Str := "<node><interface name='x.Chime'/></node>".toList

/-- The scale of the desk takes a text and gives a number, that of the street the other way. -/
def scaleBus : Bus where
  introspectService _ service _ :=
    if service = "a.desk".toList then deskScale
    else if service = "c.door".toList then chimeText
    else streetScale
  rootElement xml :=
    if xml = deskScale then some (.mk "node".toList [] [scaleElement "s".toList "i".toList])
    else if xml = streetScale then
      some (.mk "node".toList [] [scaleElement "i".toList "s".toList])
    else if xml = chimeText then some (.mk "node".toList [] [chimeElement])
    else none
  rootElement_empty := by decide

def scaleConnection : Connection Dbus.Draft Dbus.Cursor where
  createMethodCall _ _ _ _ := .ok .empty
  callMethod _ := .ok (.start [.int .int32 (Dbus.IntTy.int32.wrap 5)])

def readScale : Ask where
  serviceName := "a.desk".toList
  objectPath := "/".toList
  interfaceName := "x.Scale".toList
  methodName := "Read".toList
  request := .object [("unit".toList, .string "kg".toList)]

def deskAsked : Introspection := ⟨"a.desk".toList, "/".toList, deskScale⟩

def streetAsked : Introspection := ⟨"b.street".toList, "/".toList, streetScale⟩

def doorAsked : Introspection := ⟨"c.door".toList, "/".toList, chimeText⟩

def rootListing (name : Str) : ObjectPath := ⟨"/".toList, [name], []⟩

def deskDeclared : InterfaceContext :=
  InterfaceContext.addInterface {} (parseInterface (scaleElement "s".toList "i".toList))

def deskStored : InterfaceContext :=
  deskDeclared.addObjectPath "a.desk".toList (rootListing "x.Scale".toList)

def streetDeclared : InterfaceContext :=
  deskStored.addInterface (parseInterface (scaleElement "i".toList "s".toList))

def readUnit : List Argument := [⟨"unit".toList, "s".toList, "in".toList, {}⟩]

/-- The call to the desk with its reply, a number, when only the desk has been scanned. -/
def deskRegistry : Registry where
  scanner := { scan := { context := deskStored, asked := [deskAsked] } }
  past := [deskStored, deskDeclared, {}, {}, {}]
  added := ["x.Scale".toList]

def readReplied : Call Dbus.Draft Dbus.Cursor :=
  .replied readScale 1 readUnit (.start [.int .int32 (Dbus.IntTy.int32.wrap 5)])

abbrev scaleCalls : SharedStore.System Registry (Call Dbus.Draft Dbus.Cursor) :=
  calls scaleBus scaleConnection Message2Json.bareEnv 5

/-- When a service answers with one interface, that and its object are added. -/
theorem visit_single {scan : Scan} {service name : Str} {members : List Element}
    (root : scaleBus.rootElement (scaleBus.introspectService scan.asked service "/".toList) =
      some (.mk "node".toList [] [.mk "interface".toList [("name".toList, name)] members])) :
    ScanStep scaleBus ⟨scan, [.visit service "/".toList]⟩
      ⟨{ scan with asked := scan.asked ++
          [⟨service, "/".toList, scaleBus.introspectService scan.asked service "/".toList⟩] },
        [.add (.interface (parseInterface (.mk "interface".toList [("name".toList, name)] members))),
          .add (.object service (rootListing name))]⟩ := by
  have named : ∀ node, scaleBus.rootElement (scaleBus.introspectService scan.asked service
      "/".toList) = some node → Named node := by
    intro node found
    rw [root] at found
    cases found
    intro iface inside
    rw [List.mem_singleton.mp inside]
    rfl
  have step : ScanStep scaleBus ⟨scan, [.visit service "/".toList]⟩ ⟨_, works scaleBus.rootElement
      ⟨service, "/".toList, scaleBus.introspectService scan.asked service "/".toList⟩ ++ []⟩ :=
    .visit [] rfl named
  have adds : works scaleBus.rootElement
      ⟨service, "/".toList, scaleBus.introspectService scan.asked service "/".toList⟩ ++ [] =
      [.add (.interface (parseInterface (.mk "interface".toList [("name".toList, name)] members))),
        .add (.object service (rootListing name))] := by
    simp only [works, writes, declarations, objectOf, root]
    rfl
  exact adds ▸ step

theorem desk_root : scaleBus.rootElement deskScale =
    some (.mk "node".toList [] [scaleElement "s".toList "i".toList]) := by
  dsimp only [scaleBus]
  rw [if_pos rfl]

theorem street_root : scaleBus.rootElement streetScale =
    some (.mk "node".toList [] [scaleElement "i".toList "s".toList]) := by
  have different : streetScale ≠ deskScale := by decide
  dsimp only [scaleBus]
  rw [if_neg different, if_pos rfl]

theorem door_root : scaleBus.rootElement chimeText = some (.mk "node".toList [] [chimeElement]) := by
  have notDesk : chimeText ≠ deskScale := by decide
  have notStreet : chimeText ≠ streetScale := by decide
  dsimp only [scaleBus]
  rw [if_neg notDesk, if_neg notStreet, if_pos rfl]

theorem desk_run (fits : Registry → Registry → Call Dbus.Draft Dbus.Cursor → Prop) :
    SharedStore.Run scaleCalls fits ⟨.start {}, []⟩ ⟨deskRegistry, [readReplied]⟩ := by
  refine .head (.write [] ⟨_, .begin _ "a.desk".toList "/".toList, rfl⟩ (by simp)) ?_
  refine .head (.write [] ⟨_, visit_single desk_root, rfl⟩ (by simp)) ?_
  refine .head (.write [] ⟨_, .add _ _ _, rfl⟩ (by simp)) ?_
  refine .head (.write [] ⟨_, .add _ _ _, rfl⟩ (by simp)) ?_
  refine .head (.arrive deskRegistry [] ⟨readScale, rfl⟩) ?_
  refine .head (.read deskRegistry [] [] ⟨[], none, by simp, rfl⟩) ?_
  refine .head (.read deskRegistry [] [] ⟨[], none, by simp, rfl⟩) ?_
  exact .single (.read deskRegistry [] [] ⟨[], none, by simp, rfl⟩)

def doorDeclared : InterfaceContext := deskStored.addInterface (parseInterface chimeElement)

/-- The door is being scanned, and its interface was added. -/
def doorMiddle : Registry where
  scanner := {
    scan := { context := doorDeclared, asked := [deskAsked, doorAsked] }
    todo := [.add (.object "c.door".toList (rootListing "x.Chime".toList))] }
  past := [doorDeclared, deskStored, deskStored, deskStored, deskDeclared, {}, {}, {}]
  added := ["x.Chime".toList, "x.Scale".toList]

theorem door_middle : SharedStore.Run scaleCalls Fits ⟨deskRegistry, [readReplied]⟩
    ⟨doorMiddle, [readReplied]⟩ := by
  refine .head (.write _ ⟨_, .begin _ "c.door".toList "/".toList, rfl⟩ ?_) ?_
  · rintro call - ask - ⟨⟩
  refine .head (.write _ ⟨_, visit_single door_root, rfl⟩ ?_) ?_
  · rintro call - ask - ⟨⟩
  refine .single (.write _ ⟨_, .add _ _ _, rfl⟩ ?_)
  rintro call inside ask waits named
  rw [List.mem_singleton.mp inside] at waits
  cases waits
  revert named
  decide

/-- The reply is decoded with the method that the request was filled with. -/
theorem read_uses_one_version : HeldTogether doorMiddle.past "x.Scale".toList "Read".toList readUnit
    [⟨"value".toList, "i".toList, "out".toList, {}⟩] := by
  have decoded := door_middle.tail (.read doorMiddle [] [] ⟨[], none, by simp, rfl⟩)
  exact calls_use_one_version ((desk_run Fits).trans decoded) _ (List.mem_singleton_self _)

theorem get_inside {context : InterfaceContext} {interfaceName methodName : Str} {method : Method}
    (found : context.get interfaceName methodName = .ok method) :
    ∃ interface ∈ context.interfaces.entries, ∃ stored ∈ interface.2.methods.entries,
      stored.2 = method := by
  obtain ⟨interface, listed, member⟩ := InterfaceContext.get_eq_ok.mp found
  exact ⟨_, OrderedMap.mem_of_find? listed, _, OrderedMap.mem_of_find? member, rfl⟩

/-- The street is being scanned, and its interface has replaced that of the desk. -/
def streetMiddle : Registry where
  scanner := {
    scan := { context := streetDeclared, asked := [deskAsked, streetAsked] }
    todo := [.add (.object "b.street".toList (rootListing "x.Scale".toList))] }
  past := [streetDeclared, deskStored, deskStored, deskStored, deskDeclared, {}, {}, {}]
  added := ["x.Scale".toList, "x.Scale".toList]

/-- The method of the street, which has taken the storage of the method of the desk. -/
def streetRead : Method where
  name := "Read".toList
  args := [⟨"unit".toList, "i".toList, "in".toList, {}⟩, ⟨"value".toList, "s".toList, "out".toList, {}⟩]

theorem street_middle : SharedStore.Run scaleCalls SharedStore.Anything
    ⟨deskRegistry, [readReplied]⟩ ⟨streetMiddle, [readReplied]⟩ := by
  refine .head (.write _ ⟨_, .begin _ "b.street".toList "/".toList, rfl⟩ fun _ _ => trivial) ?_
  refine .head (.write _ ⟨_, visit_single street_root, rfl⟩ fun _ _ => trivial) ?_
  exact .single (.write _ ⟨_, .add _ _ _, rfl⟩ fun _ _ => trivial)

/-- The request was filled with a text and a text is looked for in the reply, and there never was
such a method. -/
theorem read_mixes_versions : ∃ state ask inArgs outArgs response,
    SharedStore.Run scaleCalls SharedStore.Anything ⟨.start {}, []⟩ state ∧
      .decoded ask inArgs outArgs response ∈ state.readers ∧
      ∀ interfaceName methodName,
        ¬ HeldTogether state.store.past interfaceName methodName inArgs outArgs := by
  have run : SharedStore.Run scaleCalls SharedStore.Anything ⟨deskRegistry, [readReplied]⟩
      ⟨streetMiddle, [.decoded readScale readUnit
        [⟨"value".toList, "s".toList, "out".toList, {}⟩] _]⟩ :=
    street_middle.tail (.read streetMiddle [] [] ⟨[], some streetRead, fun _ there => ⟨"x.Scale".toList,
      "Read".toList, Option.some.inj there ▸ rfl⟩, rfl⟩)
  refine ⟨_, _, _, _, _, (desk_run _).trans run, List.mem_singleton_self _, ?_⟩
  rintro interfaceName methodName ⟨context, inside, method, found, inputs, outputs⟩
  obtain ⟨interface, declared, stored, member, rfl⟩ := get_inside found
  have never : ∀ context ∈ streetMiddle.past,
      ∀ interface ∈ context.interfaces.entries, ∀ stored ∈ interface.2.methods.entries,
        ¬ (stored.2.inArgs = readUnit ∧
          stored.2.outArgs = [⟨"value".toList, "s".toList, "out".toList, {}⟩]) := by decide
  exact never context inside interface declared stored member ⟨inputs, outputs⟩

end DbusCaller

end Dbus2Http
