import Dbus2Http.DbusCaller
import Dbus2Http.RequestPath
import Dbus2Http.UpdateThread

set_option autoImplicit false

namespace Dbus2Http.WebService

open Cxx (Str Run throwExn)
open Dbus (MessageWriter MessageReader)
open DbusCaller (Sent Connection call prepare prepare_eq_ok raising)

/-- What parsing raises: of these only the first is caught by the handler. -/
inductive ParseFailure
  | parseError (what : Str)
  | outOfRange (what : Str)

/-- The JSON library at its borders: parsing and writing may fail with a message. -/
structure JsonText where
  parse : Str → Except ParseFailure Json
  dump : Json → Except Str Str
  toMsgpack : Json → Str

structure Response where
  status : Nat := 200
  content : Str
  contentType : Str

/-- What one process of the proxy works with. -/
structure Server (M R : Type) where
  servicePrefixes : List Str
  bus : Bus
  connection : Connection M R
  env : Message2Json.Env
  text : JsonText

variable {M R : Type} [MessageWriter M] [MessageReader R]

def encodeResponse (text : JsonText) (response : Json) : Run Response :=
  if Message2Json.containsBinaries response then
    .ok { content := text.toMsgpack response, contentType := "application/x-msgpack".toList }
  else do
    let content ← raising .jsonTypeError (text.dump response)
    return { content := content, contentType := "application/json".toList }

/-- The answer to an exception; writing its text may raise again and leaves the handler then. -/
def encodeError (text : JsonText) (exn : Cxx.Exn) : Run Response := do
  let j ← Json.null.setMember "message".toList (.string (Cxx.cStr exn.what))
  let content ← raising .jsonTypeError (text.dump j)
  return { status := 500, content := content, contentType := "application/json".toList }

/-- `POST /dbus/call/(.*)`: the calls sent so far with this one, and the response. -/
def postCall (server : Server M R) (fuel : Nat) (context : InterfaceContext) (sent : List (Sent M))
    (path body : Str) : List (Sent M) × Run Response :=
  match parseDbusRequestPath path with
  | .error fault => (sent, .error fault)
  | .ok none =>
      (sent, .ok {
        status := 400
        content := "invalid or incomplete dbus path".toList
        contentType := "text/plain".toList })
  | .ok (some parts) =>
      match server.text.parse body with
      | .error (.parseError what) =>
          (sent, .ok {
            status := 400
            content := "invalid JSON body: ".toList ++ what
            contentType := "text/plain".toList })
      | .error (.outOfRange what) => (sent, throwExn .jsonOutOfRange what)
      | .ok request =>
          let (sent, result) := call server.connection server.env fuel context sent
            parts.serviceName parts.objectPath parts.interfaceName parts.method request
          (sent,
            match result >>= encodeResponse server.text with
            | .ok response => .ok response
            | .error (.thrown exn) => encodeError server.text exn
            | .error .outOfFuel => .error .outOfFuel)

/-! ### The update thread and the handlers -/

structure World (M : Type) where
  scan : Scan := {}
  sent : List (Sent M) := []

inductive Event
  | update (names : Option (List Str))
  | post (path body : Str)

def step (server : Server M R) (fuel : Nat) (world : World M) : Event → Run (World M)
  | .update names => do
      let scan ← UpdateThread.update server.bus server.servicePrefixes fuel world.scan names
      return { world with scan := scan }
  | .post path body =>
      return { world with sent := (postCall server fuel world.scan.context world.sent path body).1 }

/-- A request passes every check there is before the call is sent: the library takes the names,
some scanned object has the interface with this method, and the request fills its arguments. -/
def Accepted (connection : Connection M R) (context : InterfaceContext) (parts : RequestPath)
    (request : Json) : Prop :=
  ∃ methodCall methodType filled,
    connection.createMethodCall parts.serviceName parts.objectPath parts.interfaceName
      parts.method = .ok methodCall ∧
    context.get (T := Method) parts.interfaceName parts.method = .ok methodType ∧
    Json2Message.fillArguments methodCall methodType.inArgs request = .ok filled

/-- The service begins with a configured prefix. -/
def Exposed (servicePrefixes : List Str) (serviceName : Str) : Prop :=
  ∃ start ∈ servicePrefixes, start <+: serviceName

/-- If the request is one that is sent, it is for an exposed service. -/
def StaysInside (server : Server M R) (context : InterfaceContext) (path body : Str) : Prop :=
  ∀ parts request, parseDbusRequestPath path = .ok (some parts) →
    server.text.parse body = .ok request → Accepted server.connection context parts request →
    Exposed server.servicePrefixes parts.serviceName

/-- A request sends one call, to the service its path names, or it is refused and sends nothing. -/
theorem postCall_cases (server : Server M R) (fuel : Nat) (context : InterfaceContext)
    (sent : List (Sent M)) (path body : Str) :
    (∃ parts request message, parseDbusRequestPath path = .ok (some parts) ∧
        server.text.parse body = .ok request ∧
        Accepted server.connection context parts request ∧
        (postCall server fuel context sent path body).1 = sent ++
          [⟨parts.serviceName, parts.objectPath, parts.interfaceName, parts.method, message⟩]) ∨
      (postCall server fuel context sent path body).1 = sent ∧
        ∀ parts request, parseDbusRequestPath path = .ok (some parts) →
          server.text.parse body = .ok request →
          ¬ Accepted server.connection context parts request := by
  rw [postCall]
  cases parsed : parseDbusRequestPath path with
  | error fault => exact Or.inr ⟨rfl, by simp⟩
  | ok found =>
    cases found with
    | none => exact Or.inr ⟨rfl, by simp⟩
    | some parts =>
      cases body : server.text.parse body with
      | error failure => cases failure <;> exact Or.inr ⟨rfl, by simp⟩
      | ok request =>
        simp only [call]
        cases prepared : prepare server.connection context parts.serviceName parts.objectPath
            parts.interfaceName parts.method request with
        | ok result =>
          obtain ⟨methodCall, created, registered, fills⟩ := prepare_eq_ok.mp prepared
          exact Or.inl ⟨parts, request, result.1, rfl, rfl,
            ⟨methodCall, result.2, result.1, created, registered, fills⟩, rfl⟩
        | error fault =>
          refine Or.inr ⟨rfl, ?_⟩
          rintro other again same samebody ⟨methodCall, methodType, filled, created, found, fills⟩
          cases same
          cases samebody
          rw [prepare_eq_ok.mpr ⟨methodCall, created, found, fills⟩] at prepared
          cases prepared

/-- One step sends outside only through a request that is not refused. -/
theorem step_exposed {server : Server M R} {fuel : Nat} {world next : World M} {event : Event}
    (done : step server fuel world event = .ok next) :
    (∀ call ∈ next.sent, Exposed server.servicePrefixes call.serviceName) ↔
      (∀ call ∈ world.sent, Exposed server.servicePrefixes call.serviceName) ∧
        ∀ path body, event = .post path body →
          StaysInside server world.scan.context path body := by
  cases event with
  | update names =>
      rw [step, Cxx.bind_eq_ok] at done
      obtain ⟨scan, -, returned⟩ := done
      cases returned
      simp
  | post path body =>
      cases done
      rcases postCall_cases server fuel world.scan.context world.sent path body with
        ⟨parts, request, message, parsed, read, accepted, sends⟩ | ⟨sends, refused⟩
      · rw [sends]
        constructor
        · intro exposed
          refine ⟨fun call inside => exposed call (List.mem_append_left _ inside), ?_⟩
          rintro _ _ same other again parsed' - -
          cases same
          rw [parsed] at parsed'
          cases parsed'
          exact exposed _ (List.mem_append_right _ (List.mem_singleton_self _))
        · rintro ⟨before, inside⟩ call sent
          rcases List.mem_append.mp sent with old | new
          · exact before call old
          · rw [List.mem_singleton.mp new]
            exact inside path body rfl parts request parsed read accepted
      · rw [sends]
        refine ⟨fun before => ⟨before, ?_⟩, fun both => both.1⟩
        rintro _ _ same parts request parsed read accepted
        cases same
        exact absurd accepted (refused parts request parsed read)

theorem run_exposed {server : Server M R} {fuel : Nat} {events : List Event}
    {world final : World M} (run : events.foldlM (step server fuel) world = .ok final) :
    (∀ call ∈ final.sent, Exposed server.servicePrefixes call.serviceName) ↔
      (∀ call ∈ world.sent, Exposed server.servicePrefixes call.serviceName) ∧
        ∀ earlier path body later, events = earlier ++ .post path body :: later →
          ∀ reached, earlier.foldlM (step server fuel) world = .ok reached →
            StaysInside server reached.scan.context path body := by
  induction events generalizing world with
  | nil =>
      cases run
      simp
  | cons event rest ih =>
      rw [List.foldlM_cons, Cxx.bind_eq_ok] at run
      obtain ⟨next, first, others⟩ := run
      rw [ih others, step_exposed first, and_assoc]
      refine and_congr_right fun _ => ⟨?_, ?_⟩
      · rintro ⟨now, since⟩ earlier path body later split reached passed
        cases earlier with
        | nil =>
            cases split
            cases passed
            exact now path body rfl
        | cons head earlier =>
            obtain ⟨rfl, restSplit⟩ := List.cons.inj split
            rw [List.foldlM_cons, first, Cxx.bind_ok] at passed
            exact since earlier path body later restSplit reached passed
      · intro all
        refine ⟨fun path body same => all [] path body rest (by rw [same]; rfl) world rfl, ?_⟩
        intro earlier path body later split reached passed
        refine all (event :: earlier) path body later (by rw [split]; rfl) reached ?_
        rw [List.foldlM_cons, first]
        exact passed

/-- In every run of updates and requests the calls sent stay within the configured prefixes
exactly when each request for another service is refused for some other reason. -/
theorem sent_exposed_iff (server : Server M R) {fuel : Nat} {events : List Event}
    {final : World M} (run : events.foldlM (step server fuel) {} = .ok final) :
    (∀ call ∈ final.sent, Exposed server.servicePrefixes call.serviceName) ↔
      ∀ earlier path body later, events = earlier ++ .post path body :: later →
        ∀ reached, earlier.foldlM (step server fuel) {} = .ok reached →
          StaysInside server reached.scan.context path body := by
  rw [run_exposed run]
  exact and_iff_right (by simp)

/-! ### A proxy for one of two services -/

def peerText : Str :=
  "<node><interface name='org.freedesktop.DBus.Peer'><method name='Ping'/></interface></node>".toList

def peerDocument : Element :=
  .mk "node".toList [] [
    .mk "interface".toList [("name".toList, "org.freedesktop.DBus.Peer".toList)] [
      .mk "method".toList [("name".toList, "Ping".toList)] []]]

/-- Every service answers as a peer, and the configuration exposes those of `a.` -/
def peerServer : Server Dbus.Draft Dbus.Cursor where
  servicePrefixes := ["a.".toList]
  bus := {
    introspectService := fun _ _ _ => peerText
    rootElement := fun xml => if xml = peerText then some peerDocument else none
    rootElement_empty := by decide }
  connection := {
    createMethodCall := fun _ _ _ _ => .ok .empty
    callMethod := fun _ => .ok (.start []) }
  env := Message2Json.bareEnv
  text := {
    parse := fun body =>
      if body = "null".toList then .ok .null else .error (.parseError "parse error".toList)
    dump := fun
      | .null => .ok "null".toList
      | _ => .error "not written here".toList
    toMsgpack := fun _ => [] }

def peerListing : Event := .update (some ["a.desk".toList, "b.secret".toList])

/-- The registry after the update: only `a.desk` was scanned. -/
def peerWorld : World Dbus.Draft where
  scan := {
    context := DbusEnumerator.recorded peerServer.bus.rootElement {}
      ⟨"a.desk".toList, "/".toList, peerText⟩
    asked := [⟨"a.desk".toList, "/".toList, peerText⟩] }
  sent := []

def pingTo (path : String) : Event := .post path.toList "null".toList

theorem ping_stays_inside :
    StaysInside peerServer peerWorld.scan.context
      "a.desk//org.freedesktop.DBus.Peer.Ping".toList "null".toList := by
  have run : [peerListing, pingTo "a.desk//org.freedesktop.DBus.Peer.Ping"].foldlM
      (step peerServer 1) {} = .ok { peerWorld with
        sent := [⟨"a.desk".toList, "/".toList, "org.freedesktop.DBus.Peer".toList, "Ping".toList,
          .empty⟩] } := rfl
  have exposed : Exposed peerServer.servicePrefixes "a.desk".toList :=
    ⟨"a.".toList, List.mem_cons_self, by decide⟩
  exact (sent_exposed_iff peerServer run).mp (by simpa using exposed) [peerListing] _ _ [] rfl
    peerWorld rfl

/-- The interface is known from `a.desk`, and that is enough for a call to `b.secret`. -/
theorem ping_gets_outside : ∃ final call,
    [peerListing, pingTo "b.secret//org.freedesktop.DBus.Peer.Ping"].foldlM
      (step peerServer 1) {} = .ok final ∧
    call ∈ final.sent ∧ call.serviceName = "b.secret".toList ∧
    ¬ Exposed peerServer.servicePrefixes call.serviceName := by
  refine ⟨{ peerWorld with
    sent := [⟨"b.secret".toList, "/".toList, "org.freedesktop.DBus.Peer".toList, "Ping".toList,
      .empty⟩] }, _, rfl, List.mem_cons_self, rfl, ?_⟩
  rintro ⟨start, configured, begins⟩
  rw [List.mem_singleton.mp configured] at begins
  exact absurd begins (by decide)

end Dbus2Http.WebService
