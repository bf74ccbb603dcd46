import Dbus2Http.InterfaceContext
import Dbus2Http.Json2Message
import Dbus2Http.Message2Json

set_option autoImplicit false

namespace Dbus2Http.DbusCaller

open Cxx (Str Run throwExn)
open Dbus (MessageWriter MessageReader)

/-- A method call that was sent on the bus. -/
structure Sent (M : Type) where
  serviceName : Str
  objectPath : Str
  interfaceName : Str
  methodName : Str
  message : M
deriving DecidableEq

/-- The bus connection of the caller. The library makes an empty call, or raises an error about one
of the names, and waits for the reply to the last call sent, or raises an error. -/
structure Connection (M R : Type) where
  createMethodCall : (serviceName objectPath interfaceName methodName : Str) → Except Str M
  callMethod : List (Sent M) → Except Str R

/-- A library call whose error is an exception with a text of its own. -/
def raising {α : Type} (cls : Cxx.ExnClass) : Except Str α → Run α
  | .ok value => .ok value
  | .error what => throwExn cls what

variable {M R : Type} [MessageWriter M] [MessageReader R]

/-- `Call` up to the point where the call is sent: the filled call and the type of the method. -/
def prepare (connection : Connection M R) (context : InterfaceContext)
    (serviceName objectPath interfaceName methodName : Str) (request : Json) :
    Run (M × Method) := do
  let methodCall ← raising .busError
    (connection.createMethodCall serviceName objectPath interfaceName methodName)
  let methodType : Method ← context.get interfaceName methodName
  let filledType : Method ← context.get interfaceName methodName
  let filled ← Json2Message.fillArguments methodCall filledType.inArgs request
  return (filled, methodType)

/-- `Call`, with the calls sent so far. -/
def call (connection : Connection M R) (env : Message2Json.Env) (fuel : Nat)
    (context : InterfaceContext) (sent : List (Sent M))
    (serviceName objectPath interfaceName methodName : Str) (request : Json) :
    List (Sent M) × Run Json :=
  match prepare connection context serviceName objectPath interfaceName methodName request with
  | .error fault => (sent, .error fault)
  | .ok (methodCall, methodType) =>
      let sent := sent ++ [⟨serviceName, objectPath, interfaceName, methodName, methodCall⟩]
      (sent, do
        let methodReply ← raising .busError (connection.callMethod sent)
        let (response, _) ← Message2Json.extractArguments env fuel methodReply methodType.outArgs
        return response)

omit [MessageReader R] in
/-- The service is nowhere looked up: the interface and the method are enough. -/
theorem prepare_eq_ok {connection : Connection M R} {context : InterfaceContext}
    {serviceName objectPath interfaceName methodName : Str} {request : Json} {filled : M}
    {methodType : Method} :
    prepare connection context serviceName objectPath interfaceName methodName request =
        .ok (filled, methodType) ↔
      ∃ methodCall,
        connection.createMethodCall serviceName objectPath interfaceName methodName =
          .ok methodCall ∧
        context.get interfaceName methodName = .ok methodType ∧
        Json2Message.fillArguments methodCall methodType.inArgs request = .ok filled := by
  rw [prepare]
  constructor
  · intro prepared
    cases created : connection.createMethodCall serviceName objectPath interfaceName methodName with
    | error what => simp [created, raising] at prepared
    | ok methodCall =>
        rw [created, raising, Cxx.bind_ok, Cxx.bind_eq_ok] at prepared
        obtain ⟨found, registered, rest⟩ := prepared
        rw [registered, Cxx.bind_ok, Cxx.bind_eq_ok] at rest
        obtain ⟨message, fills, returned⟩ := rest
        cases returned
        exact ⟨methodCall, rfl, registered, fills⟩
  · rintro ⟨methodCall, created, registered, fills⟩
    rw [created, raising, Cxx.bind_ok, registered, Cxx.bind_ok, Cxx.bind_ok, fills, Cxx.bind_ok]
    rfl

end Dbus2Http.DbusCaller
