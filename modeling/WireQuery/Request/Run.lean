import WireQuery.Request.Basic
import WireQuery.Result.Decoder

/-!
# Runs

A run checks its bindings and sends a request, and then decodes the answer to that request. The
query is not changed by it, so any number of runs can share one.
-/

namespace WireQuery
set_option autoImplicit false

/-- A failure that a transport reports. It is never looked into. -/
structure TransportFailure where
  message : String
  deriving DecidableEq, Repr

inductive RunError where
  | binding (error : BindingError)
  | transport (failure : TransportFailure)
  | response (error : DecodeError)
  deriving DecidableEq, Repr

def RunError.message : RunError → String
  | binding error => error.message
  | transport failure => failure.message
  | response error => error.message

/-- What a transport gives back for a request: the data of a response, or a failure. -/
abbrev Answer := Except TransportFailure Json

namespace Query

/-- The first step of a run: the request that is sent. -/
def send (query : Query) (bindings : Bindings) : Except RunError Request :=
  match Request.ofBindings query bindings with
  | .ok request => .ok request
  | .error error => .error (.binding error)

/-- The second step of a run: the result that an answer gives. -/
def receive (query : Query) (answer : Answer) : Except RunError Value :=
  match answer with
  | .error failure => .error (.transport failure)
  | .ok response =>
    match query.shape.decode response with
    | .ok value => .ok value
    | .error error => .error (.response error)

/-- What a run did: the request that reached the transport, if any, and its result. -/
structure Run where
  sent : Option Request
  result : Except RunError Value

/-- A whole run through a transport. -/
def run (query : Query) (transport : Request → Answer) (bindings : Bindings) : Run :=
  match query.send bindings with
  | .error error => ⟨none, .error error⟩
  | .ok request => ⟨some request, query.receive (transport request)⟩

end Query

end WireQuery
