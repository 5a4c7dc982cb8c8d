import WireQuery.Compile.Basic
import WireQuery.Json.Printer
import WireQuery.Request.Bindings

/-!
# Requests

A request carries the text of a query, the name of its operation if it has one, and bindings that
have been checked.
-/

namespace WireQuery
set_option autoImplicit false

structure Request where
  query : String
  operationName : Option String
  bindings : Bindings
  deriving Repr

namespace Request

/-- The request of a run, if its bindings fit the query. -/
def ofBindings (query : Query) (bindings : Bindings) : Except BindingError Request := do
  query.document.checkBindings query.table bindings
  return ⟨query.text, query.operationName, bindings⟩

/-- The body of a request. The name of the operation is left out if there is none. -/
def toJson (request : Request) : Json :=
  let name := request.operationName.map fun name => ("operationName", Json.string name)
  .object (("query", .string request.query) :: name.toList ++
    [("variables", .object request.bindings.entries)])

def write (request : Request) (style : TextStyle) : String := request.toJson.write style

end Request

end WireQuery
