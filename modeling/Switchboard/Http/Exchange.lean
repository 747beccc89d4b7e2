import Switchboard.Http.Headers
import Switchboard.Http.Method

/-!
# Exchanges

- `Exchange`: a request that is ready to be sent.
- `Response`: what came back.
- `isSuccess`: status codes from 200 to 299.
-/

namespace Switchboard.Http

structure Exchange where
  method : Method
  url : String
  headers : Headers
  body : Option String
  deriving DecidableEq, Repr

/-- A status code that reports success. -/
def isSuccess (status : Nat) : Bool := 200 ≤ status && status < 300

structure Response where
  status : Nat
  statusText : String
  body : String
  deriving DecidableEq, Repr

end Switchboard.Http
