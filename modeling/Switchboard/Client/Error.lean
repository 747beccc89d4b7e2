import Switchboard.Json.Token
import Switchboard.Promise.Basic
import Switchboard.Text.Quoted

/-!
# Failed requests

- `ClientError`: why a request failed.
- `ClientError.category`: the part of a request that failed.
- `ClientError.message`, `describe`: its texts.
-/

namespace Switchboard

inductive ClientError
  /-- The topology had no server for the service. -/
  | noServers (service : String)
  | notAuthenticated
  | tokenRefresh (cause : String)
  /-- The provider held no token after a refresh. -/
  | missingToken
  /-- The server answered with a status other than success. -/
  | status (status : Nat) (statusText : String)
  | connection (cause : String)
  | decode (cause : String)
  | encode (cause : String)
  | resolution (fault : Promise.Fault)
  deriving DecidableEq, Repr

namespace ClientError

instance : Promise.Cause ClientError := ⟨resolution⟩

inductive Category
  | routing
  | auth
  | transport
  | codec
  | resolution
  deriving DecidableEq, Repr

def Category.name : Category → String
  | routing => "Routing"
  | auth => "Auth"
  | transport => "Transport"
  | codec => "Codec"
  | resolution => "Resolution"

def category : ClientError → Category
  | noServers _ => .routing
  | notAuthenticated | tokenRefresh _ | missingToken => .auth
  | status .. | connection _ => .transport
  | decode _ | encode _ => .codec
  | resolution _ => .resolution

/-- The name of the kind of error. -/
def name : ClientError → String
  | noServers _ => "NoServers"
  | notAuthenticated => "NotAuthenticated"
  | tokenRefresh _ => "TokenRefresh"
  | missingToken => "MissingToken"
  | status .. => "Status"
  | connection _ => "Connection"
  | decode _ => "Decode"
  | encode _ => "Encode"
  | resolution _ => "Resolution"

def message : ClientError → String
  | noServers service => "no servers available for service " ++ Text.quoted service
  | notAuthenticated => "not authenticated"
  | tokenRefresh cause => "failed to update token: " ++ cause
  | missingToken => "credential provider reported no token after refresh"
  | status _ statusText => "Bad request: " ++ statusText
  | connection cause => "request failed: " ++ cause
  | decode cause => "invalid JSON response: " ++ cause
  | encode cause => "failed to encode request body: " ++ cause
  | resolution fault => fault.message

def describe : ClientError → String
  | noServers service => "NoServers \x7b service: " ++ Text.quoted service ++ " \x7d"
  | status code statusText =>
    "Status \x7b status: " ++ toString code ++ ", status_text: " ++ Text.quoted statusText ++ " \x7d"
  | e@(tokenRefresh cause) | e@(connection cause) | e@(decode cause) | e@(encode cause) =>
    e.name ++ "(" ++ Text.quoted cause ++ ")"
  | resolution fault => "Resolution(" ++ fault.describe ++ ")"
  | e => e.name

end ClientError

/-- The cause of a failed reading of JSON. -/
def Json.Fault.message : Json.Fault → String
  | malformed => "the text is not well formed"
  | unfinished => "the text ended too early"

end Switchboard
