import Switchboard.Client.Error
import Switchboard.Credentials
import Switchboard.Duration
import Switchboard.Http.Exchange
import Switchboard.Json.Reader
import Switchboard.Settings.Basic
import Switchboard.Topology.Basic

/-!
# Requests and their answers

- `RequestSettings`: what one call overrides; `Defaults`: what it inherits.
- `requestUrl`: scheme, server and path put together.
- `prepare`: the exchange for a call.
- `decodeResponse`: the value that a response stands for.
-/

namespace Switchboard.Client

open Http (Method Headers Exchange Response)

/-- What one call overrides. -/
structure RequestSettings where
  method : Option Method := none
  headers : Headers := .empty
  body : Option String := none
  deriving DecidableEq, Repr

/-- What every request inherits. -/
structure Defaults where
  scheme : String := "http"
  method : Method := .get
  headers : Headers := .empty
  /-- How long a token must still be valid when a request uses it. -/
  refreshInterval : Duration := .ofSecs 30
  deriving DecidableEq, Repr

def Defaults.ofSettings (s : ClientSettings) (env : Settings.Environment) : Defaults where
  scheme := s.scheme
  method := s.method
  headers := s.expandedHeaders env
  refreshInterval := .ofSecs s.refreshSecs

/-- The path as it stands in a URL: it starts with a slash. -/
def normalizePath (path : String) : String :=
  match path.toList with
  | '/' :: _ => path
  | _ => "/" ++ path

def requestUrl (scheme : String) (server : Address) (path : String) : String :=
  scheme ++ "://" ++ server.text ++ normalizePath path

/-- The call's header fields over the inherited ones; a request that carries a body says that it is
JSON. -/
def prepare (d : Defaults) (server : Address) (path : String) (s : RequestSettings) : Exchange :=
  let method := s.method.getD d.method
  let headers := d.headers.overlay s.headers
  { method
    url := requestUrl d.scheme server path
    headers := if method.carriesBody then headers.insert "Content-Type" "application/json"
      else headers
    body := s.body }

/-- The exchange with a token on it. -/
def authorize (e : Exchange) (t : BearerToken) : Exchange :=
  { e with headers := e.headers.insert "Authorization" t.authorization }

/-- A blank status text gives way to the code, and a blank body stands for null. -/
def decodeResponse (r : Response) : Except ClientError Json :=
  if Http.isSuccess r.status then
    if (Text.trim r.body).isEmpty then .ok .null
    else (Json.read r.body).mapError fun f => .decode f.message
  else
    let text := if (Text.trim r.statusText).isEmpty then toString r.status else r.statusText
    .error (.status r.status text)

def Defaults.describe (d : Defaults) : String :=
  "RequestDefaults \x7b scheme: " ++ Text.quoted d.scheme ++ ", method: " ++ d.method.describe ++
    ", headers: " ++ d.headers.describe ++ ", auth_refresh_interval: " ++
    d.refreshInterval.describe ++ " \x7d"

end Switchboard.Client
