import Switchboard.Http.Headers
import Switchboard.Http.Method
import Switchboard.Reconnect.Backoff
import Switchboard.Settings.Expansion
import Switchboard.Text.Blank

/-!
# Settings

Every setting has a default, so that an empty file is a complete one.

- `ClientSettings`: what requests and the push channel start from.
- `AuthSettings`: the token of the caller.
- `Settings`: both.

Header values and the token may refer to environment variables; they are expanded when they are
used and kept as written until then.
-/

namespace Switchboard

open Http (Method Headers)

structure ClientSettings where
  /-- The base of the push channel's URL. -/
  origin : String := "http://localhost:8080"
  /-- The scheme of request URLs. -/
  scheme : String := "http"
  method : Method := .get
  headers : Headers := .empty
  /-- How long a token must still be valid when a request uses it. -/
  refreshSecs : Nat := 30
  pushPath : String := "/ribbon/system/stream"
  connectTimeoutSecs : Nat := 30
  requestTimeoutSecs : Option Nat := none
  reconnect : ReconnectSettings := {}
  deriving DecidableEq, Repr

/-- The header fields with environment references replaced. -/
def ClientSettings.expandedHeaders (s : ClientSettings) (env : Settings.Environment) : Headers :=
  s.headers.mapValues (Settings.expand env)

structure AuthSettings where
  /-- The token as written. -/
  token : String
  deriving DecidableEq, Repr

/-- The token with environment references replaced and blanks around it removed, unless nothing
remains. -/
def AuthSettings.token? (s : AuthSettings) (env : Settings.Environment) : Option String :=
  let t := Text.trim (Settings.expand env s.token)
  if t.isEmpty then none else some t

/-- The token itself is never shown. -/
def AuthSettings.describe (_ : AuthSettings) : String :=
  "AuthConfig \x7b token: \"[REDACTED]\" \x7d"

structure Settings where
  client : ClientSettings := {}
  auth : Option AuthSettings := none
  deriving DecidableEq, Repr

end Switchboard
