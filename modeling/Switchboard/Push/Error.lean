import Switchboard.Text.Quoted

/-!
# Failures of the push channel

- `PushError`: why a connection of the push channel ended.
- `PushError.message`, `describe`: its texts.
-/

namespace Switchboard

inductive PushError
  | connect (cause : String)
  /-- The server answered with a status other than success. -/
  | status (status : Nat) (body : String)
  | stream (cause : String)
  | invalidUtf8
  /-- A frame did not end within the limit. -/
  | bufferOverflow
  | closed
  deriving DecidableEq, Repr

namespace PushError

def message : PushError → String
  | connect cause => "failed to connect: " ++ cause
  | status code body => "push channel returned " ++ toString code ++ ": " ++ body
  | stream cause => "push stream failed: " ++ cause
  | invalidUtf8 => "push stream carried invalid UTF-8"
  | bufferOverflow => "push event exceeded the 4 MiB buffer limit"
  | closed => "push stream closed by server"

/-- The name of the kind of failure. -/
def name : PushError → String
  | connect _ => "Connect"
  | status .. => "Status"
  | stream _ => "Stream"
  | invalidUtf8 => "InvalidUtf8"
  | bufferOverflow => "BufferOverflow"
  | closed => "Closed"

def describe : PushError → String
  | e@(connect cause) | e@(stream cause) => e.name ++ "(" ++ Text.quoted cause ++ ")"
  | status code body =>
    "Status \x7b status: " ++ toString code ++ ", body: " ++ Text.quoted body ++ " \x7d"
  | e => e.name

end PushError

end Switchboard
