import Switchboard.CommandLine.Arguments
import Switchboard.Json.Reader
import Switchboard.Settings.File

/-!
# Running a command line

What the program does, as far as it does not depend on a server that can be reached.

- `postTarget`: path and body of a `post` command.
- `Plan`: what is left to do after the checks.
- `plan`: arguments, settings, the body of a request, then waiting.
- `Plan.outcome`: what remains when no topology arrives.
-/

namespace Switchboard.CommandLine

inductive PostFault
  | arguments
  | body
  deriving DecidableEq, Repr

def PostFault.message : PostFault → String
  | arguments => "post takes \x60[PATH] BODY\x60"
  | body => "request body is not valid JSON"

/-- The path and the body that the arguments of `post` name. -/
def postTarget (args : List String) : Except PostFault (String × Json) :=
  let read (path body : String) : Except PostFault (String × Json) :=
    match Json.read body with
    | .ok j => .ok (path, j)
    | .error _ => .error .body
  match args with
  | [path, body] => read path body
  | [body] => read rootPath body
  | _ => .error .arguments

/-- What a program leaves behind. -/
structure Outcome where
  exitCode : Nat
  stdout : String
  stderr : String
  deriving DecidableEq, Repr

/-- A failure after the arguments were read. -/
def Outcome.failure (message : String) : Outcome := ⟨1, "", "Error: " ++ message ++ "\n"⟩

/-- What is to be asked once the first topology has arrived. -/
inductive Inquiry
  | get (service path : String)
  | post (service path : String) (body : Json)

/-- What is left to do. -/
inductive Plan
  | done (o : Outcome)
  /-- To wait for a topology, and then to ask a service. -/
  | inquire (settings : Settings) (waitSecs : Nat) (q : Inquiry)
  /-- To print every announcement. -/
  | watch (settings : Settings)

/-- The name of the program. -/
def programName : String := "ribbon"

def version : String := "0.0.0"

/-- The settings that a line asks for. A file that is named must be there. -/
def loadSettings (a : Arguments) (home : String) (files : String → Settings.FileState) :
    Except Settings.LoadError Settings :=
  match a.config with
  | some path => Settings.load path (files path)
  | none =>
    let path := Settings.defaultPath home
    (Settings.loadDefault path (files path)).map fun s => s.getD {}

/-- What a line of arguments asks for. -/
def planOf (a : Arguments) (home : String) (files : String → Settings.FileState) : Plan :=
  match loadSettings a home files with
  | .error e => .done (.failure e.message)
  | .ok settings =>
    match a.command with
    | .get service path => .inquire settings a.waitSecs (.get service path)
    | .post service args =>
      match postTarget args with
      | .ok (path, body) => .inquire settings a.waitSecs (.post service path body)
      | .error f => .done (.failure f.message)
    | .watch => .watch settings

/-- What a program that waited in vain leaves behind. -/
def noTopology (waitSecs : Nat) : Outcome :=
  .failure ("no topology received within " ++ toString waitSecs ++ "s")

end Switchboard.CommandLine
