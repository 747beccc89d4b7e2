import Switchboard.Text.Ascii
import Switchboard.Text.Search

/-!
# Command line arguments

Two options may stand before the command or after it; what stands after it goes first. The value
of an option is looked at when the next option or value comes, or at the end of its part of the
line, so the first problem from the left does not always decide.

- `Arguments`: what a command line asks for.
- `UsageFault`: why a line is none, or what it asks for instead.
- `Level`: one part of the line while it is read: before the command, or after it.
- `Arguments.ofList`: the arguments of a line, without the name of the program.
-/

namespace Switchboard.CommandLine

inductive CommandName
  | get
  | post
  | watch
  deriving DecidableEq, Repr

inductive Command
  | get (service path : String)
  /-- The arguments are a path, if there are two, and a body. -/
  | post (service : String) (args : List String)
  | watch
  deriving DecidableEq, Repr

structure Arguments where
  /-- The settings file, if one is named. -/
  config : Option String
  /-- How long to wait for the first topology. -/
  waitSecs : Nat
  command : Command
  deriving DecidableEq, Repr

inductive UsageFault
  /-- Help is asked for, on the program or on a command. -/
  | help (topic : Option CommandName)
  | version
  | emptyLine
  | noCommand
  | unknownCommand
  | unknownArgument
  | missingArgument
  /-- An option without a value, or with an empty path. -/
  | missingValue
  | invalidValue
  | repeatedOption
  | tooManyValues
  deriving DecidableEq, Repr

/-- Help and version are answers, all others are failures. -/
def UsageFault.exitCode : UsageFault → Nat
  | help _ | version => 0
  | _ => 2

def defaultWaitSecs : Nat := 10

/-- The path of a request that names none. -/
def rootPath : String := "/"

inductive OptionName
  | config
  | waitSecs
  deriving DecidableEq, Repr

structure Options where
  config : Option String := none
  waitSecs : Option Nat := none
  deriving DecidableEq, Repr

namespace Options

/-- Gives an option its value, once. -/
def set (o : Options) (name : OptionName) (value : String) : Except UsageFault Options :=
  match name with
  | .config =>
    if o.config.isSome then .error .repeatedOption
    else if value.isEmpty then .error .missingValue
    else .ok { o with config := some value }
  | .waitSecs =>
    if o.waitSecs.isSome then .error .repeatedOption
    else match Text.readUInt64? value with
      | some n => .ok { o with waitSecs := some n }
      | none => .error .invalidValue

def isEmpty (o : Options) : Bool := o.config.isNone && o.waitSecs.isNone

/-- Options after the command go before those in front of it. -/
def orElse (inner outer : Options) : Options :=
  ⟨inner.config.or outer.config, inner.waitSecs.or outer.waitSecs⟩

end Options

/-- What was read but not yet looked at. -/
inductive Pending
  | nothing
  /-- An option whose value is to come. -/
  | option (name : OptionName)
  | value (name : OptionName) (value : String)
  /-- Arguments of `post` that stand together, in reverse. -/
  | args (values : List String)

/-- One part of the line. -/
structure Level where
  options : Options := {}
  pending : Pending := .nothing
  /-- Values that belong to no option. -/
  values : List String := []

namespace Level

/-- Looks at what is pending. Of the arguments of `post`, at most two stand together. -/
def resolve (l : Level) : Except UsageFault Level :=
  match l.pending with
  | .nothing => .ok l
  | .option _ => .error .missingValue
  | .value name value => do
    .ok { l with options := ← l.options.set name value, pending := .nothing }
  | .args values =>
    if 2 < values.length then .error .tooManyValues
    else .ok { l with values := l.values ++ values.reverse, pending := .nothing }

end Level

/-- What an argument looks like. -/
inductive Shape
  | plain
  /-- Two dashes: what follows are values. -/
  | escape
  | long (name : String) (value : Option String)
  | short (letter : Char)

def shape (arg : String) : Shape :=
  match arg.toList with
  | ['-', '-'] => .escape
  | '-' :: '-' :: rest =>
    match Text.cut? ['='] rest with
    | some (name, value) => .long (String.ofList name) (some (String.ofList value))
    | none => .long (String.ofList rest) none
  | '-' :: c :: _ => .short c
  | _ => .plain

def CommandName.ofText? : String → Option CommandName
  | "get" => some .get
  | "post" => some .post
  | "watch" => some .watch
  | _ => none

def OptionName.ofText? : String → Option OptionName
  | "config" => some .config
  | "wait-secs" => some .waitSecs
  | _ => none

/-- Help is asked for here. -/
def askHelp (topic : Option CommandName) (l : Level) : Except UsageFault Level := do
  let _ ← l.resolve
  .error (.help topic)

def askVersion (l : Level) : Except UsageFault Level := do
  let _ ← l.resolve
  .error .version

/-- An option with two dashes. The version can be asked for in front of the command only. -/
def longOption (topic : Option CommandName) (l : Level) (name : String) (value : Option String) :
    Except UsageFault Level :=
  match OptionName.ofText? name with
  | some o => do
    let l ← l.resolve
    match value with
    | some v => .ok { l with options := ← l.options.set o v }
    | none => .ok { l with pending := .option o }
  | none =>
    if name == "help" then
      if value.isSome then .error .tooManyValues else askHelp topic l
    else if name == "version" && topic.isNone then
      if value.isSome then .error .tooManyValues else askVersion l
    else .error .unknownArgument

def shortOption (topic : Option CommandName) (l : Level) (letter : Char) :
    Except UsageFault Level :=
  if letter == 'h' then askHelp topic l
  else if letter == 'V' && topic.isNone then askVersion l
  else .error .unknownArgument

/-- A value that belongs to no option. -/
def takeValue (c : CommandName) (l : Level) (arg : String) : Except UsageFault Level :=
  let append (l : Level) : Level := { l with values := l.values ++ [arg] }
  match c with
  | .watch => .error .unknownArgument
  | .get => if l.values.length < 2 then l.resolve.map append else .error .unknownArgument
  | .post =>
    match l.pending with
    | .args values => .ok { l with pending := .args (arg :: values) }
    | _ => do
      let l ← l.resolve
      .ok (if l.values.isEmpty then append l else { l with pending := .args [arg] })

/-- The command with its values, at the end of the line. -/
def finish (c : CommandName) (l : Level) : Except UsageFault (Command × Options) := do
  let l ← l.resolve
  match c, l.values with
  | .get, [service] => .ok (.get service rootPath, l.options)
  | .get, [service, path] => .ok (.get service path, l.options)
  | .post, service :: arg :: args => .ok (.post service (arg :: args), l.options)
  | .watch, [] => .ok (.watch, l.options)
  | _, _ => .error .missingArgument

/-- The line after the command; `trailing` says that two dashes have come. -/
def commandLevel (c : CommandName) (trailing : Bool) (l : Level) :
    List String → Except UsageFault (Command × Options)
  | [] => finish c l
  | arg :: rest =>
    if trailing then do commandLevel c true (← takeValue c l arg) rest
    else match shape arg, l.pending with
      | .escape, _ => commandLevel c true l rest
      | .long name value, _ => do commandLevel c false (← longOption (some c) l name value) rest
      | .short letter, _ => do commandLevel c false (← shortOption (some c) l letter) rest
      | .plain, .option o => commandLevel c false { l with pending := .value o arg } rest
      | .plain, _ => do commandLevel c false (← takeValue c l arg) rest

/-- What `help` and the words after it ask for. -/
def helpOn : List String → UsageFault
  | [] => .help none
  | ["help"] => .help none
  | [name] =>
    match CommandName.ofText? name with
    | some c => .help (some c)
    | none => .unknownCommand
  | _ => .unknownCommand

/-- The line in front of the command, and all that follows. -/
def lineLevel (trailing : Bool) (l : Level) : List String → Except UsageFault Arguments
  | [] => do
    let l ← l.resolve
    .error (if l.options.isEmpty then .emptyLine else .noCommand)
  | arg :: rest =>
    let word := CommandName.ofText? arg
    if trailing then
      .error (if word.isSome || arg == "help" then .unknownArgument else .unknownCommand)
    else match l.pending, word, shape arg with
      | .option o, _, .plain => lineLevel false { l with pending := .value o arg } rest
      | _, some c, _ => do
        let (command, inner) ← commandLevel c false {} rest
        let o := inner.orElse (← l.resolve).options
        .ok ⟨o.config, o.waitSecs.getD defaultWaitSecs, command⟩
      | _, none, .escape => lineLevel true l rest
      | _, none, .long name value => do lineLevel false (← longOption none l name value) rest
      | _, none, .short letter => do lineLevel false (← shortOption none l letter) rest
      | _, none, .plain => .error (if arg == "help" then helpOn rest else .unknownCommand)

/-- The arguments of a line, without the name of the program. -/
def Arguments.ofList (argv : List String) : Except UsageFault Arguments := lineLevel false {} argv

end Switchboard.CommandLine
