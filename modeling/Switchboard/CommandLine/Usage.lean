import Switchboard.CommandLine.Run

/-!
# Help and usage

- `helpText`: what the program says when help is asked for.
- `UsageFault.outcome`: what a line leaves behind that asks for no command.
- `plan`: what a command line asks for, usage included.
-/

namespace Switchboard.CommandLine

def optionLines : List String :=
  ["Options:",
   "      --config <PATH>  Config file (default: ~/.ribbon/config.toml)",
   "      --wait-secs <N>  Seconds to wait for the first topology [default: 10]",
   "  -h, --help           Print help"]

def helpLines : Option CommandName → List String
  | none =>
    ["Send JSON requests to services routed by a pushed topology", "",
     "Usage: ribbon [OPTIONS] <COMMAND>", "",
     "Commands:",
     "  get    Request a service path and print the JSON response",
     "  post   Send a JSON body to a service path and print the JSON response",
     "  watch  Print every topology payload until Ctrl-C",
     "  help   Print this message or the help of the given subcommand(s)", ""] ++
    optionLines ++ ["  -V, --version        Print version"]
  | some .get =>
    ["Request a service path and print the JSON response", "",
     "Usage: ribbon get [OPTIONS] <SERVICE> [PATH]", "",
     "Arguments:",
     "  <SERVICE>  Service name from the topology",
     "  [PATH]     Request path [default: /]", ""] ++ optionLines
  | some .post =>
    ["Send a JSON body to a service path and print the JSON response", "",
     "Usage: ribbon post [OPTIONS] <SERVICE> <ARGS>...", "",
     "Arguments:",
     "  <SERVICE>  Service name from the topology",
     "  <ARGS>...  \x60[PATH] BODY\x60; the path defaults to \x60/\x60", ""] ++ optionLines
  | some .watch =>
    ["Print every topology payload until Ctrl-C", "",
     "Usage: ribbon watch [OPTIONS]", ""] ++ optionLines

def helpText (topic : Option CommandName) : String :=
  String.intercalate "\n" (helpLines topic) ++ "\n"

def UsageFault.message : UsageFault → String
  | help _ | version | emptyLine => ""
  | noCommand => "a subcommand is required but none was given"
  | unknownCommand => "unrecognized subcommand"
  | unknownArgument => "unexpected argument found"
  | missingArgument => "a required argument was not given"
  | missingValue => "a value is required but none was supplied"
  | invalidValue => "invalid value"
  | repeatedOption => "an option cannot be used more than once"
  | tooManyValues => "too many values"

def UsageFault.outcome (f : UsageFault) : Outcome :=
  match f with
  | help topic => ⟨f.exitCode, helpText topic, ""⟩
  | version => ⟨f.exitCode, programName ++ " " ++ CommandLine.version ++ "\n", ""⟩
  | emptyLine => ⟨f.exitCode, "", helpText none⟩
  | f => ⟨f.exitCode, "", "error: " ++ f.message ++ "\n"⟩

/-- What a command line asks for. -/
def plan (argv : List String) (home : String) (files : String → Settings.FileState) : Plan :=
  match Arguments.ofList argv with
  | .ok a => planOf a home files
  | .error f => .done f.outcome

end Switchboard.CommandLine
