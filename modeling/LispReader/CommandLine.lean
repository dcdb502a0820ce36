import LispReader.Session
import LispReader.Source.Folder

/-!
# Command line

The arguments are flags and at most one input, in any order; after `--` there are no more flags.
They are taken from left to right, and the first one that asks for help, for the version or for
nothing known decides. Without an input the program is a session.
-/

namespace LispReader.CommandLine

inductive Flag where
  | showTokens
  | showTree
deriving DecidableEq

def Flag.spelling : Flag → String
  | .showTokens => "--show-tokens"
  | .showTree => "--show-ast"

/-- What an argument before `--` says. -/
inductive Argument where
  | separator
  | help
  | version
  | flag (flag : Flag)
  | input (path : String)
  /-- It looks like a flag; of several letters after one hyphen, the first is at fault. -/
  | unknown (shown : String)

/-- A long flag without a value that an equals sign attaches to it, and with two hyphens whatever
their number was. -/
def longFlag (arg : List Char) : String :=
  "--" ++ String.ofList ((arg.dropWhile (· = '-')).takeWhile (· ≠ '='))

def Argument.ofString (arg : String) : Argument :=
  match arg.toList with
  | ['-', '-'] => .separator
  | '-' :: '-' :: name =>
    let long := longFlag name
    if long = "--help" then .help
    else if long = "--version" then .version
    else if long = Flag.showTokens.spelling then .flag .showTokens
    else if long = Flag.showTree.spelling then .flag .showTree
    else .unknown long
  | '-' :: 'h' :: _ => .help
  | '-' :: 'V' :: _ => .version
  | '-' :: letter :: _ => .unknown (String.ofList ['-', letter])
  | _ => .input arg

/-- The arguments taken so far, flags in the order given. -/
structure Given where
  flags : List Flag
  input : Option String

/-- What is wrong with the arguments, and the flags given up to there. -/
inductive UsageError where
  | unexpected (arg : String) (flags : List Flag)
  | repeated (flag : Flag) (flags : List Flag)

inductive Request where
  | help
  | version
  | run (options : Options) (input : Option String)

namespace Given

/-- Takes an input, unless there is one. -/
def addInput (given : Given) (path : String) : Except UsageError Given :=
  match given.input with
  | none => .ok { given with input := some path }
  | some _ => .error (.unexpected path given.flags)

/-- The request that is complete, if no flag was given twice. -/
def request (given : Given) : Except UsageError Request :=
  match given.flags.find? fun flag => 1 < given.flags.count flag with
  | some flag => .error (.repeated flag given.flags)
  | none =>
    .ok (.run ⟨.showTokens ∈ given.flags, .showTree ∈ given.flags⟩ given.input)

end Given

/-- The request that the arguments make together with those taken before. -/
def Request.ofArguments (given : Given) : List String → Except UsageError Request
  | [] => given.request
  | arg :: args =>
    match Argument.ofString arg with
    | .separator => do (← args.foldlM Given.addInput given).request
    | .help => .ok .help
    | .version => .ok .version
    | .flag flag => ofArguments { given with flags := given.flags ++ [flag] } args
    | .input path => do ofArguments (← given.addInput path) args
    | .unknown shown => .error (.unexpected shown given.flags)

def usage (line : String) : String := "USAGE:\n    " ++ line ++ "\n"

def generalUsage : String := usage "lispi [FLAGS] [INPUT]"

def versionText : String := "lispi 0.1.0\n"

def helpText : String :=
  versionText ++
  "Thomas Peters\n" ++
  "scanner and parser for a small lisp-flavoured language\n" ++
  "\n" ++
  generalUsage ++
  "\n" ++
  "FLAGS:\n" ++
  "        --show-ast       show the AST\n" ++
  "    -h, --help           Prints help information\n" ++
  "        --show-tokens    show the token stream\n" ++
  "    -V, --version        Prints version information\n" ++
  "\n" ++
  "ARGS:\n" ++
  "    <INPUT>    sets input file to use; starts a prompt when omitted\n"

namespace UsageError

def problem : UsageError → String
  | .unexpected arg _ =>
    "Found argument '" ++ arg ++ "' which wasn't expected, or isn't valid in this context"
  | .repeated flag _ =>
    "The argument '" ++ flag.spelling ++
      "' was provided more than once, but cannot be used multiple times"

def flags : UsageError → List Flag
  | .unexpected _ flags => flags
  | .repeated _ flags => flags

/-- The usage line that goes with the error: with the flags given, or in general if there are
none. -/
def usageText (e : UsageError) : String :=
  match e.flags.eraseDups with
  | [] => generalUsage
  | flags => usage (String.intercalate " " ("lispi" :: flags.map Flag.spelling))

def message (e : UsageError) : String :=
  "error: " ++ e.problem ++ "\n\n" ++ e.usageText ++ "\nFor more information try --help\n"

end UsageError

/-- What a run of the program answers with. -/
structure Answer where
  exit : Nat
  output : Output

/-- Exit status for a source with errors. -/
def exitFaulty : Nat := 65

/-- Exit status for a source that cannot be read. -/
def exitUnreadable : Nat := 255

/-- Exit status for arguments that make no sense. -/
def exitUsage : Nat := 1

def answerSource (color : Bool) (options : Options) (source : Source) : Answer :=
  let outcome := source.run options
  ⟨if outcome.succeeded then 0 else exitFaulty, outcome.output color options source⟩

/-- The answer to a run with these options, on the source that `read` finds under the path or else on
what is typed, which is `input`. -/
def answerRun (color : Bool) (read : String → Except ReadError Source) (input : String)
    (options : Options) : Option String → Answer
  | none => ⟨0, Session.transcript color options.showTokens input⟩
  | some path =>
    match read path with
    | .ok source => answerSource color options source
    | .error e => ⟨exitUnreadable, ⟨"", e.message path ++ "\n"⟩⟩

/-- The answer to `args`. -/
def answer (color : Bool) (read : String → Except ReadError Source) (input : String)
    (args : List String) : Answer :=
  match Request.ofArguments ⟨[], none⟩ args with
  | .error e => ⟨exitUsage, ⟨"", e.message⟩⟩
  | .ok .help => ⟨0, ⟨helpText, ""⟩⟩
  | .ok .version => ⟨0, ⟨versionText, ""⟩⟩
  | .ok (.run options path) => answerRun color read input options path

end LispReader.CommandLine
