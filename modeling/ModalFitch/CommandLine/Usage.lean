import ModalFitch.CommandLine.Options
import ModalFitch.System

/-! The command line: its commands, their options, and the texts that explain them. -/

namespace ModalFitch.CommandLine
set_option autoImplicit false

def helpOption : OptionSpec := ⟨["-h", "--help"], .help⟩

def verboseOption : OptionSpec := ⟨["-v", "--verbose"], .flag⟩

def systemOption : OptionSpec := ⟨["--system"], .choice (ModalSystem.all.map ModalSystem.name)⟩

def noDerivedOption : OptionSpec := ⟨["--no-derived"], .flag⟩

def jsonOption : OptionSpec := ⟨["--json"], .flag⟩

def commandNames : List String := ["check", "parse", "rules", "demo"]

/-- A text of several lines. -/
def unlines (lines : List String) : String := String.join (lines.map (· ++ "\n"))

def mainUsage : String := "usage: fitchbox [-h] [-v] \x7bcheck,parse,rules,demo\x7d ..."

def mainGrammar : Grammar where
  program := "fitchbox"
  usage := mainUsage
  help := unlines [
    mainUsage,
    "",
    "Fitchbox — Natural Deduction Proof Checker",
    "",
    "options:",
    "  -h, --help            show this help message and exit",
    "  -v, --verbose         Log each line's verdict",
    "",
    "commands:",
    "  Available commands",
    "",
    "  \x7bcheck,parse,rules,demo\x7d",
    "    check               Verify a JSON proof document",
    "    parse               Parse a sentence",
    "    rules               List available rules",
    "    demo                Verify a built-in sample proof"]
  options := [helpOption, verboseOption]
  positional := some (.command "command" commandNames)

def checkUsage : String :=
  "usage: fitchbox check [-h] [--system \x7bK,T,S4,S5\x7d] [--no-derived] [--json] file"

def checkGrammar : Grammar where
  program := "fitchbox check"
  usage := checkUsage
  help := unlines [
    checkUsage,
    "",
    "positional arguments:",
    "  file                  Path to the proof document",
    "",
    "options:",
    "  -h, --help            show this help message and exit",
    "  --system \x7bK,T,S4,S5\x7d  Modal system to check under",
    "  --no-derived          Disable the derived TFL rules",
    "  --json                Print the report as JSON"]
  options := [helpOption, systemOption, noDerivedOption, jsonOption]
  positional := some (.single "file")

def parseUsage : String := "usage: fitchbox parse [-h] sentence"

def parseGrammar : Grammar where
  program := "fitchbox parse"
  usage := parseUsage
  help := unlines [
    parseUsage,
    "",
    "positional arguments:",
    "  sentence    Sentence text, e.g. '[](P -> Q)'",
    "",
    "options:",
    "  -h, --help  show this help message and exit"]
  options := [helpOption]
  positional := some (.single "sentence")

def rulesUsage : String :=
  "usage: fitchbox rules [-h] [--system \x7bK,T,S4,S5\x7d] [--no-derived]"

def rulesGrammar : Grammar where
  program := "fitchbox rules"
  usage := rulesUsage
  help := unlines [
    rulesUsage,
    "",
    "options:",
    "  -h, --help            show this help message and exit",
    "  --system \x7bK,T,S4,S5\x7d  Modal system to check under",
    "  --no-derived          Disable the derived TFL rules"]
  options := [helpOption, systemOption, noDerivedOption]
  positional := none

def demoUsage : String := "usage: fitchbox demo [-h]"

def demoGrammar : Grammar where
  program := "fitchbox demo"
  usage := demoUsage
  help := unlines [
    demoUsage,
    "",
    "options:",
    "  -h, --help  show this help message and exit"]
  options := [helpOption]
  positional := none

/-! ## Commands -/

inductive Command where
  /-- No command: the help text is shown. -/
  | none
  | check (file : String) (system : Option String) (noDerived json : Bool)
  | parse (sentence : String)
  | rules (system : Option String) (noDerived : Bool)
  | demo
deriving DecidableEq, Repr

structure Invocation where
  verbose : Bool
  command : Command
deriving DecidableEq, Repr

/-- A stop, with the grammar whose help or usage is shown. -/
structure Halt where
  grammar : Grammar
  stop : Stop
deriving DecidableEq, Repr

def Grammar.readOrHalt (g : Grammar) (args : List String) : Except Halt Reading :=
  (g.read args).mapError fun s => ⟨g, s⟩

/-- A command with its arguments, and the arguments that nothing has taken up. -/
def readCommand : List String → Except Halt (Command × List String)
  | "check" :: args => do
    let r ← checkGrammar.readOrHalt args
    return (.check (r.positional.headD "") (r.value? "--system") (r.has "--no-derived")
      (r.has "--json"), r.extras)
  | "parse" :: args => do
    let r ← parseGrammar.readOrHalt args
    return (.parse (r.positional.headD ""), r.extras)
  | "rules" :: args => do
    let r ← rulesGrammar.readOrHalt args
    return (.rules (r.value? "--system") (r.has "--no-derived"), r.extras)
  | "demo" :: args => do
    let r ← demoGrammar.readOrHalt args
    return (.demo, r.extras)
  | _ => .ok (.none, [])

def readInvocation (args : List String) : Except Halt Invocation := do
  let r ← mainGrammar.readOrHalt args
  let (command, extras) ← readCommand r.positional
  match r.extras ++ extras with
  | [] => return ⟨r.has "--verbose", command⟩
  | left =>
    let listed := " ".intercalate left
    .error ⟨mainGrammar, .misuse s!"unrecognized arguments: {listed}"⟩

end ModalFitch.CommandLine
