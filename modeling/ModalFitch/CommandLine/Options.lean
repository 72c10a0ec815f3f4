import ModalFitch.Text.Blank
import ModalFitch.Text.Digit
import ModalFitch.Text.Quoted

/-! Reading of command-line arguments.

A grammar has options and at most one positional argument. Options and other arguments may be
mixed. A long option may be cut short where that leaves one meaning, and may carry its value after
an equals sign; short options may be run together. After two dashes nothing is an option. What
nothing takes up is handed back.

* `Grammar.mark`: which arguments are options, decided before any of them is used.
* `Grammar.read`: what the arguments say, or why the work stops. -/

namespace ModalFitch.CommandLine
set_option autoImplicit false

inductive OptionRole where
  /-- Shows the help text and stops. -/
  | help
  | flag
  /-- Takes one of some values. -/
  | choice (values : List String)
deriving DecidableEq, Repr

structure OptionSpec where
  names : List String
  role : OptionRole
deriving DecidableEq, Repr

def OptionSpec.label (o : OptionSpec) : String := "/".intercalate o.names

inductive Positional where
  /-- One argument. -/
  | single (name : String)
  /-- One of some commands, with all the arguments after it. -/
  | command (name : String) (choices : List String)
deriving DecidableEq, Repr

structure Grammar where
  /-- The name of the program, with the command where there is one. -/
  program : String
  usage : String
  help : String
  options : List OptionSpec
  positional : Option Positional
deriving DecidableEq, Repr

/-- Why the work stops before it begins. -/
inductive Stop where
  | help
  | misuse (text : String)
deriving DecidableEq, Repr

def choiceError (name value : String) (choices : List String) : Stop :=
  let listed := ", ".intercalate (choices.map fun (name : String) => Text.quoted name)
  .misuse s!"argument {name}: invalid choice: {Text.quoted value} (choose from {listed})"

/-! ## Marks -/

/-- An option as an argument names it, with the text that stands in the same argument, right behind
the name or after an equals sign. -/
structure Named where
  spec : OptionSpec
  name : String
  attached : Option (List Char)
deriving DecidableEq, Repr

inductive Mark where
  | plain
  /-- The two dashes after which nothing is an option. -/
  | separator
  | option (o : Named)
  /-- It looks like an option and is none. -/
  | unknown
deriving DecidableEq, Repr

structure Argument where
  text : String
  mark : Mark
deriving DecidableEq, Repr

namespace Grammar

def names (g : Grammar) : List (String × OptionSpec) :=
  g.options.flatMap fun o => o.names.map fun name => (name, o)

def find? (g : Grammar) (name : String) : Option OptionSpec := List.lookup name g.names

/-- The text before the first equals sign, and the text after it if there is one. -/
def splitEquals (cs : List Char) : List Char × Option (List Char) :=
  (cs.takeWhile (· != '='), (cs.dropWhile (· != '=')).tail?)

/-- The options that an argument may mean without naming one in full. -/
def candidates (g : Grammar) (cs : List Char) : List Named :=
  if cs.take 2 = ['-', '-'] then
    let (name, value) := splitEquals cs
    (g.names.filter fun (n, _) => name.isPrefixOf n.toList).map fun (n, o) =>
      ⟨o, n, value⟩
  else
    g.names.filterMap fun (n, o) =>
      if n.toList = cs.take 2 then some ⟨o, n, some (cs.drop 2)⟩
      else if cs.isPrefixOf n.toList then some ⟨o, n, none⟩
      else none

/-- Digits after a dash, with a point before the last ones or without. -/
def looksNegative (cs : List Char) : Bool :=
  match (Text.ofChars cs).dropLineEnd.chars with
  | '-' :: rest =>
    match rest.dropWhile Text.isDigit with
    | [] => !rest.isEmpty
    | '.' :: decimals => !decimals.isEmpty && decimals.all Text.isDigit
    | _ => false
  | _ => false

/-- The option that an argument names in full, or up to an equals sign. -/
def fullName? (g : Grammar) (arg : String) : Option Named :=
  match g.find? arg with
  | some o => some ⟨o, arg, none⟩
  | none =>
    match splitEquals arg.toList with
    | (name, some value) =>
      (g.find? (String.ofList name)).map fun o => ⟨o, String.ofList name, some value⟩
    | (_, none) => none

def markOne (g : Grammar) (arg : String) : Except Stop Mark :=
  match arg.toList with
  | '-' :: c :: rest =>
    match g.fullName? arg with
    | some o => .ok (.option o)
    | none =>
      match g.candidates ('-' :: c :: rest) with
      | [o] => .ok (.option o)
      | [] =>
        if looksNegative ('-' :: c :: rest) || (c :: rest).contains ' ' then .ok .plain
        else .ok .unknown
      | os =>
        let matched := ", ".intercalate (os.map Named.name)
        .error (.misuse s!"ambiguous option: {arg} could match {matched}")
  | _ => .ok .plain

def mark (g : Grammar) : List String → Except Stop (List Argument)
  | [] => .ok []
  | arg :: rest =>
    if arg = "--" then .ok (⟨arg, .separator⟩ :: rest.map fun a => ⟨a, .plain⟩)
    else do
      let m ← g.markOne arg
      let ms ← g.mark rest
      return ⟨arg, m⟩ :: ms

/-! ## Options -/

/-- An option in use, with its value if it takes one. -/
abbrev Use : Type := OptionSpec × Option String

/-- The options of one argument: those in use, and one whose value is the next argument if there
is such a one. -/
abbrev Uses : Type := List Use × Option OptionSpec

/-- An option without attached text. -/
def useBare (o : OptionSpec) : Uses :=
  match o.role with
  | .help | .flag => ([(o, none)], none)
  | .choice _ => ([], some o)

/-- An option with attached text as its value. Two dashes there are no value. -/
def useValue (o : OptionSpec) (text : List Char) : Use :=
  (o, if text = ['-', '-'] then none else some (String.ofList text))

def ignored (o : OptionSpec) (text : List Char) : Stop :=
  let shown := Text.quoted (String.ofList text)
  .misuse s!"argument {o.label}: ignored explicit argument {shown}"

/-- The options of an argument with attached text. The text behind a short option that takes no
value names more of them, a letter each. -/
def useAttached (g : Grammar) (o : OptionSpec) (short : Bool) : List Char → Except Stop Uses
  | [] =>
    match o.role with
    | .choice _ => .ok ([useValue o []], none)
    | .help | .flag => .error (ignored o [])
  | c :: cs =>
    match o.role with
    | .choice _ => .ok ([useValue o (c :: cs)], none)
    | .help | .flag =>
      match if short then g.find? (String.ofList ['-', c]) else none with
      | none => .error (ignored o (c :: cs))
      | some next => do
        let (uses, wanting) ← if cs.isEmpty then .ok (useBare next) else g.useAttached next true cs
        return ((o, none) :: uses, wanting)

def useNamed (g : Grammar) (o : Named) : Except Stop Uses :=
  match o.attached with
  | none => .ok (useBare o.spec)
  | some text => g.useAttached o.spec (o.name.toList.drop 1 |>.head? |>.any (· != '-')) text

end Grammar

/-! ## Reading -/

/-- What the arguments say. -/
structure Reading where
  /-- The options in use, in order. -/
  uses : List Grammar.Use
  /-- The positional argument, and for a command the arguments after it. -/
  positional : List String
  /-- What nothing has taken up. -/
  extras : List String
deriving DecidableEq, Repr

namespace Reading

def empty : Reading := ⟨[], [], []⟩

/-- Whether an option is in use. -/
def has (r : Reading) (name : String) : Bool := r.uses.any fun (o, _) => o.names.contains name

/-- The last value of an option. -/
def value? (r : Reading) (name : String) : Option String :=
  r.uses.foldl (fun v (o, w) => if o.names.contains name then w else v) none

/-- Takes options into use. Help stops the work, and a value has to be one of the choices. -/
def use (r : Reading) : List Grammar.Use → Except Stop Reading
  | [] => .ok r
  | (o, v) :: rest =>
    match o.role, v with
    | .help, _ => .error .help
    | .choice values, some value =>
      if values.contains value then { r with uses := r.uses ++ [(o, v)] }.use rest
      else .error (choiceError o.label value values)
    | _, _ => { r with uses := r.uses ++ [(o, v)] }.use rest

def leave (r : Reading) (text : String) : Reading := { r with extras := r.extras ++ [text] }

end Reading

namespace Grammar

/-- Reads a command and everything after it. -/
def takeCommand (r : Reading) (name : String) (choices : List String) (args : List String) :
    Except Stop Reading :=
  match args with
  | [] => .ok r
  | command :: _ =>
    if choices.contains command then .ok { r with positional := args }
    else .error (choiceError name command choices)

/-- Where the reading stands with the positional argument. -/
inductive Phase where
  | awaiting (p : Positional)
  /-- The two dashes have passed, and the single argument comes next. -/
  | due
  /-- The single argument has just been read; two dashes after it are passed over. -/
  | taken
  | closed
deriving DecidableEq, Repr

/-- The phase after an option. -/
def Phase.afterOption : Phase → Phase
  | .taken => .closed
  | p => p

/-- Reads the marked arguments. -/
def gather (g : Grammar) (phase : Phase) (r : Reading) : List Argument → Except Stop Reading
  | [] => .ok r
  | a :: rest =>
    match a.mark with
    | .unknown => g.gather phase.afterOption (r.leave a.text) rest
    | .option o => do
      let (uses, wanting) ← g.useNamed o
      match wanting with
      | none =>
        let r ← r.use uses
        g.gather phase.afterOption r rest
      | some spec =>
        match rest with
        | ⟨value, .plain⟩ :: rest =>
          let r ← r.use (uses ++ [(spec, some value)])
          g.gather phase.afterOption r rest
        | _ => .error (.misuse s!"argument {spec.label}: expected one argument")
    | .plain =>
      match phase with
      | .awaiting (.command name choices) =>
        takeCommand r name choices (a.text :: rest.map Argument.text)
      | .awaiting (.single _) => g.gather .taken { r with positional := [a.text] } rest
      | .due => g.gather .closed { r with positional := [a.text] } rest
      | .taken | .closed => g.gather .closed (r.leave a.text) rest
    | .separator =>
      match phase with
      | .taken => g.gather .closed r rest
      | .due | .closed => g.gather .closed (r.leave a.text) rest
      | .awaiting (.command name choices) =>
        if rest.isEmpty then .ok (r.leave a.text)
        else takeCommand r name choices (a.text :: rest.map Argument.text)
      | .awaiting (.single _) =>
        if rest.isEmpty then .ok (r.leave a.text)
        else g.gather .due r rest

/-- What the arguments say. A single positional argument has to be there; a command need not. -/
def read (g : Grammar) (args : List String) : Except Stop Reading := do
  let marked ← g.mark args
  let phase := match g.positional with
    | some p => .awaiting p
    | none => .closed
  let r ← g.gather phase .empty marked
  match g.positional with
  | some (.single name) =>
    if r.positional.isEmpty then
      .error (.misuse s!"the following arguments are required: {name}")
    else return r
  | _ => return r

end Grammar

end ModalFitch.CommandLine
