import ClassScript.Script.Program

/-!
# Command line arguments

The command takes one file and a handful of options. An option with a value
takes it after an equals sign or as the next argument; a double dash ends the
options. Every option may be given once.
-/

namespace ClassScript.Command

/-- What to print. -/
inductive Emit where
  | script
  | tree
  | tokens
deriving DecidableEq

/-- The output that a word on the command line asks for. -/
def Emit.ofWord? : String → Option Emit
  | "js" => some .script
  | "ast" => some .tree
  | "tokens" => some .tokens
  | _ => none

/-- What the command is asked to do. -/
structure Arguments where
  file : String
  emit : Emit
  check : Bool
  indent : Nat
  runMain : Bool
  output : Option String
deriving DecidableEq

/-- What the arguments come down to. -/
inductive Request where
  | run (arguments : Arguments)
  | help
deriving DecidableEq

/-- The arguments read so far. -/
structure Given where
  file : Option String
  emit : Option Emit
  check : Bool
  indent : Option Nat
  runMain : Bool
  output : Option String
deriving DecidableEq

/-- No arguments. -/
def Given.none : Given := ⟨.none, .none, false, .none, false, .none⟩

/-- The first of the numbers that a count on the command line cannot reach. -/
def countBound : Nat := UInt64.size

/-- The number that a word on the command line stands for: digits, with an
optional plus sign. -/
def count? (word : String) : Option Nat :=
  let digits :=
    match word.toList with
    | '+' :: cs => cs
    | cs => cs
  if digits.isEmpty || !digits.all Char.isDigit then none
  else
    let n := digits.foldl (fun n c => 10 * n + (c.toNat - '0'.toNat)) 0
    if n < countBound then some n else none

/-- A path on the command line, which must not be empty. -/
def path? (word : String) : Option String :=
  if word.isEmpty then none else some word

/-- A value for something that has none yet. -/
def once {α : Type} (old : Option α) (new : Option α) : Option α :=
  if old.isSome then none else new

namespace Given

/-- Adds an argument that is no option. -/
def addFile (g : Given) (word : String) : Option Given := do
  return { g with file := some (← once g.file (path? word)) }

/-- Adds an option that takes no value. -/
def addFlag (g : Given) : String → Option Given
  | "check" => if g.check then .none else some { g with check := true }
  | "run-main" => if g.runMain then .none else some { g with runMain := true }
  | _ => .none

/-- Does the option take a value? -/
def takesValue (name : String) : Bool :=
  name == "emit" || name == "indent" || name == "output"

/-- Adds an option with its value. -/
def addValue (g : Given) (name value : String) : Option Given :=
  match name with
  | "emit" => do return { g with emit := some (← once g.emit (Emit.ofWord? value)) }
  | "indent" => do return { g with indent := some (← once g.indent (count? value)) }
  | "output" => do return { g with output := some (← once g.output (path? value)) }
  | _ => .none

end Given

/-- An argument by its form. -/
inductive Form where
  /-- The double dash. -/
  | separator
  /-- A call for help. -/
  | help
  /-- A named option, with the value after its equals sign if it has one. -/
  | option (name : String) (value : Option String)
  | plain (word : String)
  | unknown
deriving DecidableEq

/-- The form of an argument with one dash: only the output path has such an
option, and its value may follow directly. -/
def shortForm : List Char → Form
  | 'h' :: _ => .help
  | ['o'] => .option "output" none
  | 'o' :: '=' :: value => .option "output" (some (String.ofList value))
  | 'o' :: value => .option "output" (some (String.ofList value))
  | _ => .unknown

/-- The form of an argument with two dashes. -/
def longForm (cs : List Char) : Form :=
  let name := String.ofList (cs.takeWhile (· != '='))
  let value :=
    match cs.dropWhile (· != '=') with
    | _ :: value => some (String.ofList value)
    | [] => none
  if name = "help" ∧ value.isNone then .help else .option name value

/-- The form of an argument. -/
def formOf (word : String) : Form :=
  match word.toList with
  | ['-', '-'] => .separator
  | '-' :: '-' :: cs => longForm cs
  | '-' :: c :: cs => shortForm (c :: cs)
  | _ => .plain word

/-- Reads the arguments after those in `g`. `onlyFiles` holds after a double
dash. There is no result if the arguments are not well formed. -/
def readArguments (g : Given) (onlyFiles : Bool) : List String → Option (Given × Bool)
  | [] => some (g, false)
  | word :: rest =>
    if onlyFiles then do readArguments (← g.addFile word) true rest
    else
      match formOf word with
      | .separator => readArguments g true rest
      | .help => some (g, true)
      | .plain word => do readArguments (← g.addFile word) false rest
      | .option name (some value) => do readArguments (← g.addValue name value) false rest
      | .option name none =>
        if Given.takesValue name then
          match rest with
          | value :: rest =>
            match formOf value with
            | .plain value => do readArguments (← g.addValue name value) false rest
            | _ => none
          | [] => none
        else do readArguments (← g.addFlag name) false rest
      | .unknown => none

/-- What the arguments ask for, if they are well formed. -/
def request? (words : List String) : Option Request := do
  let (g, help) ← readArguments .none false words
  if help then return .help
  return .run {
    file := ← g.file
    emit := g.emit.getD .script
    check := g.check
    indent := g.indent.getD Script.Options.default.indentWidth
    runMain := g.runMain
    output := g.output }

end ClassScript.Command
