import ClassScript.Check.Basic
import ClassScript.Command.Arguments
import ClassScript.Command.Files
import ClassScript.Tree.Json

/-!
# Running the command

The command reads a file, compiles it, and prints or writes the result. What it
prints and its exit code make up a `Report`: zero if all went well, one if the
file could not be read, compiled or written or if a check found an error, and
two if the arguments are not well formed.
-/

namespace ClassScript.Command

/-- What a run of the command shows. -/
structure Report where
  stdout : String
  stderr : String
  exitCode : Nat
deriving DecidableEq

/-- The result of compiling a text: what to print, what to print beside it, and
whether a check found an error. -/
structure Result where
  text : String
  remarks : String
  failed : Bool
deriving DecidableEq

/-- How to call the command. -/
def usage : String :=
  "Usage: sharpjs [OPTIONS] <FILE>\n\n"
    ++ "Options:\n"
    ++ "      --emit <EMIT>    What to print [default: js] [possible values: js, ast, tokens]\n"
    ++ "      --check          Run the checks and report their findings on stderr\n"
    ++ "      --indent <N>     Spaces per indentation level in generated code [default: 4]\n"
    ++ "      --run-main       Append a call of the static Main method\n"
    ++ "  -o, --output <PATH>  Write output to this path instead of stdout\n"
    ++ "  -h, --help           Print help\n"

/-- The text that is asked for, of a unit. -/
def unitText (a : Arguments) (unit : CompilationUnit) : String :=
  match a.emit with
  | .tree => unit.toJson.pretty 0 ++ "\n"
  | _ =>
    Script.program
      { Script.Options.default with indentWidth := a.indent, invokeMain := a.runMain } unit

/-- Compiles the text of the file. Tokens are listed without looking further. -/
def compileText (a : Arguments) (source : String) : Except CompileError Result :=
  match a.emit with
  | .tokens => do
    let tokens ← tokenize source
    return ⟨String.join (tokens.map fun t => t.listing ++ "\n"), "", false⟩
  | _ => do
    let unit ← compile source
    let diagnostics := if a.check then check unit source else []
    return ⟨unitText a unit,
      String.join (diagnostics.map (·.render source (fileName a.file))),
      diagnostics.any Check.Diagnostic.isError⟩

variable {m : Type → Type} [Monad m]

/-- Prints a result, or writes it to the output path. -/
def deliver (files : FileAccess m) (output : Option String) (r : Result) : m Report := do
  let code := if r.failed then 1 else 0
  match output with
  | none => return ⟨r.text, r.remarks, code⟩
  | some path =>
    match ← files.write path r.text with
    | .ok () => return ⟨"", r.remarks, code⟩
    | .error e =>
      return ⟨"", r.remarks ++ "Error: cannot write " ++ path ++ ": " ++ e.message ++ "\n", 1⟩

/-- Runs the command on well-formed arguments. -/
def runArguments (files : FileAccess m) (a : Arguments) : m Report := do
  match ← files.read a.file with
  | .error e => return ⟨"", "Error: cannot read " ++ a.file ++ ": " ++ e.message ++ "\n", 1⟩
  | .ok source =>
    match compileText a source with
    | .error e => return ⟨"", e.render source (fileName a.file), 1⟩
    | .ok r => deliver files a.output r

/-- Runs the command. -/
def run (files : FileAccess m) (words : List String) : m Report :=
  match request? words with
  | none => return ⟨"", usage, 2⟩
  | some .help => return ⟨usage, "", 0⟩
  | some (.run a) => runArguments files a

end ClassScript.Command
