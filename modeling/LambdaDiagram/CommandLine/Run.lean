import LambdaDiagram.CommandLine.Files
import LambdaDiagram.CommandLine.Settings

/-!
What a command line does: it draws an expression or the text of a file and delivers the document to
a file or to standard output. Whatever fails is reported and leaves everything as it was.
-/

namespace LambdaDiagram

namespace CommandLine

/-- What a program leaves behind besides files: its exit code and what it has printed. -/
structure Report where
  code : Nat
  stdout : String
  stderr : String
deriving DecidableEq, Repr

/-- How the program is used. -/
def usage (program : String) : List String :=
  ["Usage: " ++ program ++ " <expression> [options]",
    "",
    "Options:",
    "  -f, --file <file>     Read the expression from a file instead",
    "  -o, --output <file>   Output file (default: stdout)",
    "  -t, --ticks <n>       Layout ticks to run before rendering (default: 300)",
    "      --ease <f>        Fraction of the way merges move per tick (default: 0.2)",
    "      --angle-step <f>  Input angle step in radians per tick (default: 0.01)",
    "      --no-disambiguate Keep merges exactly on their projection target"]

/-- The lines that report why a command line is not carried out. -/
def Refusal.lines (program : String) : Refusal → List String
  | usage => CommandLine.usage program
  | unknownOption text => ["Unknown option: " ++ text]
  | invalidTickCount text => ["Invalid tick count: " ++ text]
  | invalidEase text => ["Invalid ease: " ++ text]
  | invalidAngleStep text => ["Invalid angle step: " ++ text]

/-- A failure: its lines go to standard error. -/
def Report.failure (lines : List String) : Report :=
  ⟨1, "", String.join (lines.map (· ++ "\n"))⟩

/-- A success that prints a text. -/
def Report.success (stdout : String) : Report := ⟨0, stdout, ""⟩

/-- The document that some settings ask for, given the text to draw, or the report of why it cannot
be drawn. Blanks around the text do not count. -/
def Settings.document (s : Settings) (source : String) : Except String String :=
  match Drawing.ofText? (Text.trimBlanks source) with
  | .error e => .error e.message
  | .ok d => .ok (d.run s.engine s.ticks).graph.toSvg

variable {m : Type → Type} [Monad m] [Files m]

/-- The text that some settings ask to be drawn; a file counts for more than an expression. -/
def Settings.source (program : String) (s : Settings) : m (Except Report String) := do
  match s.inputPath, s.expression with
  | some path, _ =>
    match ← Files.read path with
    | .error e => return .error (.failure ["Failed to read " ++ path ++ ": " ++ e.message])
    | .ok text => return .ok text
  | none, some text => return .ok text
  | none, none => return .error (.failure (usage program))

/-- Deliver a document to where some settings ask for it. -/
def Settings.deliver (s : Settings) (document : String) : m Report := do
  match s.outputPath with
  | none => return .success document
  | some path =>
    match ← Files.write path document with
    | .error e => return .failure ["Failed to write " ++ path ++ ": " ++ e.message]
    | .ok () => return .success ""

/-- Carry out a command line. -/
def run (program : String) (args : List String) : m Report := do
  match Settings.ofArguments args with
  | .error refusal => return .failure (refusal.lines program)
  | .ok s =>
    match ← s.source program with
    | .error report => return report
    | .ok source =>
      match s.document source with
      | .error message => return .failure [message]
      | .ok document => s.deliver document

end CommandLine

end LambdaDiagram
