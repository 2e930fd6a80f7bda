import LambdaDiagram.Canvas
import LambdaDiagram.Number.Numeral

/-!
What the arguments of the command line ask for. Arguments are read from left to right and the first
one that makes no sense is reported. An option that takes a value takes the next argument, whatever
it looks like; at the end of the line, without a value, it says nothing.
-/

namespace LambdaDiagram

namespace CommandLine

/-- An option that takes a value. -/
inductive Parameter where
  | file
  | output
  | ticks
  | ease
  | angleStep
deriving DecidableEq, Repr

/-- What an argument that is no value is. -/
inductive Argument where
  | parameter (parameter : Parameter)
  | noDisambiguate
  | help
  /-- Anything that does not start with a hyphen. -/
  | expression (text : String)
  | unknown (text : String)
deriving DecidableEq, Repr

/-- What an argument that is no value is. -/
def Argument.ofString (s : String) : Argument :=
  if s = "-f" ∨ s = "--file" then parameter .file
  else if s = "-o" ∨ s = "--output" then parameter .output
  else if s = "-t" ∨ s = "--ticks" then parameter .ticks
  else if s = "--ease" then parameter .ease
  else if s = "--angle-step" then parameter .angleStep
  else if s = "--no-disambiguate" then noDisambiguate
  else if s = "-h" ∨ s = "--help" then help
  else if s.toList.head? = some '-' then unknown s
  else expression s

/-- Why a command line is not carried out. -/
inductive Refusal where
  /-- Help is asked for, or there is nothing to draw. -/
  | usage
  | unknownOption (text : String)
  | invalidTickCount (text : String)
  | invalidEase (text : String)
  | invalidAngleStep (text : String)
deriving DecidableEq, Repr

/-- What a command line asks for. -/
structure Settings where
  expression : Option String
  inputPath : Option String
  outputPath : Option String
  ticks : Nat
  engine : Engine Float
deriving Inhabited

namespace Settings

/-- What an empty command line asks for. -/
def standard : Settings := ⟨none, none, none, defaultTicks, .standard⟩

/-- Set a parameter to the value that a text writes. -/
def set (s : Settings) (value : String) : Parameter → Except Refusal Settings
  | .file => .ok { s with inputPath := some value }
  | .output => .ok { s with outputPath := some value }
  | .ticks =>
    match Numeral.count? value with
    | none => .error (.invalidTickCount value)
    | some ticks => .ok { s with ticks := ticks }
  | .ease =>
    match Numeral.number? value with
    | none => .error (.invalidEase value)
    | some ease => .ok { s with engine := s.engine.withEase ease }
  | .angleStep =>
    match Numeral.number? value with
    | none => .error (.invalidAngleStep value)
    | some step => .ok { s with engine := s.engine.withAngleStep step }

/-- What some more arguments ask for. A second expression is taken for an unknown option. -/
def extend (s : Settings) : List String → Except Refusal Settings
  | [] => .ok s
  | a :: as =>
    match Argument.ofString a with
    | .parameter p =>
      match as with
      | [] => .ok s
      | value :: as => do (← s.set value p).extend as
    | .noDisambiguate => { s with engine := s.engine.withDisambiguation false }.extend as
    | .help => .error .usage
    | .expression text =>
      match s.expression with
      | none => { s with expression := some text }.extend as
      | some _ => .error (.unknownOption text)
    | .unknown text => .error (.unknownOption text)

end Settings

/-- What the arguments of a command line ask for. -/
def Settings.ofArguments (args : List String) : Except Refusal Settings :=
  if args.isEmpty then .error .usage else Settings.standard.extend args

end CommandLine

end LambdaDiagram
