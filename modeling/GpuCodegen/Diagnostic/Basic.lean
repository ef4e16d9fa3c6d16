import GpuCodegen.Diagnostic.Cause

/-!
Diagnostics: a cause, where in a kernel variant it arose, and hints. Places are filled in from the
inside out: `Diagnostic.within` only sets what is still unset, so the innermost place wins.
-/

namespace GpuCodegen

/-- How severe a diagnostic is. -/
inductive Level where
  | warning
  | error
  | fatal
  /-- A number outside the list. -/
  | unknown
  deriving DecidableEq, Repr

namespace Level

/-- The level with a given number. -/
def ofCode : Int → Level
  | 0 => .warning
  | 1 => .error
  | 2 => .fatal
  | _ => .unknown

/-- The name of a level. -/
def name : Level → String
  | .warning => "warning"
  | .error => "error"
  | .fatal => "fatal error"
  | .unknown => "unknown"

end Level

/-- A place in a kernel variant. Empty texts are unset. -/
structure Location where
  kernel : String := ""
  /-- The short form of the variant's identity. -/
  variant : String := ""
  generation : String := ""
  /-- The position in the instruction stream. -/
  instruction : Option Nat := none
  /-- The number of a virtual register. -/
  register : Option Nat := none
  deriving DecidableEq, Repr, Inhabited

namespace Location

/-- The text of a place; an unset one is the back end itself. -/
def text (l : Location) : String :=
  let parts :=
    (if l.kernel = "" then [] else ["kernel " ++ l.kernel]) ++
    (if l.generation = "" then [] else [l.generation]) ++
    (if l.variant = "" then [] else ["variant " ++ l.variant]) ++
    (l.instruction.map fun n => s!"instruction {n}").toList ++
    (l.register.map fun n => s!"register %{n}").toList
  if parts.isEmpty then "<backend>" else ", ".intercalate parts

/-- The first text that is set. -/
def orText (a b : String) : String := if a = "" then b else a

/-- Fills the unset parts of a place from another one. -/
def fill (inner outer : Location) : Location where
  kernel := orText inner.kernel outer.kernel
  variant := orText inner.variant outer.variant
  generation := orText inner.generation outer.generation
  instruction := inner.instruction.orElse fun _ => outer.instruction
  register := inner.register.orElse fun _ => outer.register

end Location

/-- A diagnostic of the back end. -/
structure Diagnostic where
  level : Level := .fatal
  cause : Cause
  location : Location := {}
  /-- What to do instead; empty when there is no suggestion. -/
  suggestion : String := ""
  /-- Background; empty when there is none. -/
  help : String := ""
  deriving DecidableEq, Repr

namespace Diagnostic

/-- A diagnostic for something a generation lacks. -/
def unsupported (lack : Lack) (generation : String) : Diagnostic where
  cause := .unsupported lack generation
  location := { generation := generation }

/-- A placement failure of a virtual register. -/
def placement (fault : PlacementFault) (reg : VReg) : Diagnostic where
  cause := .placement fault
  location := { register := some reg.number.toNat }

/-- A broken encoding rule. -/
def encoding (fault : EncodingFault) : Diagnostic where
  cause := .encoding fault

/-- A missing code path. -/
def unimplemented (gap : Gap) : Diagnostic where
  cause := .unimplemented gap

/-- A configuration error. -/
def config (fault : ConfigFault) : Diagnostic where
  cause := .config fault

/-- The diagnostic with a suggestion. -/
def withSuggestion (d : Diagnostic) (text : String) : Diagnostic := { d with suggestion := text }

/-- The diagnostic with a note. -/
def withHelp (d : Diagnostic) (text : String) : Diagnostic := { d with help := text }

/-- The category of a diagnostic. -/
def category (d : Diagnostic) : Category := d.cause.category

/-- The message of a diagnostic. -/
def message (d : Diagnostic) : String := d.cause.message

/-- The diagnostic with the unset parts of its place filled in. -/
def within (d : Diagnostic) (outer : Location) : Diagnostic :=
  { d with location := d.location.fill outer }

/-- The diagnostic at an instruction, unless it already names one. -/
def atPosition (d : Diagnostic) (position : Nat) : Diagnostic :=
  d.within { instruction := some position }

/-- One line: place, category and message. -/
def text (d : Diagnostic) : String :=
  s!"{d.location.text}: {d.category.name}: {d.message}"

/-- An optionally coloured piece of a report. -/
def paint (color : Bool) (code : String) (s : String) : String :=
  if color then "\x1b[1;" ++ code ++ "m" ++ s ++ "\x1b[0m" else s

/-- A hint line, or nothing for an empty hint. -/
def hintLine (color : Bool) (code label hint : String) : String :=
  if hint = "" then "" else paint color code label ++ hint ++ "\n"

/-- Several lines: message, place and hints. -/
def report (d : Diagnostic) (color : Bool) : String :=
  paint color "31" (d.level.name ++ ": ") ++ d.message ++ "\n" ++
    paint color "34" ("  --> " ++ d.location.text) ++ "\n" ++
    hintLine color "32" "   help: " d.suggestion ++ hintLine color "36" "   note: " d.help

end Diagnostic

/-- An error as callers see it: a diagnostic, a plain text, or either with a label in front. -/
inductive Failure where
  | plain (text : String)
  | diagnosed (d : Diagnostic)
  | labelled (label : String) (inner : Failure)
  deriving Repr

namespace Failure

/-- The text of an error. -/
def text : Failure → String
  | .plain s => s
  | .diagnosed d => d.text
  | .labelled label inner => label ++ ": " ++ inner.text

/-- The diagnostic inside an error. -/
def diagnostic? : Failure → Option Diagnostic
  | .plain _ => none
  | .diagnosed d => some d
  | .labelled _ inner => inner.diagnostic?

/-- The diagnostic of an error at a place. An error without one becomes an encoding error with the
error's whole text. -/
def within (f : Failure) (outer : Location) : Diagnostic :=
  (f.diagnostic?.getD (Diagnostic.encoding (.described f.text))).within outer

end Failure

end GpuCodegen
