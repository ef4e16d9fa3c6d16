import GpuCodegen.Diagnostic.Basic
import GpuCodegen.Text.Value

/-!
Diagnostics and virtual registers as values that a trace can show in full.
-/

namespace GpuCodegen

open Text (Value)

/-- The number of a level. -/
def Level.code : Level → Int
  | .warning => 0
  | .error => 1
  | .fatal => 2
  | .unknown => 3

/-- The number of a category. -/
def Category.code : Category → Int
  | .unsupported => 0
  | .allocation => 1
  | .encoding => 2
  | .unimplemented => 3
  | .config => 4
  | .unknown => 5

/-- A virtual register: its name, or its number. -/
def VReg.value (r : VReg) : Value := .titled r.text (.unsigned "ir.Register" r.number.toNat)

/-- The number of something that may be unset. -/
def Location.mark (n : Option Nat) : Int := (n.map fun n => (n : Int)).getD (-1)

/-- A place: its text, or its parts. -/
def Location.value (l : Location) : Value :=
  .titled l.text
    (.record "diag.Location"
      [("Kernel", .text l.kernel), ("Variant", .text l.variant),
        ("Generation", .text l.generation), ("Instruction", .int (mark l.instruction)),
        ("Register", .signed "int64" (mark l.register))])

/-- A diagnostic: its line, or its parts. -/
def Diagnostic.value (d : Diagnostic) : Value :=
  .titled d.text
    (.record "diag.CompilerError"
      [("Level", .signed "diag.ErrorLevel" d.level.code),
        ("Category", .signed "diag.ErrorCategory" d.category.code), ("Message", .text d.message),
        ("Location", d.location.value),
        ("Context", .record "diag.ErrorContext"
          [("Suggestion", .text d.suggestion), ("HelpText", .text d.help)])])

end GpuCodegen
