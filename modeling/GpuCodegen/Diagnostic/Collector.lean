import GpuCodegen.Diagnostic.Basic

/-!
A collector gathers the diagnostics of one run: warnings without limit, errors up to a limit.
-/

namespace GpuCodegen

/-- The diagnostics gathered so far, in order. -/
structure Collector where
  limit : Nat
  errors : List Diagnostic := []
  warnings : List Diagnostic := []
  deriving Repr

namespace Collector

/-- An empty collector; a limit that is not positive means ten. -/
def ofLimit (limit : Int) : Collector where
  limit := if limit ≤ 0 then 10 else limit.toNat

/-- Records a diagnostic by its level; errors beyond the limit are dropped. -/
def add (c : Collector) (d : Diagnostic) : Collector :=
  if d.level = .warning then { c with warnings := c.warnings ++ [d] }
  else if c.errors.length < c.limit then { c with errors := c.errors ++ [d] }
  else c

/-- Records a warning about the configuration. -/
def warn (c : Collector) (location : Location) (fault : ConfigFault) : Collector :=
  c.add { level := .warning, cause := .config fault, location := location }

/-- Whether an error was recorded. -/
def hasErrors (c : Collector) : Bool := !c.errors.isEmpty

/-- The first error. -/
def first? (c : Collector) : Option Diagnostic := c.errors.head?

/-- A count with its noun. -/
def counted (n : Nat) (noun : String) : String :=
  s!"{n} {noun}" ++ if n = 1 then "" else "s"

/-- The last line of a report with errors. -/
def summary (errors warnings : Nat) : String :=
  "compilation failed: " ++ counted errors "error" ++
    if 0 < warnings then ", " ++ counted warnings "warning" else ""

/-- Every diagnostic, warnings first, and a summary when there are errors. -/
def report (c : Collector) (color : Bool) : String :=
  String.join (c.warnings.map fun d => d.report color) ++
    String.join (c.errors.map fun d => d.report color) ++
    if c.hasErrors then summary c.errors.length c.warnings.length ++ "\n" else ""

/-- The collector without its diagnostics. -/
def clear (c : Collector) : Collector := { c with errors := [], warnings := [] }

end Collector

end GpuCodegen
