import GpuCodegen.Target.Generation
import GpuCodegen.Text.Blank
import GpuCodegen.Text.EditDistance
import GpuCodegen.Text.Lowercase

/-!
Names of generations: numbers, code names and their abbreviations, read without regard to case and
blanks at the ends. An unknown name is answered with the closest known one.
-/

namespace GpuCodegen.Generation

/-- Every accepted spelling. -/
def aliases : List (String × Generation) :=
  [("gen6", .gen6), ("6", .gen6), ("snb", .gen6), ("sandybridge", .gen6),
    ("gen7", .gen7), ("7", .gen7), ("ivb", .gen7), ("ivybridge", .gen7), ("byt", .gen7),
    ("baytrail", .gen7),
    ("gen75", .gen75), ("gen7.5", .gen75), ("7.5", .gen75), ("hsw", .gen75), ("haswell", .gen75),
    ("gen8", .gen8), ("8", .gen8), ("bdw", .gen8), ("broadwell", .gen8),
    ("chv", .chv), ("cherryview", .chv), ("bsw", .chv), ("braswell", .chv),
    ("gen9", .gen9), ("9", .gen9), ("skl", .gen9), ("skylake", .gen9),
    ("bxt", .bxt), ("broxton", .bxt), ("apl", .bxt), ("apollolake", .bxt),
    ("kbl", .kbl), ("kabylake", .kbl),
    ("glk", .glk), ("geminilake", .glk)]

/-- A name that no generation has. -/
structure NameError where
  name : String
  /-- The closest known spelling. -/
  closest : Option String
  deriving DecidableEq, Repr

/-- What a name error says. -/
def NameError.message (e : NameError) : String :=
  s!"unsupported generation: {e.name} " ++
    "(supported: gen6, gen7, gen75, gen8, chv, gen9, bxt, kbl, glk)" ++
    match e.closest with
    | some s => ", did you mean '" ++ s ++ "'?"
    | none => ""

/-- Reads the name of a generation. -/
def ofName (name : String) : Except NameError Generation :=
  let key := Text.lower (Text.trim name)
  match aliases.find? fun entry => entry.1 == key with
  | some entry => .ok entry.2
  | none =>
    .error ⟨name, (Text.similarNames key (aliases.map fun e => (e.1, e.2.number)) 3).head?⟩

end GpuCodegen.Generation
