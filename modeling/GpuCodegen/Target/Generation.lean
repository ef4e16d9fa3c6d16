/-!
Hardware generations. A compiled kernel targets exactly one of them. Numbers that name no
generation are kept, because questions about them still have answers: they count as newer or older
than the known generations by their number.
-/

namespace GpuCodegen

/-- A hardware generation. -/
inductive Generation where
  /-- Sandy Bridge. -/
  | gen6
  /-- Ivy Bridge and Bay Trail. -/
  | gen7
  /-- Haswell. -/
  | gen75
  /-- Broadwell. -/
  | gen8
  /-- Cherryview, low power. -/
  | chv
  /-- Skylake. -/
  | gen9
  /-- Broxton, low power. -/
  | bxt
  /-- Kaby Lake. -/
  | kbl
  /-- Gemini Lake, low power. -/
  | glk
  /-- A number outside the known generations. -/
  | unlisted (number : Int)
  deriving DecidableEq, Repr

namespace Generation

/-- Every known generation, oldest first. -/
def all : List Generation := [.gen6, .gen7, .gen75, .gen8, .chv, .gen9, .bxt, .kbl, .glk]

/-- The position of a generation in time. -/
def number : Generation → Int
  | .gen6 => 1
  | .gen7 => 2
  | .gen75 => 3
  | .gen8 => 4
  | .chv => 5
  | .gen9 => 6
  | .bxt => 7
  | .kbl => 8
  | .glk => 9
  | .unlisted n => n

/-- The generation with a given number. -/
def ofNumber (n : Int) : Generation :=
  (all.find? fun g => g.number == n).getD (.unlisted n)

/-- The name of a generation. -/
def name : Generation → String
  | .gen6 => "gen6"
  | .gen7 => "gen7"
  | .gen75 => "gen75"
  | .gen8 => "gen8"
  | .chv => "chv"
  | .gen9 => "gen9"
  | .bxt => "bxt"
  | .kbl => "kbl"
  | .glk => "glk"
  | .unlisted _ => "unknown"

/-- Whether the generation is a known one. -/
def isKnown : Generation → Bool
  | .unlisted _ => false
  | _ => true

/-- Whether the generation uses the newer instruction layout, with 64-bit immediates. -/
def isGen8Family (g : Generation) : Bool := 4 ≤ g.number

/-- Whether the generation is Skylake or one of its descendants. -/
def isGen9Family (g : Generation) : Bool := 6 ≤ g.number

/-- Whether the generation is a low power part. -/
def isLowPower (g : Generation) : Bool := g == .chv || g == .bxt || g == .glk

end Generation

end GpuCodegen
