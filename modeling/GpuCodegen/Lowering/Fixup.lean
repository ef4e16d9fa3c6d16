import GpuCodegen.Lowering.Context

/-!
Fixups of emitted words. A fixup replaces every word by one or more words; its remap gives the new
index of every old one, and of the end of the program.
-/

namespace GpuCodegen

open Native

/-- A pass over the emitted words. -/
inductive Fixup where
  /-- Breaks SIMD16 three-source words into two SIMD8 halves where the unit runs eight lanes only. -/
  | splitTriples
  /-- Follows every memory write by a render cache fence. -/
  | fenceWrites
  deriving DecidableEq, Repr

/-- Words after a fixup. -/
structure Fixed where
  words : List Word
  remap : List Nat
  log : List CompileEvent
  deriving Repr

namespace Fixup

/-- The fixups of a flavor, in order. -/
def ofFlavor : Flavor → List Fixup
  | .gen6 => [.splitTriples, .fenceWrites]
  | _ => [.splitTriples]

/-- The remap of a program of `n` words that stays as it is. -/
def identity (n : Nat) : List Nat := List.range (n + 1)

/-- The new index of every word when the word lists in `pieces` replace the words, and of the end. -/
def remapFrom (first : Nat) : List (List Word) → List Nat
  | [] => [first]
  | piece :: rest => first :: remapFrom (first + piece.length) rest

/-- Replaces every word; `event` tells about the number of words that became two. -/
def replaceWords (words : List Word) (f : Word → List Word) (event : Nat → CompileEvent) : Fixed :=
  let pieces := words.map f
  let grown := (pieces.filter fun p => p.length != 1).length
  { words := pieces.flatten
    remap := remapFrom 0 pieces
    log := if 0 < grown then [event grown] else [] }

/-- The halves of a word that has to be split, else the word itself. -/
def splitWord (g : Generation) (w : Word) : List Word :=
  if g.supports .tripleSimd16 then
    [w]
  else
    match g.layout.split? w with
    | some (lower, upper) => [lower, upper]
    | none => [w]

/-- The fence that follows memory writes. It uses the thread header as payload and waits for
nothing. -/
def fence (g : Generation) : Except Diagnostic Word :=
  g.fenceWord { execWidth := 8, noMask := true } .null (.ud8 0 0) false

/-- A memory write with its fence, else the word itself. -/
def fenceWord (g : Generation) (fence w : Word) : List Word :=
  if g.writesMemory w then [w, fence] else [w]

/-- Runs a fixup. -/
def apply (g : Generation) (words : List Word) : Fixup → Fixed
  | .splitTriples => replaceWords words (splitWord g) .splitTriples
  | .fenceWrites =>
    match fence g with
    | .ok f => replaceWords words (fenceWord g f) .fenced
    | .error d => { words := words, remap := identity words.length, log := [.fenceSkipped d] }

/-- Maps indices through one remap and then another. -/
def compose (a b : List Nat) : List Nat := a.map fun i => b.getD i 0

/-- Runs one more fixup. -/
def andThen (g : Generation) (f : Fixed) (x : Fixup) : Fixed :=
  let next := x.apply g f.words
  { words := next.words, remap := compose f.remap next.remap, log := f.log ++ next.log }

/-- Runs fixups in order. -/
def applyAll (g : Generation) (fixups : List Fixup) (words : List Word) : Fixed :=
  fixups.foldl (andThen g) { words := words, remap := identity words.length, log := [] }

end Fixup

end GpuCodegen
