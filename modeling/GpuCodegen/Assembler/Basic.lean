import GpuCodegen.Assembler.Message
import GpuCodegen.Diagnostic.Detail
import GpuCodegen.Diagnostic.Trace
import GpuCodegen.Native.Detail

/-!
The assembler collects instruction words. A command either appends all of its words or none; the
first failure is kept until it is cleared, and later commands are still tried. States can be saved
and restored. Sequences of instructions are lists of commands, each with the state it is issued
under.
-/

namespace GpuCodegen

open Native

/-- A command with the state it is issued under. -/
structure Issue where
  state : State
  command : Command
  deriving DecidableEq, Repr

/-- Something the assembler did. -/
inductive AssemblyEvent where
  | committed (index : Nat) (word : Word)
  | failed (d : Diagnostic)
  deriving DecidableEq, Repr

/-- The trace line of an event; words are shown decoded where that is possible. -/
def AssemblyEvent.line (l : Layout) : AssemblyEvent → TraceLine
  | .committed index w =>
    match l.decode w with
    | .ok d => { text := "%4d: %s  %s", values := [.int index, w.value, d.value] }
    | .error _ => { text := "%4d: %s", values := [.int index, w.value] }
  | .failed d => { text := "error: %v", values := [d.value] }

/-- An assembler for one generation. -/
structure Assembler where
  generation : Generation
  state : State
  /-- Saved states, latest first. -/
  saved : List State := []
  words : List Word := []
  /-- The first failure. -/
  error : Option Diagnostic := none
  log : List AssemblyEvent := []
  deriving DecidableEq, Repr

namespace Assembler

/-- An empty assembler with a default execution width. -/
def new (g : Generation) (simdWidth : Int) : Except Diagnostic Assembler :=
  if g.hasEncoder then .ok { generation := g, state := { execWidth := simdWidth } }
  else .error (.unimplemented (.encoder g))

/-- The layout words are encoded with. -/
def layout (a : Assembler) : Layout := a.generation.layout

/-- Records a failure; an earlier one stays. -/
def fail (a : Assembler) (d : Diagnostic) : Assembler :=
  { a with error := a.error.or (some d), log := a.log ++ [.failed d] }

/-- Appends a word. -/
def commit (a : Assembler) (w : Word) : Assembler :=
  { a with words := a.words ++ [w], log := a.log ++ [.committed a.words.length w] }

/-- Appends words in order. -/
def commitAll (a : Assembler) (ws : List Word) : Assembler := ws.foldl commit a

/-- Which of a command's words stands for the command: the message for the end of a thread, else the
first. -/
def mainWord : Command → Nat
  | .endThread => 1
  | _ => 0

/-- Issues a command under the current state. The result is the index of its main word, or none when
it failed. -/
def issue (a : Assembler) (c : Command) : Assembler × Option Nat :=
  match a.generation.assemble a.state c with
  | .error d => (a.fail d, none)
  | .ok ws => (a.commitAll ws, some (a.words.length + mainWord c))

/-- Issues a command under a state of its own. -/
def run (a : Assembler) (i : Issue) : Assembler :=
  { ({ a with state := i.state }.issue i.command).1 with state := a.state }

/-- Issues a sequence. -/
def runAll (a : Assembler) (is : List Issue) : Assembler := is.foldl run a

/-- Saves the current state. -/
def push (a : Assembler) : Assembler := { a with saved := a.state :: a.saved }

/-- Restores the state saved last. -/
def pop (a : Assembler) : Assembler :=
  match a.saved with
  | [] => a.fail (.encoding .popWithoutPush)
  | s :: rest => { a with state := s, saved := rest }

/-- The number of saved states. -/
def depth (a : Assembler) : Nat := a.saved.length

/-- Forgets a failure. -/
def clearError (a : Assembler) : Assembler := { a with error := none }

/-- Points the jump at word `index` to word `target`. -/
def patchJump (a : Assembler) (index target : Int) : Except Diagnostic Assembler :=
  if index < 0 then
    .error (.encoding (.jumpIndex index))
  else
    match a.words[index.toNat]? with
    | none => .error (.encoding (.jumpIndex index))
    | some w =>
      let op := Native.Opcode.ofCode (a.layout.header.opcode.get w).toUInt8
      if op ≠ .jmpi then
        .error (.encoding (.notJump index op))
      else
        let distance := UInt32.ofInt (target - (index + 1)) * 16
        .ok { a with words := a.words.set index.toNat (a.layout.imm32.set distance w) }

/-- The word that the jump at `index` goes to. -/
def jumpTarget (a : Assembler) (index : Nat) : Int :=
  let distance := (a.layout.imm32.get ((a.words[index]?).getD .zero)).toInt32
  index + 1 + distance.toInt.tdiv 16

/-- One line about the assembler. -/
def text (a : Assembler) : String := s!"{a.generation.name} encoder ({a.words.length} words)"

/-- The scope of the assembler's trace lines. -/
def scope (g : Generation) : String := "encode " ++ g.name

/-- The trace of the assembler. -/
def trace (a : Assembler) : List TraceLine :=
  a.log.map fun e => (e.line a.layout).under (scope a.generation)

end Assembler

end GpuCodegen
