import GpuCodegen.Target.Device
import GpuCodegen.Target.Name

/-!
Settings of a compilation and how environment variables change them. The variables are read in a
fixed order, so the first bad one is reported.
-/

namespace GpuCodegen

/-- What the allocator does when the register file is full. -/
inductive SpillPolicy where
  /-- Sends the interval with the longest remaining range to scratch memory. -/
  | longest
  /-- Reports that there is no room. -/
  | never
  /-- A number outside the list; spills like `longest`. -/
  | unknown
  deriving DecidableEq, Repr

namespace SpillPolicy

/-- The policy with a given number. -/
def ofCode : Int → SpillPolicy
  | 0 => .longest
  | 1 => .never
  | _ => .unknown

/-- The name of a policy. -/
def name : SpillPolicy → String
  | .longest => "longest"
  | .never => "never"
  | .unknown => "unknown"

/-- Reads a policy, without regard to case. -/
def ofName? (name : String) : Option SpillPolicy :=
  let key := Text.lower name
  if key = "" ∨ key = "longest" ∨ key = "default" then some .longest
  else if key = "never" ∨ key = "none" ∨ key = "off" then some .never
  else none

end SpillPolicy

/-- The settings of one compilation. -/
structure Settings where
  verbose : Bool := false
  /-- Whether short intervals may borrow the place of a dead value. -/
  holeReuse : Bool := true
  policy : SpillPolicy := .longest
  /-- The number of lanes; zero keeps the kernel's. -/
  simdWidth : Int := 0
  /-- The stack bytes per lane a kernel may declare. -/
  maxStackSize : UInt32 := 8 * kib
  deriving DecidableEq, Repr

/-- A bad environment variable. -/
inductive SettingsError where
  | policy (name : String)
  | simdWidth (width : Int)
  | stackSize (cause : Text.ByteSize.ReadError)
  | stackRange (size : Int)
  deriving DecidableEq, Repr

/-- What a settings error says. -/
def SettingsError.message : SettingsError → String
  | .policy name => s!"unsupported spill policy: {name} (supported: longest, never)"
  | .simdWidth width => s!"invalid GBE_SIMD_WIDTH {width} (supported: 8, 16)"
  | .stackSize cause => "invalid GBE_MAX_STACK_SIZE: " ++ cause.message
  | .stackRange size => "invalid GBE_MAX_STACK_SIZE: " ++ Text.ByteSize.text size ++ " is out of range"

/-- Environment variables and their values. -/
abbrev Environment := List (String × String)

namespace Environment

/-- The value of a variable; an empty value counts as unset. -/
def value? (env : Environment) (name : String) : Option String :=
  match env.find? fun entry => entry.1 == name with
  | some entry => if entry.2 = "" then none else some entry.2
  | none => none

/-- The words that mean yes. -/
def yesWords : List String :=
  ["1", "ABSOLUTELY", "AFFIRMATIVE", "Absolutely", "Affirmative", "ENABLE", "ENABLED", "Enable",
    "Enabled", "POSITIVE", "Positive", "T", "TRUE", "True", "Y", "YES", "Yes", "absolutely",
    "affirmative", "enable", "enabled", "positive", "t", "true", "y", "yes"]

/-- Whether a variable says yes. -/
def isYes (env : Environment) (name : String) : Bool :=
  match env.value? name with
  | some v => yesWords.contains v
  | none => false

/-- The number written with decimal digits only. -/
def digitsValue? (digits : List Char) : Option Nat :=
  if digits ≠ [] ∧ digits.all (fun c => '0' ≤ c && c ≤ '9') then
    some (digits.foldl (fun n c => 10 * n + (c.toNat - 48)) 0)
  else
    none

/-- A signed decimal number of 64 bits. -/
def integer? (s : String) : Option Int :=
  let signed : Option Int :=
    match s.toList with
    | '-' :: digits => (digitsValue? digits).map fun n => -(n : Int)
    | '+' :: digits => (digitsValue? digits).map Int.ofNat
    | digits => (digitsValue? digits).map Int.ofNat
  signed.filter fun n => -0x8000000000000000 ≤ n && n < 0x8000000000000000

/-- The number a variable holds, zero when it holds none. -/
def integer (env : Environment) (name : String) : Int :=
  ((env.value? name).bind integer?).getD 0

end Environment

namespace Settings

/-- The largest stack size per lane that may be set. -/
def stackCeiling : Int := 1048576

/-- The stack limit an environment asks for. -/
def stackLimit (env : Environment) : Except SettingsError UInt32 :=
  match env.value? "GBE_MAX_STACK_SIZE" with
  | none => .ok ({} : Settings).maxStackSize
  | some text =>
    match Text.ByteSize.read text with
    | .error cause => .error (.stackSize cause)
    | .ok size =>
      if size < 0 ∨ stackCeiling < size then .error (.stackRange size)
      else .ok (UInt32.ofInt size)

/-- The settings an environment asks for. -/
def ofEnvironment (env : Environment) : Except SettingsError Settings := do
  let name := (env.value? "GBE_SPILL_POLICY").getD "longest"
  let policy ←
    match SpillPolicy.ofName? name with
    | some p => pure p
    | none => throw (.policy name)
  let width := env.integer "GBE_SIMD_WIDTH"
  if width ≠ 0 ∧ width ≠ 8 ∧ width ≠ 16 then
    throw (.simdWidth width)
  let stack ← stackLimit env
  return {
    verbose := env.isYes "GBE_VERBOSE"
    holeReuse := !env.isYes "GBE_NO_HOLE_REUSE"
    policy := policy
    simdWidth := width
    maxStackSize := stack }

end Settings

/-- Why an environment names no target. -/
inductive TargetError where
  | name (e : Generation.NameError)
  | device (d : Diagnostic)

/-- The device that the environment's `GBE_GEN` names, Skylake's when it is unset. -/
def defaultTarget (env : Environment) : Except TargetError Device :=
  match env.value? "GBE_GEN" with
  | none => (Device.ofGeneration .gen9).mapError .device
  | some name =>
    match Generation.ofName name with
    | .error e => .error (.name e)
    | .ok g => (Device.ofGeneration g).mapError .device

end GpuCodegen
