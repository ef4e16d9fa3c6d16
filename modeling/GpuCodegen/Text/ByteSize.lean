import GpuCodegen.Text.Lowercase
import GpuCodegen.Text.Numeral
import GpuCodegen.Text.Quoted

/-!
Byte sizes as text. `ByteSize.text` writes a size in the largest binary unit it reaches, with four
significant digits. `ByteSize.read` reads a number with an optional unit, in powers of 1024.
-/

namespace GpuCodegen.Text.ByteSize

/-- The units, each 1024 times the one before. -/
def units : List String := ["B", "KiB", "MiB", "GiB", "TiB", "PiB", "EiB", "ZiB", "YiB"]

/-- Drops zeros at the end of a digit string. -/
def dropZeros (digits : List Char) : List Char :=
  (digits.reverse.dropWhile fun c => c == '0').reverse

/-- A fraction after a point, or nothing when it is zero. -/
def fractionText (digits : List Char) : String :=
  match dropZeros digits with
  | [] => ""
  | shown => "." ++ String.ofList shown

/-- The rational `num / den` of at least one with four significant digits: positional below ten
thousand, with an exponent above. -/
def significant (num den : Nat) : String :=
  let whole := (toString (num / den)).length - 1
  let rounded :=
    if whole ≤ 3 then roundDiv (num * Nat.pow 10 (3 - whole)) den
    else roundDiv num (den * Nat.pow 10 (whole - 3))
  let (shown, exponent) := if rounded = 10000 then (1000, whole + 1) else (rounded, whole)
  let digits := (toString shown).toList
  if exponent < 4 then
    String.ofList (digits.take (exponent + 1)) ++ fractionText (digits.drop (exponent + 1))
  else
    String.ofList (digits.take 1) ++ fractionText (digits.drop 1) ++ "e+" ++
      padLeft '0' 2 (toString exponent)

/-- The unit a size reaches, and how many times 1024 it is. -/
def unitOf (size : Nat) : List String → Nat → String × Nat
  | [], scale => ("", scale)
  | [unit], scale => (unit, scale)
  | unit :: larger, scale =>
    if size < 1024 * scale then (unit, scale) else unitOf size larger (1024 * scale)

/-- The text of a size. -/
def natText (size : Nat) : String :=
  if size = 0 then
    "0B"
  else
    let (unit, scale) := unitOf size units 1
    significant size scale ++ unit

/-- The text of a size that may be negative; only sizes of at least 1024 bytes are scaled. -/
def text : Int → String
  | .ofNat n => natText n
  | .negSucc n => "-" ++ significant (n + 1) 1 ++ "B"

/-- Why a text is not read as a size. -/
inductive ReadError where
  /-- No digit, or a negative number. -/
  | size (text : String)
  /-- No unit. -/
  | unit (text : String)
  /-- The part before the unit is no number. -/
  | number (text : String) (cause : NumeralError)
  deriving DecidableEq, Repr

/-- What a read error says. -/
def ReadError.message : ReadError → String
  | .size s => "invalid size: '" ++ s ++ "'"
  | .unit s => "invalid suffix: '" ++ s ++ "'"
  | .number s cause =>
    "strconv.ParseFloat: parsing " ++ quoted s ++ ": " ++
      match cause with
      | .malformed => "invalid syntax"
      | .outOfRange => "value out of range"

/-- Whether a character can end the number. -/
def endsNumber (c : Char) : Bool := ('0' ≤ c && c ≤ '9') || c == '.' || c == ' '

/-- Splits a size text after the last character that can end the number. A blank there separates the
two parts and belongs to neither. -/
def splitNumber? (s : List Char) : Option (List Char × List Char) :=
  let unit := (s.reverse.takeWhile fun c => !endsNumber c).reverse
  match s.reverse.dropWhile fun c => !endsNumber c with
  | [] => none
  | ' ' :: number => some (number.reverse, unit)
  | number => some (number.reverse, unit)

/-- The factor of a unit's letter. -/
def letterFactor? (letter : UInt8) : Option Nat :=
  match letter.toNat with
  | 107 => some 1024
  | 109 => some 1048576
  | 103 => some 1073741824
  | 116 => some 1099511627776
  | 112 => some 1125899906842624
  | _ => none

/-- The factor of a lower-case unit, given by its bytes: a letter alone or followed by `b` or `ib`.
Units of any other length are judged by their letter alone. -/
def unitFactor? : List UInt8 → Option Nat
  | [] => none
  | letter :: rest =>
    if letter = 98 then
      if rest = [] then some 1 else none
    else
      match rest with
      | [second] => if second = 98 then letterFactor? letter else none
      | [second, third] => if second = 105 ∧ third = 98 then letterFactor? letter else none
      | _ => letterFactor? letter

/-- The integer part of a number times a factor, as a signed 64-bit number. Numbers that do not fit
become the least one. -/
def truncated (value : Numeral) (factor : Nat) : Int :=
  match value with
  | .finite _ x =>
    if x.floorMul factor < 0x8000000000000000 then x.floorMul factor else -0x8000000000000000
  | _ => -0x8000000000000000

/-- Whether a number lies below zero. -/
def isNegative : Numeral → Bool
  | .nan => false
  | .infinite negative => negative
  | .finite negative x => negative && x.mantissa != 0

/-- Reads a size with an optional unit. -/
def read (s : String) : Except ReadError Int :=
  match splitNumber? s.toList with
  | none => .error (.size s)
  | some (number, unit) =>
    match Numeral.read number with
    | .error cause => .error (.number (String.ofList number) cause)
    | .ok value =>
      let unit := String.ofList unit
      if isNegative value then .error (.size s)
      else if unit = "" then .ok (truncated value 1)
      else if 3 < unit.utf8ByteSize then .error (.unit unit)
      else
        match unitFactor? (lower unit).toUTF8.toList with
        | some factor => .ok (truncated value factor)
        | none => .error (.unit (lower unit))

end GpuCodegen.Text.ByteSize
