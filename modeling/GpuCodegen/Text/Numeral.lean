/-!
Reading numbers written in decimal or hexadecimal floating point notation, and rounding them to
doubles. `Numeral.read` follows the usual literal grammar: an optional sign, digits with at most one
point, an optional exponent (obligatory in hexadecimal), underscores only between digits, and the
names of infinity and not-a-number. `nearestDouble` rounds a positive rational to the nearest double,
ties to even.
-/

namespace GpuCodegen.Text

/-- Divides and rounds to the nearest integer, ties to even. -/
def roundDiv (a b : Nat) : Nat :=
  let q := a / b
  let r := a % b
  if 2 * r < b then q else if b < 2 * r then q + 1 else if q % 2 = 0 then q else q + 1

/-- A finite nonnegative double, `mantissa * 2 ^ exponent`. -/
structure Double where
  mantissa : Nat
  exponent : Int
  deriving DecidableEq, Repr

namespace Double

/-- The integer part of a double times a natural number. -/
def floorMul (x : Double) (factor : Nat) : Nat :=
  if 0 ≤ x.exponent then x.mantissa * factor * Nat.pow 2 x.exponent.toNat
  else x.mantissa * factor / Nat.pow 2 (-x.exponent).toNat

end Double

/-- The largest `e` with `2 ^ e ≤ num / den`, for positive numbers. -/
def floorLog2 (num den : Nat) : Int :=
  let e : Int := (Nat.log2 num : Int) - Nat.log2 den
  let above :=
    if 0 ≤ e then num < den * Nat.pow 2 e.toNat else num * Nat.pow 2 (-e).toNat < den
  if above then e - 1 else e

/-- The double nearest to `num / den`, or none when it lies beyond the largest. -/
def nearestDouble (num den : Nat) : Option Double :=
  if num = 0 then
    some ⟨0, 0⟩
  else
    let q := max (floorLog2 num den - 52) (-1074)
    let m :=
      if 0 ≤ q then roundDiv num (den * Nat.pow 2 q.toNat)
      else roundDiv (num * Nat.pow 2 (-q).toNat) den
    if q < 971 ∨ (q = 971 ∧ m < 0x20000000000000) then some ⟨m, q⟩ else none

/-- A number as read from text. -/
inductive Numeral where
  | nan
  | infinite (negative : Bool)
  | finite (negative : Bool) (value : Double)
  deriving DecidableEq, Repr

/-- Why a text is not read as a number. -/
inductive NumeralError where
  /-- The text is no number. -/
  | malformed
  /-- The number lies beyond the largest double. -/
  | outOfRange
  deriving DecidableEq, Repr

namespace Numeral

/-- ASCII lower case. -/
def lowerAscii (c : Char) : Char := if 'A' ≤ c ∧ c ≤ 'Z' then Char.ofNat (c.toNat + 32) else c

/-- The value of a digit in base ten or sixteen. -/
def digit? (hexadecimal : Bool) (c : Char) : Option Nat :=
  let l := lowerAscii c
  if '0' ≤ c ∧ c ≤ '9' then some (c.toNat - 48)
  else if hexadecimal ∧ 'a' ≤ l ∧ l ≤ 'f' then some (l.toNat - 87)
  else none

/-- The digits of a number while they are read. -/
structure Digits where
  mantissa : Nat := 0
  /-- How many digits stand after the point. -/
  fraction : Nat := 0
  sawPoint : Bool := false
  sawDigit : Bool := false

/-- Reads digits, underscores and at most one point, and gives back the rest. -/
def readDigits (hexadecimal : Bool) : Digits → List Char → Digits × List Char
  | acc, [] => (acc, [])
  | acc, c :: rest =>
    match digit? hexadecimal c with
    | some d =>
      readDigits hexadecimal
        { acc with
          mantissa := acc.mantissa * (if hexadecimal then 16 else 10) + d
          fraction := if acc.sawPoint then acc.fraction + 1 else acc.fraction
          sawDigit := true }
        rest
    | none =>
      if c = '_' then readDigits hexadecimal acc rest
      else if c = '.' ∧ acc.sawPoint = false then
        readDigits hexadecimal { acc with sawPoint := true } rest
      else (acc, c :: rest)

/-- Reads the digits of an exponent. Digits after the value has reached 10000 are skipped, since the
number is then far outside every range. -/
def readExponent : Nat → List Char → Nat × List Char
  | e, [] => (e, [])
  | e, c :: rest =>
    if c = '_' then readExponent e rest
    else if '0' ≤ c ∧ c ≤ '9' then
      readExponent (if e < 10000 then e * 10 + (c.toNat - 48) else e) rest
    else (e, c :: rest)

/-- What the latest character was, while underscores are checked. -/
inductive Seen where
  | start
  | digit
  | underscore
  | other
  deriving DecidableEq

/-- Whether every underscore stands between digits. -/
def underscoresOk (hexadecimal : Bool) : Seen → List Char → Bool
  | seen, [] => seen != .underscore
  | seen, c :: rest =>
    if (digit? hexadecimal c).isSome then underscoresOk hexadecimal .digit rest
    else if c = '_' then seen == .digit && underscoresOk hexadecimal .underscore rest
    else seen != .underscore && underscoresOk hexadecimal .other rest

/-- Whether an unsigned numeral begins with a hexadecimal mark and goes on after it. -/
def startsHex : List Char → Bool
  | '0' :: x :: _ :: _ => lowerAscii x == 'x'
  | _ => false

/-- The exponent part: its value and what follows, or none when a mark has no digits. -/
def exponentPart (mark : Char) (obligatory : Bool) : List Char → Option (Int × List Char)
  | [] => if obligatory then none else some (0, [])
  | c :: rest =>
    if lowerAscii c = mark then
      let (negative, rest) :=
        match rest with
        | '+' :: r => (false, r)
        | '-' :: r => (true, r)
        | r => (false, r)
      match rest with
      | [] => none
      | d :: _ =>
        if '0' ≤ d ∧ d ≤ '9' then
          let (e, rest) := readExponent 0 rest
          some (if negative then -(e : Int) else e, rest)
        else
          none
    else if obligatory then none
    else some (0, c :: rest)

/-- Splits a sign off. -/
def splitSign : List Char → Bool × List Char
  | '+' :: rest => (false, rest)
  | '-' :: rest => (true, rest)
  | rest => (false, rest)

/-- A number `mantissa * base ^ exponent` rounded to a double. -/
def scaled (mantissa base : Nat) (exponent : Int) : Option Double :=
  if mantissa = 0 then some ⟨0, 0⟩
  else if 0 ≤ exponent then nearestDouble (mantissa * Nat.pow base exponent.toNat) 1
  else nearestDouble mantissa (Nat.pow base (-exponent).toNat)

/-- Reads a whole text as digits with an optional exponent. -/
def readFinite (text : List Char) : Except NumeralError Numeral :=
  let (negative, body) := splitSign text
  let hexadecimal := startsHex body
  let (digits, rest) := readDigits hexadecimal {} (if hexadecimal then body.drop 2 else body)
  if digits.sawDigit = false then
    .error .malformed
  else
    match exponentPart (if hexadecimal then 'p' else 'e') hexadecimal rest with
    | none => .error .malformed
    | some (e, rest) =>
      let ok := underscoresOk hexadecimal (if hexadecimal then .digit else .start)
        (if hexadecimal then body.drop 2 else body)
      if rest ≠ [] ∨ (body.contains '_' ∧ ok = false) then
        .error .malformed
      else
        let value :=
          if hexadecimal then scaled digits.mantissa 2 (e - 4 * digits.fraction)
          else scaled digits.mantissa 10 (e - digits.fraction)
        match value with
        | some x => .ok (.finite negative x)
        | none => .error .outOfRange

/-- Reads a whole text as a number. -/
def read (text : List Char) : Except NumeralError Numeral :=
  let (negative, body) := splitSign text
  let word := String.ofList (body.map lowerAscii)
  if word = "inf" ∨ word = "infinity" then .ok (.infinite negative)
  else if String.ofList (text.map lowerAscii) = "nan" then .ok .nan
  else readFinite text

end Numeral

end GpuCodegen.Text
