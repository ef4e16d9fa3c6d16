import GpuCodegen.Text.Quoted

/-!
Values that a text can show, and the ways to lay one out. A layout is a verb, a letter that chooses
the notation, and a `Style`. A value that the verb does not apply to is shown with its type, so that
nothing is lost silently. Numbers, texts and truth values are laid out as a whole, records and rows
part by part; a value with a title is shown by the title wherever a text would do.
-/

namespace GpuCodegen.Text

/-! ## Styles -/

/-- How a value is to be laid out. -/
structure Style where
  /-- Numbers carry a sign; quoted texts are ASCII only. -/
  plus : Bool := false
  /-- Padding goes to the right. -/
  minus : Bool := false
  /-- Numbers show their base. -/
  sharp : Bool := false
  /-- Numbers leave room for a sign; bytes stand apart. -/
  space : Bool := false
  /-- Padding on the left is zeros. -/
  zero : Bool := false
  /-- Records name their fields. -/
  labelled : Bool := false
  /-- Values are written with their types, as they would be defined. -/
  literal : Bool := false
  /-- The least number of characters. -/
  width : Nat := 0
  /-- The least number of digits, or the most characters of a text. -/
  precision : Option Nat := none
  deriving DecidableEq, Repr

namespace Style

/-- Padding for a text of a given length. -/
def padding (s : Style) (zeros : Bool) (length : Nat) : String :=
  String.ofList (List.replicate (s.width - length) (if zeros && !s.minus then '0' else ' '))

/-- Pads a text to the width. -/
def pad (s : Style) (zeros : Bool) (text : String) : String :=
  if s.minus then text ++ s.padding zeros text.length else s.padding zeros text.length ++ text

/-- The part of a text that the precision leaves. -/
def cut (s : Style) (text : String) : String :=
  match s.precision with
  | some n => String.ofList (text.toList.take n)
  | none => text

/-- A text as it is. -/
def plain (s : Style) (text : String) : String := s.pad s.zero (s.cut text)

/-- Whether a text can stand between grave accents. -/
def standsRaw (text : String) : Bool :=
  text.toList.all fun c =>
    (0x20 ≤ c.toNat || c == '\t') && c != '\x60' && c.toNat != 0x7f && c.toNat != 0xfeff

/-- A text in quotes, or between grave accents if that is asked for and possible. -/
def quote (s : Style) (text : String) : String :=
  let text := s.cut text
  s.pad s.zero
    (if s.sharp && standsRaw text then "\x60" ++ text ++ "\x60" else enclosed '"' s.plus text)

/-- Digits in upper or lower case. -/
def cased (upper : Bool) (digits : String) : String := if upper then digits.toUpper else digits

/-- The mark of hexadecimal digits. -/
def hexMark (upper : Bool) : String := if upper then "0X" else "0x"

/-- The bytes of a text in hexadecimal. -/
def bytes (s : Style) (upper : Bool) (text : String) : String :=
  let all := text.toUTF8.data.toList
  let pairs := (all.take (s.precision.getD all.length)).map fun b =>
    cased upper (hexPadded 2 b.toNat)
  let mark := if s.sharp then hexMark upper else ""
  s.pad s.zero
    (if pairs.isEmpty then ""
    else if s.space then " ".intercalate (pairs.map fun p => mark ++ p)
    else mark ++ String.join pairs)

/-- Digits with the mark of their base, if it is asked for. -/
def marked (s : Style) (base : Nat) (upper : Bool) (digits : String) : String :=
  if !s.sharp then digits
  else if base = 2 then "0b" ++ digits
  else if base = 8 then (if digits.startsWith "0" then digits else "0" ++ digits)
  else if base = 16 then hexMark upper ++ digits
  else digits

/-- The sign in front of a number. -/
def sign (s : Style) (negative : Bool) : String :=
  if negative then "-" else if s.plus then "+" else if s.space then " " else ""

/-- The least number of digits of a number. Padding with zeros counts as digits. -/
def leastDigits (s : Style) (negative : Bool) : Nat :=
  match s.precision with
  | some n => n
  | none => if s.zero && !s.minus then s.width - (s.sign negative).length else 0

/-- A number in a base. A zero without digits is nothing but padding. -/
def number (s : Style) (base : Nat) (upper octal : Bool) (n : Int) : String :=
  let negative := decide (n < 0)
  if s.precision = some 0 ∧ n = 0 then
    s.pad false ""
  else
    let digits :=
      padLeft '0' (s.leastDigits negative) (String.ofList (Nat.toDigits base n.natAbs))
    s.pad false
      (s.sign negative ++ (if octal then "0o" else "") ++
        s.marked base upper (cased upper digits))

/-- The character with a number; numbers without one stand for the replacement character. -/
def charAt (n : Nat) : Char :=
  if n < 0xd800 ∨ (0xe000 ≤ n ∧ n < 0x110000) then Char.ofNat n else '\ufffd'

/-- A number as a code point. -/
def codePoint (s : Style) (n : Nat) : String :=
  let c := charAt n
  s.pad false
    ("U+" ++ padLeft '0' (max 4 (s.precision.getD 4)) (hex n).toUpper ++
      if s.sharp && c.toNat == n && isPrintable c then " '" ++ c.toString ++ "'" else "")

end Style

/-! ## Values -/

/-- A value that a text can show. -/
inductive Value where
  /-- A number of a signed type of at most 64 bits. -/
  | signed (type : String) (n : Int)
  | unsigned (type : String) (n : Nat)
  | truth (b : Bool)
  | text (s : String)
  | record (type : String) (fields : List (String × Value))
  | row (type : String) (items : List Value)
  | reference (target : Value)
  /-- A value that is shown by a title where a text would do. -/
  | titled (title : String) (value : Value)

namespace Value

/-- A count or position. -/
def int (n : Int) : Value := .signed "int" n

/-- A 32-bit number. -/
def word (n : UInt32) : Value := .unsigned "uint32" n.toNat

/-- A small code. -/
def byte (type : String) (n : UInt8) : Value := .unsigned type n.toNat

/-- The name of a value's type. -/
def typeName : Value → String
  | .signed type _ | .unsigned type _ | .record type _ | .row type _ => type
  | .truth _ => "bool"
  | .text _ => "string"
  | .reference v => "*" ++ v.typeName
  | .titled _ v => v.typeName

/-- The number of a value that is one. -/
def number? : Value → Option Int
  | .signed _ n => some n
  | .unsigned _ n => some n
  | .titled _ v => v.number?
  | _ => none

/-- A text under a verb. -/
def textual? (s : Style) (verb : Char) (t : String) : Option String :=
  match verb with
  | 'v' => some (if s.literal then s.quote t else s.plain t)
  | 's' => some (s.plain t)
  | 'q' => some (s.quote t)
  | 'x' => some (s.bytes false t)
  | 'X' => some (s.bytes true t)
  | _ => none

/-- A number under a verb. Character verbs see the 64 bits of the number. -/
def numeric? (s : Style) (verb : Char) (n : Int) : Option String :=
  let bits := (n % 0x10000000000000000).toNat
  match verb with
  | 'v' | 'd' => some (s.number 10 false false n)
  | 'b' => some (s.number 2 false false n)
  | 'o' => some (s.number 8 false false n)
  | 'O' => some (s.number 8 false true n)
  | 'x' => some (s.number 16 false false n)
  | 'X' => some (s.number 16 true false n)
  | 'c' => some (s.pad s.zero (Style.charAt bits).toString)
  | 'q' => some (s.pad s.zero (enclosed '\x27' s.plus (Style.charAt bits).toString))
  | 'U' => some (s.codePoint bits)
  | _ => none

/-- A value without parts under a verb. -/
def leaf? (s : Style) (verb : Char) : Value → Option String
  | .signed _ n => numeric? s verb n
  | .unsigned _ n =>
    if s.literal && verb == 'v' then numeric? { s with sharp := true } 'x' n
    else numeric? s verb n
  | .truth b =>
    if verb == 't' || verb == 'v' then some (s.pad s.zero (if b then "true" else "false")) else none
  | .text t => textual? s verb t
  | _ => none

/-- A value that a verb does not apply to, by the text it would have otherwise. -/
def refused (verb : Char) (type shown : String) : String :=
  "%!" ++ verb.toString ++ "(" ++ type ++ "=" ++ shown ++ ")"

/-- Parts in brackets; a literal has commas and its type in front. -/
def gathered (s : Style) (type left right : String) (parts : List String) : String :=
  if s.literal then type ++ "\x7b" ++ ", ".intercalate parts ++ "\x7d"
  else left ++ " ".intercalate parts ++ right

mutual

/-- A value part by part. -/
def spell (s : Style) (verb : Char) : Value → String
  | .record type fields => gathered s type "\x7b" "\x7d" (spellFields s verb fields)
  | .row type items => gathered s type "[" "]" (spellItems s verb items)
  | .reference v => "&" ++ spell s verb v
  | .titled _ v => spell s verb v
  | .signed type n =>
    (numeric? s verb n).getD (refused verb type ((leaf? s 'v' (.signed type n)).getD ""))
  | .unsigned type n =>
    (leaf? s verb (.unsigned type n)).getD
      (refused verb type ((leaf? s 'v' (.unsigned type n)).getD ""))
  | .truth b =>
    (leaf? s verb (.truth b)).getD (refused verb "bool" ((leaf? s 'v' (.truth b)).getD ""))
  | .text t =>
    (leaf? s verb (.text t)).getD (refused verb "string" ((leaf? s 'v' (.text t)).getD ""))

/-- The fields of a record. -/
def spellFields (s : Style) (verb : Char) : List (String × Value) → List String
  | [] => []
  | (name, v) :: rest =>
    ((if s.labelled || s.literal then name ++ ":" else "") ++ spell s verb v) ::
      spellFields s verb rest

/-- The items of a row. -/
def spellItems (s : Style) (verb : Char) : List Value → List String
  | [] => []
  | v :: rest => spell s verb v :: spellItems s verb rest

end

/-- Whether a value has parts, is a reference or has a title. -/
def isCompound : Value → Bool
  | .record _ _ | .row _ _ | .reference _ | .titled _ _ => true
  | _ => false

/-- A value under a verb. The verb `T` shows the type; the verbs `w` and `p` apply to no value of
this kind, and a compound value is refused as a whole. -/
def render (s : Style) (verb : Char) (v : Value) : String :=
  if verb == 'T' then
    s.plain v.typeName
  else if (verb == 'w' || verb == 'p') && v.isCompound then
    refused verb v.typeName (spell s 'v' v)
  else
    match v with
    | .titled title _ =>
      if s.literal then spell s verb v else (textual? s verb title).getD (spell s verb v)
    | _ => spell s verb v

end Value

end GpuCodegen.Text
