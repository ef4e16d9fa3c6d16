import GpuCodegen.Text.Digits
import GpuCodegen.Text.Printable

/-!
Texts in quotes. The quotes themselves, backslashes and characters that are not printable are
escaped.
-/

namespace GpuCodegen.Text

/-- The letter of a control character's short escape. -/
def shortEscape? (c : Char) : Option Char :=
  match c.toNat with
  | 7 => some 'a'
  | 8 => some 'b'
  | 9 => some 't'
  | 10 => some 'n'
  | 11 => some 'v'
  | 12 => some 'f'
  | 13 => some 'r'
  | _ => none

/-- One character inside quotes of a given kind. With `ascii`, characters beyond ASCII are escaped
too. -/
def escapedChar (quote : Char) (ascii : Bool) (c : Char) : String :=
  if c = quote ∨ c = '\\' then
    "\\" ++ c.toString
  else if isPrintable c && (!ascii || c.toNat < 0x80) then
    c.toString
  else
    match shortEscape? c with
    | some letter => "\\" ++ letter.toString
    | none =>
      if c.toNat < 0x20 ∨ c.toNat = 0x7f then "\\x" ++ hexPadded 2 c.toNat
      else if c.toNat < 0x10000 then "\\u" ++ hexPadded 4 c.toNat
      else "\\U" ++ hexPadded 8 c.toNat

/-- A text in quotes of a given kind. -/
def enclosed (quote : Char) (ascii : Bool) (s : String) : String :=
  quote.toString ++ String.join (s.toList.map (escapedChar quote ascii)) ++ quote.toString

/-- A text in double quotes. -/
def quoted (s : String) : String := enclosed '"' false s

end GpuCodegen.Text
