/-!
Numbers as text: lower-case hexadecimal digits, zero padding and right alignment.
-/

namespace GpuCodegen.Text

/-- Puts `fill` in front of a text until it has `width` characters; a longer text stays as it is. -/
def padLeft (fill : Char) (width : Nat) (s : String) : String :=
  String.ofList (List.replicate (width - s.length) fill) ++ s

/-- The lower-case hexadecimal digits of a number, without leading zeros. -/
def hex (n : Nat) : String :=
  String.ofList (Nat.toDigits 16 n)

/-- Hexadecimal with at least `width` digits. -/
def hexPadded (width n : Nat) : String :=
  padLeft '0' width (hex n)

/-- A decimal index right-aligned in four columns, as listings number their lines. -/
def listingIndex (n : Nat) : String :=
  padLeft ' ' 4 (toString n)

end GpuCodegen.Text
