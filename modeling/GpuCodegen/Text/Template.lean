import GpuCodegen.Text.Value

/-!
Templates: texts in which a percent sign starts a directive that shows a value. A directive is

* flags out of plus, minus, sharp, blank and zero;
* the position of its value in brackets, or nothing for the next value;
* a width, a point and a precision; a star takes one of these from the next value;
* a verb.

The verb percent shows a percent sign. Nothing that goes wrong stops the rest: a directive without a
value, a verb or a readable position, and values that no directive asked for, are reported in the
text itself.
-/

namespace GpuCodegen.Text

/-- Which value a directive shows. -/
inductive Position where
  | next
  /-- A position in brackets, counted from one. -/
  | nth (n : Nat)
  /-- Brackets without a position in them, or without an end. -/
  | unreadable
  deriving DecidableEq, Repr

/-- A width or a precision. -/
inductive Extent where
  | absent
  | number (n : Nat)
  /-- The next value. -/
  | star
  deriving DecidableEq, Repr

/-- A directive as it is written. -/
structure Directive where
  /-- The flags. -/
  style : Style
  position : Position
  width : Extent
  /-- What follows a point. -/
  precision : Option (Position × Extent)
  /-- A position right before the verb. -/
  last : Position
  /-- Nothing at the end of the text. -/
  verb : Option Char
  deriving Repr

/-- A piece of a template. -/
inductive Piece where
  | literal (c : Char)
  | directive (d : Directive)
  deriving Repr

/-! ## Reading -/

namespace Template

/-- The largest number to which a digit may still be added. -/
def largeNumber : Nat := 1000000

/-- Reads the digits of a number. One that is too large takes the rest of the text with it. -/
def takeDigits (n : Option Nat) : List Char → Option Nat × List Char
  | [] => (n, [])
  | c :: rest =>
    if !c.isDigit then (n, c :: rest)
    else if largeNumber < n.getD 0 then (none, [])
    else takeDigits (some (n.getD 0 * 10 + (c.toNat - '0'.toNat))) rest

/-- Reads flags. -/
def takeFlags (s : Style) : List Char → Style × List Char
  | '+' :: rest => takeFlags { s with plus := true } rest
  | '-' :: rest => takeFlags { s with minus := true } rest
  | '#' :: rest => takeFlags { s with sharp := true } rest
  | ' ' :: rest => takeFlags { s with space := true } rest
  | '0' :: rest => takeFlags { s with zero := true } rest
  | rest => (s, rest)

/-- Reads a position in brackets. Brackets need room for a digit and have to end. -/
def takePosition : List Char → Position × List Char
  | '[' :: rest =>
    match rest.dropWhile (· != ']') with
    | [] => (.unreadable, rest)
    | _ :: after =>
      if rest = [']'] then
        (.unreadable, rest)
      else
        match takeDigits none (rest.takeWhile (· != ']')) with
        | (some n, []) => (.nth n, after)
        | _ => (.unreadable, after)
  | rest => (.next, rest)

/-- Reads a width or a precision. -/
def takeExtent : List Char → Extent × List Char
  | '*' :: rest => (.star, rest)
  | rest =>
    match takeDigits none rest with
    | (some n, rest) => (.number n, rest)
    | (none, rest) => (.absent, rest)

/-- Reads a precision with its point. -/
def takePrecision : List Char → Option (Position × Extent) × List Char
  | '.' :: rest =>
    let (p, rest) := takePosition rest
    let (e, rest) := takeExtent rest
    (some (p, e), rest)
  | rest => (none, rest)

end Template

/-- Whether a position was read. -/
def Position.isGiven : Position → Bool
  | .nth _ => true
  | _ => false

namespace Directive

/-- Whether the width is preceded by a position that is still to be used. -/
def pendingAfterWidth (d : Directive) : Bool := d.position.isGiven && d.width != .star

/-- Whether a position is still to be used by the verb. -/
def pending (d : Directive) : Bool :=
  match d.precision with
  | some (p, e) => p.isGiven && e != .star
  | none => d.pendingAfterWidth

/-- Reads what follows a percent sign. -/
def read (cs : List Char) : Directive × List Char :=
  let (style, cs) := Template.takeFlags {} cs
  let (position, cs) := Template.takePosition cs
  let (width, cs) := Template.takeExtent cs
  let (precision, cs) := Template.takePrecision cs
  let d : Directive := ⟨style, position, width, precision, .next, none⟩
  let (last, cs) := if d.pending then (.next, cs) else Template.takePosition cs
  ({ d with last := last, verb := cs.head? }, cs.tail)

end Directive

namespace Template

/-- The pieces of a text, read in at most `steps` steps. -/
def piecesWithin : (steps : Nat) → List Char → List Piece
  | 0, _ => []
  | _ + 1, [] => []
  | steps + 1, c :: rest =>
    if c = '%' then
      let (d, rest) := Directive.read rest
      .directive d :: piecesWithin steps rest
    else
      .literal c :: piecesWithin steps rest

/-- The pieces of a text. Every piece has at least one character. -/
def pieces (text : String) : List Piece := piecesWithin text.length text.toList

end Template

/-! ## Filling -/

/-- A template being filled. -/
structure Filling where
  values : List Value
  /-- The value to be shown next. -/
  next : Nat := 0
  /-- Whether a position in brackets was met. -/
  reordered : Bool := false
  /-- Whether the positions of the current directive make sense. -/
  sound : Bool := true
  style : Style := {}
  shown : String := ""

namespace Filling

/-- Adds to what is shown. -/
def add (f : Filling) (text : String) : Filling := { f with shown := f.shown ++ text }

/-- Marks the positions of the current directive as making no sense. -/
def spoil (f : Filling) (when : Bool) : Filling := { f with sound := f.sound && !when }

/-- Goes to the value at a position. -/
def goTo (f : Filling) : Position → Filling
  | .next => f
  | .nth n =>
    if 1 ≤ n ∧ n ≤ f.values.length then { f with next := n - 1, reordered := true }
    else { f with sound := false, reordered := true }
  | .unreadable => { f with sound := false, reordered := true }

/-- Takes the next value as a number of moderate size. -/
def takeNumber (f : Filling) : Option Int × Filling :=
  match f.values[f.next]? with
  | none => (none, f)
  | some v =>
    ((v.number?).filter fun n => n.natAbs ≤ Template.largeNumber, { f with next := f.next + 1 })

/-- Sets the width. A negative one pads on the right. -/
def setWidth (f : Filling) (d : Directive) : Filling :=
  match d.width with
  | .absent => f
  | .number n => { f with style := { f.style with width := n } }.spoil d.position.isGiven
  | .star =>
    match f.takeNumber with
    | (none, f) => f.add "%!(BADWIDTH)"
    | (some n, f) =>
      let s := { f.style with width := n.natAbs }
      { f with style := if n < 0 then { s with minus := true, zero := false } else s }

/-- Sets the precision. -/
def setPrecision (f : Filling) (d : Directive) : Filling :=
  match d.precision with
  | none => f
  | some (p, e) =>
    let f := (f.spoil d.pendingAfterWidth).goTo p
    match e with
    | .absent => { f with style := { f.style with precision := some 0 } }
    | .number n => { f with style := { f.style with precision := some n } }
    | .star =>
      match f.takeNumber with
      | (some (.ofNat n), f) => { f with style := { f.style with precision := some n } }
      | (_, f) => f.add "%!(BADPREC)"

/-- Shows the next value under a verb. The general verb turns the flags sharp and plus into styles of
their own. -/
def showNext (f : Filling) (verb : Char) (v : Value) : Filling :=
  let s :=
    if verb == 'v' || verb == 'w' then
      { f.style with
        literal := f.style.sharp, sharp := false, labelled := f.style.plus, plus := false }
    else
      f.style
  { f.add (v.render s verb) with next := f.next + 1 }

/-- Applies the verb of a directive. -/
def apply (f : Filling) : Option Char → Filling
  | none => f.add "%!(NOVERB)"
  | some verb =>
    if verb = '%' then f.add "%"
    else if !f.sound then f.add ("%!" ++ verb.toString ++ "(BADINDEX)")
    else
      match f.values[f.next]? with
      | none => f.add ("%!" ++ verb.toString ++ "(MISSING)")
      | some v => f.showNext verb v

/-- Fills one piece. -/
def piece (f : Filling) : Piece → Filling
  | .literal c => f.add c.toString
  | .directive d =>
    let f := { f with sound := true, style := d.style }
    ((((f.goTo d.position).setWidth d).setPrecision d).goTo d.last).apply d.verb

/-- Reports the values that are left over. -/
def finish (f : Filling) : String :=
  match f.reordered, f.values.drop f.next with
  | false, v :: rest =>
    f.shown ++ "%!(EXTRA " ++
      ", ".intercalate ((v :: rest).map fun v => v.typeName ++ "=" ++ v.render {} 'v') ++ ")"
  | _, _ => f.shown

end Filling

/-- A template filled with values. -/
def fill (template : String) (values : List Value) : String :=
  ((Template.pieces template).foldl Filling.piece { values := values }).finish

end GpuCodegen.Text
