/-!
Finite maps from 32-bit keys to values, kept as a list of entries ordered by key. Inserting under an
existing key replaces its value. `floor?` and `ceiling?` find the nearest entry on either side of a
key.
-/

namespace GpuCodegen

/-- A finite map from 32-bit keys, as entries in ascending key order. -/
structure OrdMap (α : Type) where
  entries : List (UInt32 × α)
  deriving DecidableEq, Repr

namespace OrdMap

variable {α : Type}

/-- The map without entries. -/
def empty : OrdMap α := ⟨[]⟩

instance : Inhabited (OrdMap α) := ⟨empty⟩

/-- Puts an entry into an ordered list, in place of an entry with the same key. -/
def insertEntry (key : UInt32) (value : α) : List (UInt32 × α) → List (UInt32 × α)
  | [] => [(key, value)]
  | entry :: rest =>
    if key < entry.1 then (key, value) :: entry :: rest
    else if key = entry.1 then (key, value) :: rest
    else entry :: insertEntry key value rest

/-- The map with `key` standing for `value`. -/
def insert (m : OrdMap α) (key : UInt32) (value : α) : OrdMap α :=
  ⟨insertEntry key value m.entries⟩

/-- The value of a key. -/
def find? (m : OrdMap α) (key : UInt32) : Option α :=
  (m.entries.find? fun entry => entry.1 == key).map (·.2)

/-- Whether a key has a value. -/
def contains (m : OrdMap α) (key : UInt32) : Bool := (m.find? key).isSome

/-- The map without `key`. -/
def erase (m : OrdMap α) (key : UInt32) : OrdMap α :=
  ⟨m.entries.filter fun entry => entry.1 != key⟩

/-- The last entry whose key is at most `key`. -/
def floor? (m : OrdMap α) (key : UInt32) : Option (UInt32 × α) :=
  (m.entries.filter fun entry => entry.1 ≤ key).getLast?

/-- The first entry whose key is at least `key`. -/
def ceiling? (m : OrdMap α) (key : UInt32) : Option (UInt32 × α) :=
  m.entries.find? fun entry => key ≤ entry.1

/-- The number of entries. -/
def size (m : OrdMap α) : Nat := m.entries.length

end OrdMap

end GpuCodegen
