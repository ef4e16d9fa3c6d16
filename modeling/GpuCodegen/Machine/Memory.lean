/-!
Byte-addressed storage with little-endian values. `Memory.load_store_of_apart` says that a store does
not change a value elsewhere, and `Memory.load_congr` that a value depends on its own bytes only.
-/

namespace GpuCodegen

/-- Storage that holds a byte at every address. -/
def Memory := Nat → UInt8

namespace Memory

/-- The little-endian value of `size` bytes from an address on. -/
def load (m : Memory) (address : Nat) : (size : Nat) → UInt64
  | 0 => 0
  | size + 1 => (m address).toUInt64 ||| (load m (address + 1) size <<< 8)

/-- Stores the low `size` bytes of a value from an address on. -/
def store (m : Memory) (address size : Nat) (value : UInt64) : Memory := fun a =>
  if address ≤ a ∧ a < address + size then
    (value >>> UInt64.ofNat (8 * (a - address))).toUInt8
  else
    m a

/-- A store leaves the bytes outside its range alone. -/
theorem store_outside (m : Memory) {address size a : Nat} (value : UInt64)
    (outside : a < address ∨ address + size ≤ a) : m.store address size value a = m a := by
  unfold store
  rw [if_neg (by omega)]

/-- A value depends on its own bytes only. -/
theorem load_congr {m n : Memory} {address size : Nat}
    (same : ∀ a, address ≤ a → a < address + size → m a = n a) :
    m.load address size = n.load address size := by
  induction size generalizing address with
  | zero => rfl
  | succ size ih =>
    rw [load, load, same address (Nat.le_refl _) (by omega),
      ih fun a above below => same a (by omega) (by omega)]

/-- A store does not change a value that shares no byte with it. -/
theorem load_store_of_apart (m : Memory) {address size other width : Nat} (value : UInt64)
    (apart : other + width ≤ address ∨ address + size ≤ other) :
    (m.store address size value).load other width = m.load other width :=
  load_congr fun _ _ _ => store_outside m value (by omega)

end Memory

end GpuCodegen
