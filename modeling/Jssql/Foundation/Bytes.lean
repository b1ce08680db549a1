import Mathlib

/-!
Byte strings and fixed-width little-endian integers.

Nothing here depends on a file format: the encoder writes exactly the requested
number of bytes and the decoder is Mathlib's positional evaluation, so the two
are inverse below the width's bound and the encoder truncates above it.
-/
namespace Foundation

abbrev Bytes := List UInt8

/-- Named, so that a definition that tests membership holds no proof of its own. -/
instance instLawfulBEqBytes : LawfulBEq Bytes := inferInstance

/-- The bytes of an ASCII text. -/
def ascii (s : String) : Bytes := s.toList.map fun c => UInt8.ofNat c.toNat

/-- The `w` little-endian bytes of `n`; what does not fit is dropped. -/
def toLE : Nat → Nat → Bytes
  | 0, _ => []
  | w + 1, n => UInt8.ofNat n :: toLE w (n / 256)

def ofLE (bs : Bytes) : Nat := Nat.ofDigits 256 (bs.map UInt8.toNat)

@[simp] theorem length_toLE (w n : Nat) : (toLE w n).length = w := by
  induction w generalizing n with
  | zero => rfl
  | succ w ih => simp only [toLE, List.length_cons, ih]

theorem ofLE_toLE (w n : Nat) : ofLE (toLE w n) = n % 256 ^ w := by
  induction w generalizing n with
  | zero => simp [toLE, ofLE, Nat.mod_one]
  | succ w ih =>
      have head : (UInt8.ofNat n).toNat = n % 256 := UInt8.toNat_ofNat'
      have tail : ofLE (toLE w (n / 256)) = n / 256 % 256 ^ w := ih (n / 256)
      simp only [ofLE, toLE, List.map_cons, Nat.ofDigits_cons, head] at tail ⊢
      rw [tail, Nat.pow_succ', Nat.mod_mul]

theorem ofLE_toLE_of_lt {w n : Nat} (h : n < 256 ^ w) : ofLE (toLE w n) = n := by
  rw [ofLE_toLE, Nat.mod_eq_of_lt h]

/-- Bytes of a destination of which only a prefix was overwritten. -/
def overlay (written before : Bytes) : Bytes := written ++ before.drop written.length

theorem overlay_full {written before : Bytes} (h : before.length ≤ written.length) :
    overlay written before = written := by
  simp [overlay, List.drop_eq_nil_of_le h]

end Foundation
