import Jssql.Foundation.Numeral

/-!
Finite doubles as rational numbers. Scaling two of them to one exponent keeps their order, so
the comparisons of `Double` are those of the values.
-/
namespace Foundation.Double

def IsFinite : Double → Prop
  | .finite _ _ _ => True
  | .infinite _ | .nan => False

/-- The value of a finite double. -/
def toRat : Double → ℚ
  | .finite negative mantissa exponent => (if negative then -(mantissa : ℚ) else mantissa) * 2 ^ exponent
  | .infinite _ | .nan => 0

theorem scaled_eq {negative : Bool} {mantissa : Nat} {exponent base : Int} (below : base ≤ exponent) :
    (scaled negative mantissa exponent base : ℚ) = toRat (.finite negative mantissa exponent) * 2 ^ (-base) := by
  have power : (2 : ℚ) ^ (exponent - base).toNat = 2 ^ exponent * 2 ^ (-base) := by
    have steps : ((exponent - base).toNat : Int) = exponent + -base := by omega
    rw [← zpow_natCast, steps, zpow_add₀ two_ne_zero]
  cases negative with
  | false =>
      simp only [scaled, toRat, Bool.false_eq_true, if_false]
      push_cast
      rw [power, mul_assoc]
  | true =>
      simp only [scaled, toRat, if_true]
      push_cast
      rw [power, neg_mul, neg_mul, mul_assoc]

variable {x y : Double}

theorem lt_iff (hx : x.IsFinite) (hy : y.IsFinite) : x.lt y = true ↔ x.toRat < y.toRat := by
  obtain ⟨n, a, e⟩ | _ | _ := x
  · obtain ⟨m, b, f⟩ | _ | _ := y
    · have positive : (0 : ℚ) < 2 ^ (-min e f) := zpow_pos two_pos _
      rw [lt, decide_eq_true_eq, ← Int.cast_lt (R := ℚ), scaled_eq (min_le_left e f), scaled_eq (min_le_right e f),
        mul_lt_mul_iff_left₀ positive]
    · cases hy
    · cases hy
  · cases hx
  · cases hx

theorem eq_iff (hx : x.IsFinite) (hy : y.IsFinite) : x.eq y = true ↔ x.toRat = y.toRat := by
  obtain ⟨n, a, e⟩ | _ | _ := x
  · obtain ⟨m, b, f⟩ | _ | _ := y
    · have solid : (2 : ℚ) ^ (-min e f) ≠ 0 := zpow_ne_zero _ two_ne_zero
      rw [eq, decide_eq_true_eq, ← Int.cast_inj (α := ℚ), scaled_eq (min_le_left e f), scaled_eq (min_le_right e f),
        mul_left_inj' solid]
    · cases hy
    · cases hy
  · cases hx
  · cases hx

theorem le_iff (hx : x.IsFinite) (hy : y.IsFinite) : x.le y = true ↔ x.toRat ≤ y.toRat := by
  rw [le, Bool.or_eq_true, lt_iff hx hy, eq_iff hx hy, le_iff_lt_or_eq]

end Foundation.Double
