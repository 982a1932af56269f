/-! Rounding to 24 significant bits. Magnitudes are counted in units of 2⁻¹⁴⁹. A quotient of whole
numbers goes to the nearest whole number that has at most 24 significant bits, and from the middle
to the even one of its two neighbours. Main statement: `representable_nearest`. -/

namespace Chip8.Single

def twoPow (k : Nat) : Nat := Nat.pow 2 k

theorem twoPow_pos (k : Nat) : 0 < twoPow k := Nat.two_pow_pos k

theorem twoPow_add (j k : Nat) : twoPow (j + k) = twoPow j * twoPow k := Nat.pow_add 2 j k

theorem twoPow_dvd {j k : Nat} (h : j ≤ k) : twoPow j ∣ twoPow k := Nat.pow_dvd_pow 2 h

theorem log2_twoPow (k : Nat) : (twoPow k).log2 = k := Nat.log2_two_pow

theorem log2_lt_iff {n k : Nat} (h : n ≠ 0) : n.log2 < k ↔ n < twoPow k := Nat.log2_lt h

def one : Nat := twoPow 149

def tooLarge : Nat := twoPow 128 * one

def excess (n : Nat) : Nat := n.log2 - 23

/-- The numbers that need at most 24 significant bits and stay below the least that is too large. -/
def Representable (n : Nat) : Prop := n < tooLarge ∧ n % twoPow (excess n) = 0

instance (n : Nat) : Decidable (Representable n) :=
  inferInstanceAs (Decidable (n < tooLarge ∧ n % twoPow (excess n) = 0))

/-- The whole number nearest to a quotient, the even one of two. -/
def roundEven (a b : Nat) : Nat :=
  if 2 * (a % b) < b ∨ 2 * (a % b) = b ∧ a / b % 2 = 0 then a / b else a / b + 1

def nearest (a b : Nat) : Nat :=
  roundEven a (b * twoPow (excess (a / b))) * twoPow (excess (a / b))

theorem roundEven_le (a b : Nat) : roundEven a b ≤ a / b + 1 := by
  unfold roundEven
  split <;> omega

theorem lt_twoPow_excess (n : Nat) : n < twoPow (24 + excess n) := by
  by_cases h : n = 0
  · subst h
    exact twoPow_pos _
  · rw [← log2_lt_iff h]
    unfold excess
    omega

theorem roundEven_excess_le (a b : Nat) :
    roundEven a (b * twoPow (excess (a / b))) ≤ twoPow 24 := by
  have hlt : a / b / twoPow (excess (a / b)) < twoPow 24 := by
    rw [Nat.div_lt_iff_lt_mul (twoPow_pos _), ← twoPow_add]
    exact lt_twoPow_excess _
  have hle := roundEven_le a (b * twoPow (excess (a / b)))
  rw [← Nat.div_div_eq_div_mul] at hle
  omega

theorem mul_twoPow_mod_excess {r e : Nat} (h : r ≤ twoPow 24) :
    r * twoPow e % twoPow (excess (r * twoPow e)) = 0 := by
  apply Nat.mod_eq_zero_of_dvd
  rcases Nat.lt_or_eq_of_le h with h | rfl
  · by_cases h0 : r * twoPow e = 0
    · rw [h0]
      exact Nat.dvd_zero _
    · have hlog : (r * twoPow e).log2 < 24 + e := by
        rw [log2_lt_iff h0, twoPow_add]
        exact Nat.mul_lt_mul_of_pos_right h (twoPow_pos e)
      exact Nat.dvd_trans (twoPow_dvd (by unfold excess; omega)) (Nat.dvd_mul_left ..)
  · rw [← twoPow_add, excess, log2_twoPow]
    exact twoPow_dvd (by omega)

theorem representable_nearest {a b : Nat} (h : nearest a b < tooLarge) :
    Representable (nearest a b) :=
  ⟨h, mul_twoPow_mod_excess (roundEven_excess_le a b)⟩

end Chip8.Single
