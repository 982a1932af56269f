import Chip8.Single.Rounding

/-! Small amounts that rounding takes back. A number of 24 significant bits absorbs an amount when the
rounded difference is the number again. It does so when the amount is at most a quarter of its last
place, it can do so only up to half of it, and between the two the parity of the last bit decides. So a
number that does not absorb an amount, and the rounded difference neither, leaves no number below that
does: `not_absorbs_below`. -/

namespace Chip8.Single

variable {n q x f c : Nat}

def Absorbs (n q : Nat) : Prop := nearest (n - q) 1 = n

theorem nearest_one (x : Nat) :
    nearest x 1 = roundEven x (twoPow (excess x)) * twoPow (excess x) := by
  simp only [nearest, Nat.div_one, Nat.one_mul]

theorem log2_le_log2 (h : x ≤ n) : x.log2 ≤ n.log2 := by
  rcases Nat.eq_zero_or_pos x with rfl | pos
  · exact Nat.zero_le _
  · have hx : x ≠ 0 := Nat.ne_of_gt pos
    have hn : n ≠ 0 := Nat.ne_of_gt (Nat.lt_of_lt_of_le pos h)
    refine Nat.le_of_lt_succ ((log2_lt_iff hx).2 (Nat.lt_of_le_of_lt h ?_))
    exact (log2_lt_iff hn).1 (Nat.lt_succ_self _)

theorem excess_mono (h : x ≤ n) : excess x ≤ excess n := Nat.sub_le_sub_right (log2_le_log2 h) 23

theorem twoPow_le_of_excess (h : 0 < excess n) : twoPow (23 + excess n) ≤ n := by
  have hn : n ≠ 0 := by
    rintro rfl
    exact absurd h (by decide)
  refine Nat.le_of_not_lt fun below => ?_
  have := (log2_lt_iff hn).2 below
  unfold excess at h this
  omega

theorem excess_eq (low : twoPow (23 + f) ≤ x) (high : x < twoPow (24 + f)) : excess x = f := by
  have hx : x ≠ 0 := Nat.ne_of_gt (Nat.lt_of_lt_of_le (twoPow_pos _) low)
  have above := (log2_lt_iff hx).2 high
  have below := mt (log2_lt_iff hx).1 (Nat.not_lt_of_le low)
  unfold excess
  omega

theorem roundEven_error (a b : Nat) : 2 * (roundEven a b * b) ≤ 2 * a + b := by
  have parts := Nat.div_add_mod a b
  rw [Nat.mul_comm b] at parts
  unfold roundEven
  split
  · omega
  · rename_i up
    rw [Nat.add_mul, Nat.one_mul]
    omega

theorem nearest_error (x : Nat) : 2 * nearest x 1 ≤ 2 * x + twoPow (excess x) := by
  rw [nearest_one]
  exact roundEven_error _ _

theorem roundEven_le_of_le_mul {a b k : Nat} (pos : 0 < b) (h : a ≤ b * k) : roundEven a b ≤ k := by
  have quotient : a / b ≤ k := Nat.div_le_of_le_mul h
  unfold roundEven
  split
  · exact quotient
  · rename_i up
    -- a multiple of the divisor would not be rounded up
    have inexact : a ≠ b * k := by
      rintro rfl
      simp only [Nat.mul_mod_right, Nat.mul_zero, pos, true_or, not_true_eq_false] at up
    refine Nat.lt_of_le_of_ne quotient fun same => inexact ?_
    refine Nat.le_antisymm h ?_
    rw [← same]
    exact Nat.mul_div_le a b

theorem nearest_le (short : n % twoPow (excess n) = 0) (h : x ≤ n) : nearest x 1 ≤ n := by
  obtain ⟨k, multiple⟩ : twoPow (excess x) ∣ n :=
    Nat.dvd_trans (twoPow_dvd (excess_mono h)) (Nat.dvd_of_mod_eq_zero short)
  rw [nearest_one]
  calc roundEven x (twoPow (excess x)) * twoPow (excess x)
    _ ≤ k * twoPow (excess x) :=
      Nat.mul_le_mul_right _ (roundEven_le_of_le_mul (twoPow_pos _) (multiple ▸ h))
    _ = n := by rw [multiple, Nat.mul_comm]

theorem nearest_below (place : excess ((c + 1) * twoPow f - q) = f) (pos : 0 < q)
    (half : 2 * q ≤ twoPow f) :
    nearest ((c + 1) * twoPow f - q) 1 =
      if 2 * q = twoPow f ∧ c % 2 = 0 then c * twoPow f else (c + 1) * twoPow f := by
  have split : (c + 1) * twoPow f - q = twoPow f * c + (twoPow f - q) := by
    rw [Nat.add_mul, Nat.one_mul, Nat.mul_comm c]
    omega
  have below : twoPow f - q < twoPow f := by omega
  rw [nearest_one, place, split, roundEven, Nat.mul_add_mod, Nat.mul_add_div (twoPow_pos f),
    Nat.mod_eq_of_lt below, Nat.div_eq_of_lt below, Nat.add_zero]
  have tie : (2 * (twoPow f - q) < twoPow f ∨ 2 * (twoPow f - q) = twoPow f ∧ c % 2 = 0) ↔
      2 * q = twoPow f ∧ c % 2 = 0 := by omega
  simp only [tie]
  split <;> rfl

theorem half_of_absorbs (fits : q ≤ n) (h : Absorbs n q) :
    2 * q ≤ twoPow (excess n) := by
  have error := nearest_error (n - q)
  have place : twoPow (excess (n - q)) ≤ twoPow (excess n) :=
    Nat.le_of_dvd (twoPow_pos _) (twoPow_dvd (excess_mono (Nat.sub_le n q)))
  rw [h] at error
  omega

theorem excess_pos_of_half (pos : 0 < q) (half : 2 * q ≤ twoPow f) : 0 < f := by
  refine Nat.pos_of_ne_zero ?_
  rintro rfl
  have one : twoPow 0 = 1 := rfl
  omega

theorem exists_multiple (short : n % twoPow (excess n) = 0) (large : 0 < excess n) :
    ∃ c, n = (c + 1) * twoPow (excess n) := by
  obtain ⟨k, multiple⟩ := Nat.dvd_of_mod_eq_zero short
  cases k with
  | zero =>
    have none : n = 0 := by rw [multiple, Nat.mul_zero]
    rw [none] at large
    exact absurd large (by decide)
  | succ c => exact ⟨c, by rw [Nat.mul_comm]; exact multiple⟩

theorem absorbs_of_place (multiple : n = (c + 1) * twoPow f) (place : excess (n - q) = f)
    (pos : 0 < q) (half : 2 * q ≤ twoPow f) (even : 2 * q = twoPow f → c % 2 = 1) :
    Absorbs n q := by
  subst multiple
  rw [Absorbs, nearest_below place pos half, if_neg]
  rintro ⟨tie, odd⟩
  rw [even tie] at odd
  cases odd

theorem twoPow_succ (k : Nat) : twoPow (k + 1) = 2 * twoPow k := by
  rw [twoPow_add, Nat.mul_comm]
  rfl

theorem absorbs_of_quarter (short : n % twoPow (excess n) = 0) (pos : 0 < q)
    (quarter : 4 * q ≤ twoPow (excess n)) : Absorbs n q := by
  have large : 0 < excess n := excess_pos_of_half pos (by omega)
  obtain ⟨c, multiple⟩ := exists_multiple short large
  have low := twoPow_le_of_excess large
  have high := lt_twoPow_excess n
  by_cases same : twoPow (23 + excess n) ≤ n - q
  · have place : excess (n - q) = excess n := excess_eq same (by omega)
    exact absorbs_of_place multiple place pos (by omega) (by omega)
  · -- the difference has a finer last place, of which the number is an even multiple
    obtain ⟨f, hf⟩ : ∃ f, excess n = f + 1 := ⟨excess n - 1, by omega⟩
    have next : 23 + (f + 1) = 24 + f := by omega
    have double : twoPow (24 + f) = 2 * twoPow (23 + f) := by rw [← twoPow_succ, Nat.add_assoc, next]
    have finer : twoPow f ≤ twoPow (23 + f) :=
      Nat.le_of_dvd (twoPow_pos _) (twoPow_dvd (Nat.le_add_left f 23))
    rw [hf, next, double] at low same
    rw [hf, twoPow_succ] at quarter multiple
    have place : excess (n - q) = f := excess_eq (by omega) (by omega)
    have even : n = (2 * c + 1 + 1) * twoPow f := by
      rw [multiple, ← Nat.mul_assoc, Nat.mul_comm (c + 1) 2]
      rfl
    exact absorbs_of_place even place pos (by omega) (by omega)

theorem tie_of_not_absorbs (multiple : n = (c + 1) * twoPow f) (place : excess (n - q) = f)
    (pos : 0 < q) (half : 2 * q ≤ twoPow f) (moves : ¬Absorbs n q) :
    2 * q = twoPow f ∧ c % 2 = 0 ∧ nearest (n - q) 1 = c * twoPow f := by
  subst multiple
  have rounded := nearest_below place pos half
  split at rounded
  · rename_i tie
    exact ⟨tie.1, tie.2, rounded⟩
  · exact absurd rounded moves

theorem add_le_of_mul_lt {i j w : Nat} (h : i * w < j * w) : i * w + w ≤ j * w := by
  have less : i < j := Nat.lt_of_mul_lt_mul_right h
  calc i * w + w
    _ = (i + 1) * w := (Nat.succ_mul i w).symm
    _ ≤ j * w := Nat.mul_le_mul_right w less

/-- When a number does not absorb an amount and the rounded difference does not absorb it either, then
nothing below does. -/
theorem not_absorbs_below {k : Nat} (short : n % twoPow (excess n) = 0)
    (short' : k % twoPow (excess k) = 0) (pos : 0 < q) (first : ¬Absorbs n q)
    (second : ¬Absorbs (nearest (n - q) 1) q) (below : k < nearest (n - q) 1) (fits : q ≤ k) :
    ¬Absorbs k q := by
  intro absorbs
  have half := half_of_absorbs fits absorbs
  have large := excess_pos_of_half pos half
  have less : k < n := Nat.lt_of_lt_of_le below (nearest_le short (Nat.sub_le n q))
  -- a number with a coarser last place would absorb the amount
  have same : excess n = excess k := by
    refine Nat.le_antisymm (Nat.le_of_not_lt fun coarser => first ?_) (excess_mono (by omega))
    have coarse := Nat.le_of_dvd (twoPow_pos _) (twoPow_dvd coarser)
    rw [twoPow_succ] at coarse
    exact absorbs_of_quarter short pos (by omega)
  have low := twoPow_le_of_excess large
  have high := same ▸ lt_twoPow_excess n
  obtain ⟨a, ha⟩ := exists_multiple short (same ▸ large)
  obtain ⟨c, hc⟩ := exists_multiple short' large
  rw [same] at ha
  -- so it has lost half of its last place, and what is left is even in it
  have apart : (c + 1) * twoPow (excess k) + twoPow (excess k) ≤ (a + 1) * twoPow (excess k) :=
    add_le_of_mul_lt (by omega)
  have place : excess (n - q) = excess k := excess_eq (by omega) (by omega)
  obtain ⟨-, even, rounded⟩ := tie_of_not_absorbs ha place pos half first
  rw [rounded] at second below
  have last : (a + 1) * twoPow (excess k) = a * twoPow (excess k) + twoPow (excess k) :=
    Nat.succ_mul a _
  have apart' : (c + 1) * twoPow (excess k) + twoPow (excess k) ≤ a * twoPow (excess k) :=
    add_le_of_mul_lt (by omega)
  have place' : excess (a * twoPow (excess k) - q) = excess k := excess_eq (by omega) (by omega)
  cases a with
  | zero => omega
  | succ b => exact second (absorbs_of_place rfl place' pos half (by omega))

theorem le_of_absorbs (pos : 0 < q) (fits : q ≤ n) (h : Absorbs n q) : twoPow 24 * q ≤ n := by
  have half := half_of_absorbs fits h
  calc twoPow 24 * q
    _ = twoPow 23 * (2 * q) := by rw [twoPow_succ 23, Nat.mul_comm 2, Nat.mul_assoc]
    _ ≤ twoPow 23 * twoPow (excess n) := Nat.mul_le_mul_left _ half
    _ = twoPow (23 + excess n) := (twoPow_add ..).symm
    _ ≤ n := twoPow_le_of_excess (excess_pos_of_half pos half)

theorem absorbs_of_le (short : n % twoPow (excess n) = 0) (pos : 0 < q) (h : twoPow 25 * q ≤ n) :
    Absorbs n q := by
  have high := lt_twoPow_excess n
  have half : 2 * q < twoPow (excess n) := by
    rw [twoPow_succ 24, Nat.mul_comm 2, Nat.mul_assoc] at h
    rw [twoPow_add] at high
    exact Nat.lt_of_mul_lt_mul_left (Nat.lt_of_le_of_lt h high)
  have large := excess_pos_of_half pos (Nat.le_of_lt half)
  obtain ⟨c, multiple⟩ := exists_multiple short large
  by_cases same : twoPow (23 + excess n) ≤ n - q
  · have place : excess (n - q) = excess n := excess_eq same (by omega)
    exact absorbs_of_place multiple place pos (by omega) (by omega)
  · -- only the least number with this last place has a difference with a finer one
    have low := twoPow_le_of_excess large
    rw [twoPow_add] at low same
    have least : n ≤ twoPow 23 * twoPow (excess n) := by
      refine Nat.le_of_not_lt fun more => ?_
      have apart : twoPow 23 * twoPow (excess n) + twoPow (excess n) ≤ (c + 1) * twoPow (excess n) :=
        add_le_of_mul_lt (by omega)
      omega
    have parts : twoPow 25 * q = twoPow 23 * (4 * q) := by
      rw [twoPow_add 23 2, Nat.mul_assoc]
      rfl
    rw [parts] at h
    exact absorbs_of_quarter short pos
      (Nat.le_of_mul_le_mul_left (Nat.le_trans h least) (twoPow_pos 23))

end Chip8.Single
