import Chip8.Proofs.Entitlement

/-! Operations between registers in exact numbers. Bytes count as the numbers below 256. The first
register receives the exact result modulo 256, and the flag tells what that leaves out: a carry, that
nothing was borrowed, or the bit that a shift pushes out. Operands are read before anything is written
and the flag is written last, so the numbers hold whichever of the registers are the same. -/

namespace Chip8

namespace Operation

/-- The result of an operation on two numbers. A shift takes the one that is `moved`. -/
def exact (a b moved : Nat) : Operation → Int
  | set => b
  | or => (a ||| b : Nat)
  | and => (a &&& b : Nat)
  | xor => (a ^^^ b : Nat)
  | add => a + b
  | sub => a - b
  | shiftRight => moved / 2
  | subReverse => b - a
  | shiftLeft => 2 * moved

def exactFlag? (clears : Bool) (a b moved : Nat) : Operation → Option Nat
  | set => none
  | or | and | xor => if clears then some 0 else none
  | add => some (if 255 < a + b then 1 else 0)
  | sub => some (if b ≤ a then 1 else 0)
  | shiftRight => some (moved % 2)
  | subReverse => some (if a ≤ b then 1 else 0)
  | shiftLeft => some (moved / 128)

variable (a b c : UInt8)

theorem toNat_flagByte (on : Bool) : (flagByte on).toNat = if on then 1 else 0 := by
  cases on <;> rfl

theorem carry_iff : a + b < a ↔ 255 < a.toNat + b.toNat := by
  have ha := a.toNat_lt
  have hb := b.toNat_lt
  rw [UInt8.lt_iff_toNat_lt, UInt8.toNat_add]
  omega

theorem toNat_shiftRight_one : (c >>> 1).toNat = c.toNat / 2 := by
  rw [UInt8.toNat_shiftRight, Nat.shiftRight_eq_div_pow]
  rfl

theorem toNat_shiftRight_seven : (c >>> 7).toNat = c.toNat / 128 := by
  rw [UInt8.toNat_shiftRight, Nat.shiftRight_eq_div_pow]
  rfl

theorem toNat_shiftLeft_one : (c <<< 1).toNat = 2 * c.toNat % 256 := by
  rw [UInt8.toNat_shiftLeft, Nat.shiftLeft_eq, Nat.mul_comm]
  rfl

theorem low_bit_iff : c &&& 1 = 1 ↔ c.toNat % 2 = 1 := by
  have low : (c &&& 1).toNat = c.toNat % 2 := Nat.and_two_pow_sub_one_eq_mod _ 1
  rw [← UInt8.toNat_inj, low]
  rfl

theorem high_bit_iff : c >>> 7 = 1 ↔ c.toNat / 128 = 1 := by
  rw [← UInt8.toNat_inj, toNat_shiftRight_seven]
  rfl

theorem toNat_eq_mod : (c.toNat : Int) = (c.toNat : Int) % 256 := by
  have hc := c.toNat_lt
  omega

theorem value_apply (d : Dialect) (op : Operation) :
    ((op.apply d a b).1.toNat : Int) =
      op.exact a.toNat b.toNat (d.shifted a b).toNat % 256 := by
  have ha := a.toNat_lt
  have hb := b.toNat_lt
  have hs := (d.shifted a b).toNat_lt
  cases op with
  | set | or | and | xor => exact toNat_eq_mod _
  | add =>
    simp only [apply, exact, UInt8.toNat_add]
    omega
  | sub | subReverse =>
    simp only [apply, exact, UInt8.toNat_sub]
    omega
  | shiftRight =>
    simp only [apply, exact, toNat_shiftRight_one]
    omega
  | shiftLeft =>
    simp only [apply, exact, toNat_shiftLeft_one]
    omega

theorem flag_apply_exact (d : Dialect) (op : Operation) :
    (op.apply d a b).2.map (fun on => (flagByte on).toNat) =
      op.exactFlag? d.logicClearsFlag a.toNat b.toNat (d.shifted a b).toNat := by
  have hs := (d.shifted a b).toNat_lt
  cases op with
  | set => rfl
  | or | and | xor =>
    simp only [apply, exactFlag?, Dialect.logicFlag]
    split <;> rfl
  | add => simp [apply, exactFlag?, toNat_flagByte, carry_iff]
  | sub | subReverse => simp [apply, exactFlag?, toNat_flagByte, UInt8.le_iff_toNat_le]
  | shiftRight =>
    simp only [apply, exactFlag?, Option.map_some, toNat_flagByte, decide_eq_true_eq, low_bit_iff]
    split <;> congr 1 <;> omega
  | shiftLeft =>
    simp only [apply, exactFlag?, Option.map_some, toNat_flagByte, decide_eq_true_eq, high_bit_iff]
    split <;> congr 1 <;> omega

theorem toNat_shifted (d : Dialect) :
    (d.shifted a b).toNat = if d.shiftReadsSecond then b.toNat else a.toNat := by
  unfold Dialect.shifted
  split <;> rfl

end Operation

namespace Registers

variable {v : Registers} {d : Dialect} {op : Operation} {x y k : Nibble} {f : Nat}

def exactFlag? (v : Registers) (d : Dialect) (op : Operation) (x y : Nibble) : Option Nat :=
  let a := (v.get x).toNat
  let b := (v.get y).toNat
  op.exactFlag? d.logicClearsFlag a b (if d.shiftReadsSecond then b else a)

theorem exactFlag_eq : v.exactFlag? d op x y =
    (op.apply d (v.get x) (v.get y)).2.map fun on => (flagByte on).toNat := by
  rw [Operation.flag_apply_exact, Operation.toNat_shifted, exactFlag?]

theorem combine_eq_setFlag : v.combine d op x y =
    setFlag (v.set x (op.apply d (v.get x) (v.get y)).1) (op.apply d (v.get x) (v.get y)).2 := rfl

theorem get_combine_flag (flagged : v.exactFlag? d op x y = some f) :
    ((v.combine d op x y).get flagRegister).toNat = f := by
  rw [exactFlag_eq, Option.map_eq_some_iff] at flagged
  obtain ⟨on, flag, rfl⟩ := flagged
  rw [combine_eq_setFlag, flag]
  exact congrArg UInt8.toNat ((Bank.get_set ..).trans (if_pos rfl))

theorem get_combine (spared : v.exactFlag? d op x y = none ∨ k ≠ flagRegister) :
    (v.combine d op x y).get k =
      if x = k then (op.apply d (v.get x) (v.get y)).1 else v.get k := by
  rw [exactFlag_eq, Option.map_eq_none_iff] at spared
  refine (get_setFlag _ fun same => ?_).trans (Bank.get_set ..)
  exact spared.resolve_right (not_not_intro same)

end Registers

namespace Machine

/-- Operations between registers in exact numbers, whichever of the registers are the same. The flag
register ends with the flag of the operation if it has one, and any other first register with the exact
result modulo 256. Result and flag together give back the sum, the difference and the number that was
shifted. -/
theorem operations_exact (m : Machine) (op : Operation) (x y : Nibble) :
    let a := (m.registers.get x).toNat
    let b := (m.registers.get y).toNat
    let moved := if m.dialect.shiftReadsSecond then b else a
    let flag := op.exactFlag? m.dialect.logicClearsFlag a b moved
    let after := (m.execute (.combine op x y)).1.registers
    let value := (after.get x).toNat
    let mark := (after.get flagRegister).toNat
    m.execute (.combine op x y) = ({ m with pc := m.pc + 2, registers := after }, .ok .proceed) ∧
    (m.pending? = some (.combine op x y) → m.step = m.execute (.combine op x y)) ∧
    (∀ f, flag = some f → mark = f) ∧
    (flag = none ∨ x ≠ flagRegister → (value : Int) = op.exact a b moved % 256) ∧
    (∀ k, k ≠ x → flag = none ∨ k ≠ flagRegister → after.get k = m.registers.get k) ∧
    (x ≠ flagRegister →
      (op = .add → 256 * mark + value = a + b) ∧
      (op = .sub → (value : Int) = a - b + 256 * (1 - mark)) ∧
      (op = .shiftRight → 2 * value + mark = moved) ∧
      (op = .shiftLeft → 256 * mark + value = 2 * moved)) := by
  intro a b moved flag after value mark
  have marked : ∀ f, flag = some f → mark = f := fun f => Registers.get_combine_flag
  have valued : flag = none ∨ x ≠ flagRegister → (value : Int) = op.exact a b moved % 256 := by
    intro spared
    have stored : after.get x = (op.apply m.dialect (m.registers.get x) (m.registers.get y)).1 :=
      (Registers.get_combine spared).trans (if_pos rfl)
    simp only [value, stored, Operation.value_apply, Operation.toNat_shifted, a, b, moved]
  have ha : a < 256 := (m.registers.get x).toNat_lt
  have hb : b < 256 := (m.registers.get y).toNat_lt
  have hmoved : moved < 256 := by
    simp only [moved]
    split <;> assumption
  refine ⟨rfl, fun pending => step_of_pending pending rfl, marked, valued, ?_, ?_⟩
  · intro k other spared
    exact (Registers.get_combine spared).trans (if_neg other.symm)
  · intro apart
    have result := valued (.inr apart)
    refine ⟨?_, ?_, ?_, ?_⟩
    · rintro rfl
      have carry : mark = if 255 < a + b then 1 else 0 := marked _ rfl
      simp only [Operation.exact] at result
      split at carry <;> omega
    · rintro rfl
      have unborrowed : mark = if b ≤ a then 1 else 0 := marked _ rfl
      simp only [Operation.exact] at result
      split at unborrowed <;> omega
    · rintro rfl
      have lost : mark = moved % 2 := marked _ rfl
      simp only [Operation.exact] at result
      omega
    · rintro rfl
      have lost : mark = moved / 128 := marked _ rfl
      simp only [Operation.exact] at result
      omega

theorem operations_exact_flag_operand :
    let m := { loaded .plain (.ofSeed 0) #[0x83, 0xF4] with registers := (Bank.fill 100).set 3 200 }
    let after := (m.execute (.combine .add 3 15)).1.registers
    m.pending? = some (.combine .add 3 15) ∧ m.step = m.execute (.combine .add 3 15) ∧
      (3 : Nibble) ≠ flagRegister ∧ (after.get flagRegister).toNat = 1 ∧
      (after.get 3).toNat = 44 ∧ (after.get 5).toNat = 100 := by
  intro m after
  have first : m.registers.get 3 = 200 := Bank.get_set ..
  have second : m.registers.get 15 = 100 := Bank.get_set ..
  have pending : m.pending? = some (.combine .add 3 15) :=
    pending_of_image (k := 0) (by decide) rfl rfl rfl rfl rfl rfl (by decide)
  have apart : (3 : Nibble) ≠ flagRegister := by decide
  obtain ⟨-, stepped, marked, -, kept, recovered⟩ := operations_exact m .add 3 15
  have carry : (after.get flagRegister).toNat = 1 := by
    refine marked 1 ?_
    rw [first, second]
    rfl
  have total := (recovered apart).1 rfl
  rw [first, second, carry] at total
  have other : after.get 5 = 100 := by
    refine (kept 5 (by decide) (.inr (by decide))).trans ?_
    exact Bank.get_set ..
  exact ⟨pending, stepped pending, apart, carry, Nat.add_left_cancel total, congrArg _ other⟩

end Machine

end Chip8
