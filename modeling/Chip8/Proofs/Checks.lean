import Chip8.Bank
import Chip8.Memory
import Mathlib.Data.Nat.Bitwise

/-! Checks. Plain arithmetic and plain access to arrays break down outside their ranges, and each way
of doing so is a breach. A check passes exactly inside the range, and gives the plain result there. -/

namespace Chip8

inductive Breach
  | index (position size : Nat)
  | slice (start stop count : Nat)
  | nibble (value : UInt8)
  | overflow (value width : Nat)
  | division
  | shift (amount width : Nat)
deriving DecidableEq

abbrev Checked := Except Breach

namespace Checked

variable {α β : Type} {n i amount width value : Nat}

def countWidth : Nat := 64

def item (a : Vector α n) (i : Nat) : Checked α :=
  if h : i < n then .ok a[i] else .error (.index i n)

def setItem (a : Vector α n) (i : Nat) (x : α) : Checked (Vector α n) :=
  if h : i < n then .ok (a.set i x) else .error (.index i n)

def fit (width value : Nat) : Checked Nat :=
  if value < 2 ^ width then .ok value else .error (.overflow value width)

def add (width a b : Nat) : Checked Nat := fit width (a + b)

def mul (width a b : Nat) : Checked Nat := fit width (a * b)

def quotient (a b : Nat) : Checked Nat := if b = 0 then .error .division else .ok (a / b)

def remainder (a b : Nat) : Checked Nat := if b = 0 then .error .division else .ok (a % b)

def shiftRight (width value amount : Nat) : Checked Nat :=
  if amount < width then .ok (value >>> amount) else .error (.shift amount width)

/-- Bits that are pushed out at the top are lost, and this is no breach. -/
def shiftLeft (width value amount : Nat) : Checked Nat :=
  if amount < width then .ok (value <<< amount % 2 ^ width) else .error (.shift amount width)

def nibble (b : UInt8) : Checked Nibble :=
  (Nibble.ofByte b).mapError fun e => .nibble e.value

def lowNibble (b : UInt8) : Checked Nibble := nibble (b &&& 0x0F)

/-- Copy a block over the cells from `start` up to `stop`, which have to lie in memory and to be as
many as the block has. -/
def overlay (memory : Memory) (start stop : Nat) (block : Array UInt8) : Checked Memory :=
  if start ≤ stop ∧ stop ≤ Memory.size ∧ stop - start = block.size then
    .ok (memory.load start block)
  else
    .error (.slice start stop block.size)

def cell (b : Bank α) (k : Nibble) : Checked α := item b k.val

def setCell (b : Bank α) (k : Nibble) (x : α) : Checked (Bank α) := setItem b k.val x

def readByte (memory : Memory) (a : UInt16) : Checked UInt8 := item memory (a &&& 0x0FFF).toNat

def writeByte (memory : Memory) (a : UInt16) (b : UInt8) : Checked Memory :=
  setItem memory (a &&& 0x0FFF).toNat b

@[simp] theorem bind_ok (x : α) (f : α → Checked β) : (Except.ok x >>= f) = f x := rfl

@[simp] theorem pure_eq (x : α) : (pure x : Checked α) = .ok x := rfl

theorem item_eq_ok_iff {a : Vector α n} {x : α} : item a i = .ok x ↔ ∃ h : i < n, a[i] = x := by
  unfold item
  split <;> simp [*]

theorem setItem_eq_ok_iff {a b : Vector α n} {x : α} :
    setItem a i x = .ok b ↔ ∃ h : i < n, a.set i x = b := by
  unfold setItem
  split <;> simp [*]

theorem fit_eq_ok_iff {x : Nat} : fit width value = .ok x ↔ value < 2 ^ width ∧ value = x := by
  unfold fit
  split <;> simp [*]

theorem add_count {a b : Nat} (small : a + b < 2 ^ 64) : add countWidth a b = .ok (a + b) :=
  fit_eq_ok_iff.2 ⟨small, rfl⟩

theorem shiftRight_eq_ok_iff {x : Nat} :
    shiftRight width value amount = .ok x ↔ amount < width ∧ value >>> amount = x := by
  unfold shiftRight
  split <;> simp [*]

theorem shiftLeft_eq_ok_iff {x : Nat} :
    shiftLeft width value amount = .ok x ↔ amount < width ∧ value <<< amount % 2 ^ width = x := by
  unfold shiftLeft
  split <;> simp [*]

theorem shiftRight_byte (b : UInt8) (inside : amount < 8) :
    shiftRight 8 b.toNat amount = .ok (b >>> UInt8.ofNat amount).toNat := by
  refine shiftRight_eq_ok_iff.2 ⟨inside, ?_⟩
  rw [UInt8.toNat_shiftRight, UInt8.toNat_ofNat', Nat.mod_mod_of_dvd _ (by decide : 8 ∣ 2 ^ 8),
    Nat.mod_eq_of_lt inside]

theorem shiftLeft_byte (b : UInt8) (inside : amount < 8) :
    shiftLeft 8 b.toNat amount = .ok (b <<< UInt8.ofNat amount).toNat := by
  refine shiftLeft_eq_ok_iff.2 ⟨inside, ?_⟩
  rw [UInt8.toNat_shiftLeft, UInt8.toNat_ofNat', Nat.mod_mod_of_dvd _ (by decide : 8 ∣ 2 ^ 8),
    Nat.mod_eq_of_lt inside]

theorem nibble_eq_ok_iff {b : UInt8} {k : Nibble} : nibble b = .ok k ↔ b.toNat = k.val := by
  rw [← Nibble.ofByte_eq_ok_iff, nibble]
  cases Nibble.ofByte b <;> simp [Except.mapError]

example : nibble 0x10 = .error (.nibble 0x10) := rfl

@[simp] theorem item_fin (a : Vector α n) (k : Fin n) : item a k.val = .ok a[k] :=
  item_eq_ok_iff.2 ⟨k.isLt, rfl⟩

@[simp] theorem setItem_fin (a : Vector α n) (k : Fin n) (x : α) :
    setItem a k.val x = .ok (a.set k x) :=
  setItem_eq_ok_iff.2 ⟨k.isLt, rfl⟩

@[simp] theorem cell_eq (b : Bank α) (k : Nibble) : cell b k = .ok (b.get k) := item_fin b k

@[simp] theorem setCell_eq (b : Bank α) (k : Nibble) (x : α) : setCell b k x = .ok (b.set k x) :=
  setItem_fin b k x

theorem toNat_mask (a : UInt16) : (a &&& 0x0FFF).toNat = (Address.ofWord a).val :=
  Nat.and_two_pow_sub_one_eq_mod a.toNat 12

@[simp] theorem readByte_eq (memory : Memory) (a : UInt16) :
    readByte memory a = .ok (memory.read a) := by
  rw [readByte, toNat_mask]
  exact item_fin memory (Address.ofWord a)

@[simp] theorem writeByte_eq (memory : Memory) (a : UInt16) (b : UInt8) :
    writeByte memory a b = .ok (memory.write a b) := by
  rw [writeByte, toNat_mask]
  exact setItem_fin memory (Address.ofWord a) b

theorem overlay_eq {start : Nat} {block : Array UInt8} (memory : Memory)
    (inside : start + block.size ≤ Memory.size) :
    overlay memory start (start + block.size) block = .ok (memory.load start block) :=
  if_pos ⟨Nat.le_add_right .., inside, Nat.add_sub_cancel_left ..⟩

@[simp] theorem lowNibble_eq (b : UInt8) : lowNibble b = .ok (Nibble.low b) :=
  nibble_eq_ok_iff.2 (Nat.and_two_pow_sub_one_eq_mod b.toNat 4)

end Checked

end Chip8
