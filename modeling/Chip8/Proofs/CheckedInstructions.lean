import Chip8.Instruction.Word
import Chip8.Machine.Execute
import Chip8.Proofs.CheckedScreen
import Mathlib.Tactic.FinCases

/-! Checked instructions. A word is read and an instruction carried out once more, with a check at each
plain operation. All checks pass, whatever the word and the machine, and the outcome is the same. -/

namespace Chip8.Checked

section Decoding

open Instruction Word

def digitByte (w mask : UInt16) (amount : Nat) : Checked UInt8 := do
  return UInt8.ofNat (← shiftRight 16 (w &&& mask).toNat amount)

def decode (w : UInt16) : Checked (Option Instruction) := do
  let head ← digitByte w 0xF000 12
  let x ← nibble (← digitByte w 0x0F00 8)
  let y ← nibble (← digitByte w 0x00F0 4)
  let tail ← nibble (w &&& 0x000F).toUInt8
  let byte := (w &&& 0x00FF).toUInt8
  let target := Address.ofWord w
  return match head.toNat with
    | 0x0 => decodeBare w
    | 0x1 => some (jump target)
    | 0x2 => some (call target)
    | 0x3 => some (skipEqualByte x byte)
    | 0x4 => some (skipNotEqualByte x byte)
    | 0x5 => if tail = 0 then some (skipEqual x y) else none
    | 0x6 => some (setByte x byte)
    | 0x7 => some (addByte x byte)
    | 0x8 => (Operation.ofDigit tail).map (combine · x y)
    | 0x9 => if tail = 0 then some (skipNotEqual x y) else none
    | 0xA => some (setIndex target)
    | 0xB => some (jumpOffset target)
    | 0xC => some (random x byte)
    | 0xD => some (draw x y tail)
    | 0xE => decodeKey x byte
    | 0xF => decodeUnary x byte
    | _ => none

theorem toNat_digit {w mask : UInt16} {place : Nat} (h : mask.toNat >>> (4 * place) = 15) :
    (w &&& mask).toNat >>> (4 * place) = (digit w place).val := by
  rw [UInt16.toNat_and, Nat.shiftRight_and_distrib, h]
  exact Nat.and_two_pow_sub_one_eq_mod _ 4

theorem digitByte_eq {w mask : UInt16} {place : Nat} (h : mask.toNat >>> (4 * place) = 15)
    (inside : place < 4) : digitByte w mask (4 * place) = .ok (digit w place).toByte := by
  have shifted := shiftRight_eq_ok_iff.2 ⟨(by omega : 4 * place < 16), toNat_digit (w := w) h⟩
  rw [digitByte, shifted]
  rfl

theorem decode_eq (w : UInt16) : decode w = .ok (Instruction.decode w) := by
  have head : digitByte w 0xF000 (4 * 3) = .ok (digit w 3).toByte := digitByte_eq rfl (by decide)
  have second : digitByte w 0x0F00 (4 * 2) = .ok (digit w 2).toByte :=
    digitByte_eq rfl (by decide)
  have third : digitByte w 0x00F0 (4 * 1) = .ok (digit w 1).toByte := digitByte_eq rfl (by decide)
  have tail : (w &&& 0x000F).toNat >>> (4 * 0) = (digit w 0).val := toNat_digit rfl
  have last : (w &&& 0x000F).toUInt8 = (digit w 0).toByte := congrArg UInt8.ofNat tail
  have byte : (w &&& 0x00FF).toUInt8 = Word.byte w := by
    apply UInt8.toNat_inj.1
    have masked : (w &&& 0x00FF).toNat = w.toNat % 256 := Nat.and_two_pow_sub_one_eq_mod _ 8
    rw [UInt16.toNat_toUInt8, masked, Word.byte, UInt8.toNat_ofNat', Nat.mod_mod]
  have small (k : Nibble) : nibble k.toByte = .ok k := nibble_eq_ok_iff.2 (Nibble.toNat_toByte k)
  simp only [decode, head, second, third, last, byte, bind_ok, small, pure_eq, Nibble.toNat_toByte]
  unfold Instruction.decode
  -- with the digits known, the two tables agree row by row
  generalize digit w 3 = k
  fin_cases k <;> rfl

end Decoding

section Execution

def setRegister (m : Machine) (x : Nibble) (b : UInt8) : Checked Machine := do
  return { m with registers := ← setCell m.registers x b }

def setFlag (m : Machine) : Option Bool → Checked Machine
  | none => return m
  | some on => setRegister m flagRegister (flagByte on)

def shiftSource (m : Machine) (x y : Nibble) : Checked UInt8 :=
  if m.dialect.shiftReadsSecond then cell m.registers y else cell m.registers x

def combine (m : Machine) (x y : Nibble) : Operation → Checked Machine
  | .set => do setRegister m x (← cell m.registers y)
  | .shiftRight => do
    let source ← shiftSource m x y
    let m ← setRegister m x (UInt8.ofNat (← shiftRight 8 source.toNat 1))
    setRegister m flagRegister (source &&& 1)
  | .shiftLeft => do
    let source ← shiftSource m x y
    let m ← setRegister m x (UInt8.ofNat (← shiftLeft 8 source.toNat 1))
    setRegister m flagRegister (UInt8.ofNat (← shiftRight 8 source.toNat 7) &&& 1)
  | op => do
    let (value, flag) := op.apply m.dialect (← cell m.registers x) (← cell m.registers y)
    setFlag (← setRegister m x value) flag

def draw (m : Machine) (x y height : Nibble) : Checked Machine := do
  let left ← remainder (← cell m.registers x).toNat 64
  let top ← remainder (← cell m.registers y).toNat 32
  let (display, erased) ←
    drawRows m.dialect.wrapSprites top left m.memory m.index height.val m.display
  let registers ← setCell m.registers flagRegister (flagByte erased)
  return { m with display, registers }

def keyDown (m : Machine) (x : Nibble) : Checked Bool := do
  cell m.keypad (← lowNibble (← cell m.registers x))

def jumpDistance (m : Machine) (base : Address) : Checked UInt16 := do
  if m.dialect.offsetReadsNamed then return (← cell m.registers base.register).toUInt16
  else return (← cell m.registers 0).toUInt16

def addIndex (m : Machine) (x : Nibble) : Checked Machine := do
  let sum := m.index + (← cell m.registers x).toUInt16
  if m.dialect.indexOverflowSetsFlag then
    let m ← setRegister m flagRegister (flagByte (0xFFF < sum))
    return { m with index := sum }
  else
    return { m with index := sum }

def glyphAddress (b : UInt8) : Checked UInt16 := do
  let offset ← mul countWidth (b &&& 0x0F).toNat Font.glyphSize
  return UInt16.ofNat (← add countWidth Font.base offset)

def storeDecimal (m : Machine) (b : UInt8) : Checked Machine := do
  let memory ← writeByte m.memory m.index (UInt8.ofNat (← quotient b.toNat 100))
  let memory ←
    writeByte memory (m.index + 1) (UInt8.ofNat (← remainder (← quotient b.toNat 10) 10))
  let memory ← writeByte memory (m.index + 2) (UInt8.ofNat (← remainder b.toNat 10))
  return { m with memory }

def moveIndex (m : Machine) (last : Nibble) : Checked Machine := do
  if m.dialect.transferMovesIndex then
    return { m with index := m.index + UInt16.ofNat (← add 16 last.val 1) }
  else
    return m

def storeRegisters (m : Machine) (last : Nibble) : Checked Machine := do
  let store (memory : Memory) (k : Nat) : Checked Memory := do
    writeByte memory (m.index + UInt16.ofNat k) (← item m.registers k)
  let memory ← (List.range (last.val + 1)).foldlM store m.memory
  moveIndex { m with memory } last

def loadRegisters (m : Machine) (last : Nibble) : Checked Machine := do
  let load (registers : Registers) (k : Nat) : Checked Registers := do
    setItem registers k (← readByte m.memory (m.index + UInt16.ofNat k))
  let registers ← (List.range (last.val + 1)).foldlM load m.registers
  moveIndex { m with registers } last

/-- Instructions that only move words and bytes about, and those that work on the list of return
addresses, have nothing to check. -/
def carryOut (m : Machine) (origin : UInt16) :
    Instruction → Checked (Machine × Except Fault Outcome)
  | .skipEqualByte x b => do return (m.skipIf ((← cell m.registers x) = b)).proceed
  | .skipNotEqualByte x b => do return (m.skipIf ((← cell m.registers x) ≠ b)).proceed
  | .skipEqual x y => do
    return (m.skipIf ((← cell m.registers x) = (← cell m.registers y))).proceed
  | .skipNotEqual x y => do
    return (m.skipIf ((← cell m.registers x) ≠ (← cell m.registers y))).proceed
  | .setByte x b => do return (← setRegister m x b).proceed
  | .addByte x b => do return (← setRegister m x ((← cell m.registers x) + b)).proceed
  | .combine op x y => do return (← combine m x y op).proceed
  | .jumpOffset base => do
    return { m with pc := base.toWord + (← jumpDistance m base) }.proceed
  | .random x mask => do
    return { (← setRegister m x (m.random.next &&& mask)) with random := m.random.skip }.proceed
  | .draw x y height => do return (← draw m x y height, .ok .endOfFrame)
  | .skipPressed x => do return (m.skipIf (← keyDown m x)).proceed
  | .skipNotPressed x => do return (m.skipIf (!(← keyDown m x))).proceed
  | .readDelay x => do return (← setRegister m x m.delay).proceed
  | .setDelay x => do return { m with delay := ← cell m.registers x }.proceed
  | .setSound x => do return { m with sound := ← cell m.registers x }.proceed
  | .addIndex x => do return (← addIndex m x).proceed
  | .pointGlyph x => do
    return { m with index := ← glyphAddress (← cell m.registers x) }.proceed
  | .storeDecimal x => do return (← storeDecimal m (← cell m.registers x)).proceed
  | .storeRegisters last => do return (← storeRegisters m last).proceed
  | .loadRegisters last => do return (← loadRegisters m last).proceed
  | i@.clearDisplay | i@.ret | i@.exit | i@(.jump _) | i@(.call _) | i@(.setIndex _)
  | i@(.waitKey _) => return m.carryOut origin i

variable (m : Machine) (x y last : Nibble)

@[simp] theorem setRegister_eq (b : UInt8) : setRegister m x b = .ok (m.setRegister x b) := by
  simp [setRegister, Machine.setRegister]

@[simp] theorem shiftSource_eq : shiftSource m x y =
    .ok (m.dialect.shifted (m.registers.get x) (m.registers.get y)) := by
  unfold shiftSource Dialect.shifted
  split <;> simp

@[simp] theorem setFlag_eq (flag : Option Bool) :
    setFlag m flag = .ok { m with registers := Registers.setFlag m.registers flag } := by
  cases flag
  · rfl
  · exact setRegister_eq m flagRegister _

theorem flagByte_of_small {b : UInt8} (small : b.toNat < 2) : flagByte (b = 1) = b := by
  have cases : b = 0 ∨ b = 1 := by
    simp only [← UInt8.toNat_inj, UInt8.reduceToNat]
    omega
  rcases cases with rfl | rfl <;> rfl

theorem flagByte_low_bit (b : UInt8) : flagByte (b &&& 1 = 1) = b &&& 1 :=
  flagByte_of_small (Nat.lt_succ_of_le Nat.and_le_right)

theorem flagByte_high_bit (b : UInt8) : flagByte (b >>> 7 = 1) = b >>> 7 &&& 1 := by
  have small : (b >>> 7).toNat < 2 := by
    have bound := b.toNat_lt
    rw [UInt8.toNat_shiftRight, Nat.shiftRight_eq_div_pow]
    exact Nat.div_lt_of_lt_mul bound
  have bit : b >>> 7 &&& (1 : UInt8) = b >>> 7 :=
    UInt8.toNat_inj.1 ((Nat.and_two_pow_sub_one_eq_mod _ 1).trans (Nat.mod_eq_of_lt small))
  rw [bit, flagByte_of_small small]

theorem combine_eq (op : Operation) : combine m x y op = .ok (m.combine op x y) := by
  let source := m.dialect.shifted (m.registers.get x) (m.registers.get y)
  cases op with
  | shiftRight =>
    have shifted : shiftRight 8 source.toNat 1 = .ok (source >>> 1).toNat :=
      shiftRight_byte source (by decide)
    simp only [combine, shiftSource_eq, shifted, bind_ok, setRegister_eq, UInt8.ofNat_toNat,
      source]
    rw [← flagByte_low_bit]
    rfl
  | shiftLeft =>
    have shifted : shiftLeft 8 source.toNat 1 = .ok (source <<< 1).toNat :=
      shiftLeft_byte source (by decide)
    have lost : shiftRight 8 source.toNat 7 = .ok (source >>> 7).toNat :=
      shiftRight_byte source (by decide)
    simp only [combine, shiftSource_eq, shifted, lost, bind_ok, setRegister_eq, UInt8.ofNat_toNat,
      source]
    rw [← flagByte_high_bit]
    rfl
  | _ =>
    simp only [combine, cell_eq, bind_ok, setRegister_eq, setFlag_eq]
    rfl

theorem draw_eq (height : Nibble) :
    draw m x y height = .ok (m.draw (m.spriteCells x y height)) := by
  have left : remainder (m.registers.get x).toNat 64 = .ok (Sprite.column (m.registers.get x)).val :=
    rfl
  have top : remainder (m.registers.get y).toNat 32 = .ok (Sprite.row (m.registers.get y)).val := rfl
  simp only [draw, cell_eq, setCell_eq, bind_ok, left, top, drawRows_eq, pure_eq]
  rfl

@[simp] theorem keyDown_eq : keyDown m x = .ok (m.keyDown x) := by
  simp [keyDown, Machine.keyDown]

@[simp] theorem jumpDistance_eq (base : Address) : jumpDistance m base = .ok (m.jumpDistance base) := by
  unfold jumpDistance Machine.jumpDistance
  split <;> simp

@[simp] theorem addIndex_eq : addIndex m x = .ok (m.addIndex (m.registers.get x)) := by
  cases h : m.dialect.indexOverflowSetsFlag <;>
    simp [addIndex, Machine.addIndex, h, Registers.setFlag, Machine.setRegister]

@[simp] theorem glyphAddress_eq (b : UInt8) :
    glyphAddress b = .ok (Font.address (Nibble.low b)) := by
  have low : (b &&& 0x0F).toNat = (Nibble.low b).val := Nat.and_two_pow_sub_one_eq_mod b.toNat 4
  have offset : mul countWidth (Nibble.low b).val Font.glyphSize =
      .ok ((Nibble.low b).val * Font.glyphSize) :=
    fit_eq_ok_iff.2 ⟨by simp only [Font.glyphSize, countWidth]; omega, rfl⟩
  have sum : add countWidth Font.base ((Nibble.low b).val * Font.glyphSize) =
      .ok (Font.base + (Nibble.low b).val * Font.glyphSize) :=
    add_count (by simp only [Font.base, Font.glyphSize]; omega)
  rw [glyphAddress, low, offset, bind_ok, sum, bind_ok, pure_eq, Nat.mul_comm]
  rfl

@[simp] theorem storeDecimal_eq (b : UInt8) : storeDecimal m b = .ok (m.storeDecimal b) := by
  have bound := b.toNat_lt
  have hundreds : UInt8.ofNat (b.toNat / 100) = b / 100 := UInt8.toNat_inj.1 (by simp; omega)
  have tens : UInt8.ofNat (b.toNat / 10 % 10) = b / 10 % 10 := UInt8.toNat_inj.1 (by simp; omega)
  have ones : UInt8.ofNat (b.toNat % 10) = b % 10 := UInt8.toNat_inj.1 (by simp; omega)
  have third : m.index + 1 + 1 = m.index + 2 := UInt16.add_assoc ..
  simp [storeDecimal, quotient, remainder, Machine.storeDecimal, decimalDigits, Memory.writeFrom,
    hundreds, tens, ones, third]

@[simp] theorem moveIndex_eq : moveIndex m last = .ok { m with index := m.indexAfter last } := by
  have sum : add 16 last.val 1 = .ok (last.val + 1) := fit_eq_ok_iff.2 ⟨by omega, rfl⟩
  cases moves : m.dialect.transferMovesIndex <;> simp [moveIndex, Machine.indexAfter, moves, sum]

theorem storeLoop_eq (v : Registers) (memory : Memory) (a : UInt16) {n : Nat} (inside : n ≤ 16) :
    (List.range n).foldlM (fun memory k => do
      writeByte memory (a + UInt16.ofNat k) (← item v k)) memory =
      (.ok (memory.writeFrom a (v.toList.take n)) : Checked Memory) := by
  induction n with
  | zero => rfl
  | succ n ih =>
    have found : item v n = .ok v[n] := item_eq_ok_iff.2 ⟨inside, rfl⟩
    have more : v.toList.take (n + 1) = v.toList.take n ++ [v[n]] := by
      rw [List.take_succ_eq_append_getElem (by rw [Vector.length_toList]; exact inside)]
      simp
    rw [List.range_succ, List.foldlM_append, ih (Nat.le_of_lt inside), bind_ok, more,
      Memory.writeFrom_append]
    simp [found, Memory.writeFrom, Nat.min_eq_left (Nat.le_of_lt inside)]

theorem storeRegisters_eq : storeRegisters m last = .ok (m.storeRegisters last) := by
  simp only [storeRegisters, storeLoop_eq m.registers m.memory m.index last.isLt, bind_ok,
    moveIndex_eq]
  rfl

theorem loadLoop_eq (v : Registers) (memory : Memory) (a : UInt16) {n : Nat} (inside : n ≤ 16) :
    (List.range n).foldlM (fun v k => do
      setItem v k (← readByte memory (a + UInt16.ofNat k))) v =
      (.ok (Bank.ofFn fun k => if k.val < n then memory.read (a + UInt16.ofNat k.val) else v.get k) :
        Checked Registers) := by
  induction n with
  | zero =>
    refine congrArg Except.ok (Bank.ext_get fun k => ?_)
    simp
  | succ n ih =>
    let next : Nibble := ⟨n, inside⟩
    have placed (w : Registers) (b : UInt8) : setItem w n b = .ok (w.set next b) :=
      setCell_eq w next b
    rw [List.range_succ, List.foldlM_append, ih (Nat.le_of_lt inside), bind_ok]
    simp only [List.foldlM_cons, List.foldlM_nil, readByte_eq, bind_ok, placed, pure_eq]
    refine congrArg Except.ok (Bank.ext_get fun k => ?_)
    simp only [Bank.get_set, Bank.get_ofFn]
    by_cases here : next = k
    · subst here
      simp [next]
    · have apart : n ≠ k.val := fun same => here (Fin.ext same)
      have before : k.val < n + 1 ↔ k.val < n := by omega
      simp only [if_neg here, before]

theorem loadRegisters_eq : loadRegisters m last = .ok (m.loadRegisters last) := by
  simp only [loadRegisters, loadLoop_eq m.registers m.memory m.index last.isLt, bind_ok,
    moveIndex_eq]
  simp only [Machine.loadRegisters, Registers.load, Nat.lt_succ_iff]
  rfl

theorem carryOut_eq (origin : UInt16) (i : Instruction) :
    carryOut m origin i = .ok (m.carryOut origin i) := by
  cases i with
  | random x mask =>
    simp only [carryOut, setRegister_eq, bind_ok, pure_eq]
    rfl
  | _ => simp [carryOut, Machine.carryOut, combine_eq, draw_eq, storeRegisters_eq, loadRegisters_eq]

end Execution

end Chip8.Checked
