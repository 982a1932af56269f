import Chip8.Address
import Chip8.Font

/-! The 4096 bytes of memory. An address is a sixteen-bit word of which only the low twelve bits
count, so every access is defined and runs past the end go on at zero. -/

namespace Chip8

abbrev Memory := Vector UInt8 4096

namespace Memory

def size : Nat := 4096

def programStart : Nat := 0x200

def programLimit : Nat := size - programStart

def blank : Memory := Vector.replicate 4096 0

def get (m : Memory) (a : Address) : UInt8 := m[a]

def set (m : Memory) (a : Address) (b : UInt8) : Memory := Vector.set m a b

def read (m : Memory) (a : UInt16) : UInt8 := m.get (Address.ofWord a)

def write (m : Memory) (a : UInt16) (b : UInt8) : Memory := m.set (Address.ofWord a) b

def readWord (m : Memory) (a : UInt16) : UInt16 :=
  UInt16.ofNat ((m.read a).toNat * 256 + (m.read (a + 1)).toNat)

def readFrom (m : Memory) (a : UInt16) (count : Nat) : List UInt8 :=
  (List.range count).map fun k => m.read (a + UInt16.ofNat k)

def writeFrom (m : Memory) (a : UInt16) : List UInt8 → Memory
  | [] => m
  | b :: bs => writeFrom (m.write a b) (a + 1) bs

/-- Lay a block of bytes over the cells from `start` on; what does not fit is left out. -/
def load (m : Memory) (start : Nat) (bytes : Array UInt8) : Memory :=
  Vector.ofFn fun a : Address =>
    if start ≤ a.val then bytes.getD (a.val - start) (m.get a) else m.get a

def image (program : Array UInt8) : Memory :=
  (blank.load Font.base Font.bytes).load programStart program

theorem get_set (m : Memory) (a c : Address) (b : UInt8) :
    (m.set a b).get c = if a = c then b else m.get c := by
  simp only [get, set, Fin.getElem_fin, Vector.getElem_set, Fin.ext_iff]

theorem writeFrom_append (m : Memory) (a : UInt16) (xs ys : List UInt8) :
    m.writeFrom a (xs ++ ys) = (m.writeFrom a xs).writeFrom (a + UInt16.ofNat xs.length) ys := by
  induction xs generalizing m a with
  | nil => simp [writeFrom]
  | cons b bs ih =>
    simp only [List.cons_append, writeFrom, ih, List.length_cons]
    congr 1
    apply UInt16.toNat_inj.1
    simp only [UInt16.toNat_add, UInt16.toNat_ofNat', UInt16.reduceToNat]
    omega

theorem get_load (m : Memory) (start : Nat) (bytes : Array UInt8) (a : Address) :
    (m.load start bytes).get a =
      if start ≤ a.val then bytes.getD (a.val - start) (m.get a) else m.get a := by
  simp only [load, get, Fin.getElem_fin, Vector.getElem_ofFn]

theorem read_image (program : Array UInt8) (fits : program.size ≤ programLimit) (k : Nat)
    (h : k < program.size) :
    (image program).read (UInt16.ofNat (programStart + k)) = program[k] := by
  have limit : program.size ≤ 4096 - 512 := fits
  have place : (Address.ofWord (UInt16.ofNat (programStart + k))).val = 512 + k := by
    simp only [Address.ofWord, UInt16.toNat_ofNat', programStart]
    omega
  rw [read, image, get_load, place, programStart, if_pos (Nat.le_add_right 512 k),
    Nat.add_sub_cancel_left, Array.getD, dif_pos h]
  rfl

theorem readWord_image (program : Array UInt8) (fits : program.size ≤ programLimit) (k : Nat)
    (h : k + 1 < program.size) :
    (image program).readWord (UInt16.ofNat (programStart + k)) =
      UInt16.ofNat (program[k].toNat * 256 + program[k + 1].toNat) := by
  have next : UInt16.ofNat (programStart + k) + 1 = UInt16.ofNat (programStart + (k + 1)) := by
    rw [← Nat.add_assoc, UInt16.ofNat_add (programStart + k) 1]
    rfl
  rw [readWord, next, read_image program fits (k + 1) h,
    read_image program fits k (Nat.lt_of_succ_lt h)]

end Memory

end Chip8
