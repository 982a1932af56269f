import Chip8.Nibble

/-! Banks: one cell for each nibble. The registers and the keypad are banks. -/

namespace Chip8

abbrev Bank (α : Type) := Vector α 16

namespace Bank

variable {α : Type}

def get (b : Bank α) (n : Nibble) : α := b[n]

def set (b : Bank α) (n : Nibble) (a : α) : Bank α := Vector.set b n a

def ofFn (f : Nibble → α) : Bank α := Vector.ofFn f

def fill (a : α) : Bank α := Vector.replicate 16 a

@[simp] theorem get_set (b : Bank α) (n k : Nibble) (a : α) :
    (b.set n a).get k = if n = k then a else b.get k := by
  simp only [get, set, Fin.getElem_fin, Vector.getElem_set, Fin.ext_iff]

@[simp] theorem get_ofFn (f : Nibble → α) (n : Nibble) : (ofFn f).get n = f n := by
  simp only [get, ofFn, Fin.getElem_fin, Vector.getElem_ofFn]

@[simp] theorem get_fill (a : α) (n : Nibble) : (fill a).get n = a := by
  simp only [get, fill, Fin.getElem_fin, Vector.getElem_replicate]

theorem ext_get {b c : Bank α} (h : ∀ n, b.get n = c.get n) : b = c :=
  Vector.ext fun i hi => h ⟨i, hi⟩

end Bank

end Chip8
