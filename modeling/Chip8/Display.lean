/-! The screen, 64 columns by 32 rows of cells that are on or off. Cells are turned over one at a
time. -/

namespace Chip8

abbrev Display := Vector (Vector Bool 64) 32

namespace Display

def width : Nat := 64

def height : Nat := 32

abbrev Cell := Fin 32 × Fin 64

def blank : Display := Vector.replicate 32 (Vector.replicate 64 false)

def isOn (d : Display) (c : Cell) : Bool := d[c.1][c.2]

def flip (d : Display) (c : Cell) : Display := d.set c.1 (d[c.1].set c.2 (!d[c.1][c.2]))

/-- Turn cells over one after the other. The mark tells whether one of them went off. -/
def strike (d : Display) (erased : Bool) : List Cell → Display × Bool
  | [] => (d, erased)
  | c :: rest =>
    let next := d.flip c
    next.strike (erased || !next.isOn c) rest

def line (row : Vector Bool 64) : List Char := row.toList.map fun on => if on then '█' else ' '

def render (d : Display) : String :=
  String.ofList (d.toList.flatMap fun row => line row ++ ['\n'])

theorem isOn_flip (d : Display) (a c : Cell) :
    (d.flip a).isOn c = if a = c then !d.isOn c else d.isOn c := by
  obtain ⟨r, k⟩ := a
  obtain ⟨r', k'⟩ := c
  simp only [isOn, flip, Fin.getElem_fin, Vector.getElem_set, Prod.mk.injEq, Fin.ext_iff]
  by_cases hr : r.val = r'.val <;> by_cases hk : k.val = k'.val <;> simp [hr, hk]

theorem strike_append (d : Display) (erased : Bool) (xs ys : List Cell) :
    d.strike erased (xs ++ ys) = (d.strike erased xs).1.strike (d.strike erased xs).2 ys := by
  induction xs generalizing d erased with
  | nil => rfl
  | cons c rest ih => simp only [List.cons_append, strike, ih]

end Display

end Chip8
