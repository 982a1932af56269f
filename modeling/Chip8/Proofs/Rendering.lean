import Chip8.Proofs.Compositing

/-! The text of a screen. Its lines are all of one length, so that the character of a cell stands at a
place that its row and column tell, and the screen can be read back from the text. -/

namespace Chip8.Display

variable {α β : Type} {width i j : Nat} {d e : Display}

theorem getElem?_flatMap {f : α → List β} {xs : List α} (wide : ∀ a ∈ xs, (f a).length = width)
    (inside : j < width) : (xs.flatMap f)[width * i + j]? = xs[i]?.bind fun a => (f a)[j]? := by
  induction xs generalizing i with
  | nil => rfl
  | cons a xs ih =>
    have first : (f a).length = width := wide a List.mem_cons_self
    rw [List.flatMap_cons]
    cases i with
    | zero =>
      rw [Nat.mul_zero, Nat.zero_add, List.getElem?_append_left (by omega)]
      rfl
    | succ i =>
      have beyond : width * (i + 1) + j - (f a).length = width * i + j := by
        rw [first, Nat.mul_succ]
        omega
      rw [List.getElem?_append_right (by rw [first, Nat.mul_succ]; omega), beyond]
      exact ih fun b hb => wide b (List.mem_cons_of_mem a hb)

/-- The text has 32 lines of 64 characters with a line break behind each, and shows a full block exactly
where a cell is on. -/
structure Shows (d : Display) (text : String) : Prop where
  length : text.toList.length = 32 * 65
  cell : ∀ (row : Fin 32) (column : Fin 64), text.toList[65 * row.val + column.val]? =
    some (if d.isOn (row, column) then '█' else ' ')
  lineBreak : ∀ row : Fin 32, text.toList[65 * row.val + 64]? = some '\n'

def readBack (text : String) : Display :=
  Vector.ofFn fun row : Fin 32 => Vector.ofFn fun column : Fin 64 =>
    text.toList[65 * row.val + column.val]? = some '█'

theorem length_line (row : Vector Bool 64) : (line row ++ ['\n']).length = 65 := by
  simp [line]

theorem getElem?_line (row : Vector Bool 64) (column : Fin 64) :
    (line row ++ ['\n'])[column.val]? = some (if row[column] then '█' else ' ') := by
  rw [List.getElem?_append_left (by simp [line])]
  simp [line]

theorem toList_render (d : Display) :
    d.render.toList = d.toList.flatMap fun row => line row ++ ['\n'] := String.toList_ofList

theorem getElem?_render (d : Display) (row : Fin 32) {place : Nat} (inside : place < 65) :
    d.render.toList[65 * row.val + place]? = (line d[row] ++ ['\n'])[place]? := by
  have found : d.toList[row.val]? = some d[row] := by simp
  rw [toList_render, getElem?_flatMap (fun row _ => length_line row) inside, found]
  rfl

theorem shows_render (d : Display) : d.Shows d.render where
  length := by
    rw [toList_render, List.length_flatMap]
    simp only [length_line]
    simp
  cell row column := (d.getElem?_render row (by omega)).trans (getElem?_line d[row] column)
  lineBreak row := by
    rw [d.getElem?_render row (by decide)]
    simp [line]

theorem isOn_readBack (text : String) (row : Fin 32) (column : Fin 64) :
    (readBack text).isOn (row, column) = true ↔
      text.toList[65 * row.val + column.val]? = some '█' := by
  simp [isOn, readBack]

theorem Shows.readBack {text : String} (shows : d.Shows text) : readBack text = d := by
  apply ext_isOn
  rintro ⟨row, column⟩
  rw [Bool.eq_iff_iff, isOn_readBack, shows.cell, Option.some.injEq]
  cases d.isOn (row, column) <;> decide

theorem render_inj : d.render = e.render ↔ d = e := by
  constructor
  · intro same
    rw [← d.shows_render.readBack, same, e.shows_render.readBack]
  · exact congrArg render

end Chip8.Display
