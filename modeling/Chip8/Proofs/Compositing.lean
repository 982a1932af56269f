import Mathlib.Data.Fintype.Prod
import Mathlib.Data.List.Perm.Basic
import Mathlib.Data.List.Sigma
import Chip8.Proofs.Histories

/-! Sprites laid over each other. To turn cells over is undone by turning them over again, in whatever
order, and a sprite covers no cell twice. So a sprite that is drawn twice is gone, its flag tells what
it met the first time and the second, and drawings may change places. -/

namespace Chip8

namespace Display

variable {d : Display} {cells : List Cell}

theorem ext_isOn {d e : Display} (h : ∀ c, d.isOn c = e.isOn c) : d = e := by
  apply Vector.ext
  intro row hr
  apply Vector.ext
  intro column hc
  exact h (⟨row, hr⟩, ⟨column, hc⟩)

theorem isOn_blank (c : Cell) : blank.isOn c = false := by
  simp only [isOn, blank, Fin.getElem_fin, Vector.getElem_replicate]

theorem isOn_strike (d : Display) (erased : Bool) (cells : List Cell) (c : Cell) :
    (d.strike erased cells).1.isOn c = (d.isOn c ^^ decide (cells.count c % 2 = 1)) := by
  induction cells generalizing d erased with
  | nil => simp [strike]
  | cons a rest ih =>
    rw [strike, ih, isOn_flip, List.count_cons]
    by_cases same : a = c
    · have parity : decide ((rest.count c + 1) % 2 = 1) = !decide (rest.count c % 2 = 1) := by
        rw [← decide_not, decide_eq_decide]
        omega
      rw [if_pos same, if_pos (beq_iff_eq.2 same), parity, Bool.not_xor, Bool.xor_not]
    · rw [if_neg same, if_neg (beq_iff_eq.not.2 same), Nat.add_zero]

theorem isOn_strike_of_nodup (nodup : cells.Nodup) (erased : Bool) (c : Cell) :
    (d.strike erased cells).1.isOn c = (d.isOn c ^^ decide (c ∈ cells)) := by
  rw [isOn_strike, nodup.count]
  split <;> simp_all

theorem strike_mark (nodup : cells.Nodup) (erased : Bool) :
    (d.strike erased cells).2 = (erased || cells.any d.isOn) := by
  induction cells generalizing d erased with
  | nil => simp [strike]
  | cons a rest ih =>
    obtain ⟨fresh, later⟩ := List.nodup_cons.1 nodup
    have kept : rest.any (d.flip a).isOn = rest.any d.isOn := by
      rw [Bool.eq_iff_iff, List.any_eq_true, List.any_eq_true]
      refine exists_congr fun c => and_congr_right fun hc => ?_
      have other : a ≠ c := fun same => fresh (same ▸ hc)
      rw [isOn_flip, if_neg other]
    rw [strike, ih later, kept, isOn_flip, if_pos rfl, Bool.not_not, List.any_cons, Bool.or_assoc]

theorem strike_perm {xs ys : List Cell} (d : Display) (perm : xs.Perm ys) (mark mark' : Bool) :
    (d.strike mark xs).1 = (d.strike mark' ys).1 := by
  apply ext_isOn
  intro c
  rw [isOn_strike, isOn_strike, perm.count_eq]

theorem strike_twice (d : Display) (cells after : List Cell) (mark mark' : Bool) :
    (d.strike mark (cells ++ (cells ++ after))).1 = (d.strike mark' after).1 := by
  apply ext_isOn
  intro c
  have parity : (cells ++ (cells ++ after)).count c % 2 = 1 ↔ after.count c % 2 = 1 := by
    simp only [List.count_append]
    omega
  rw [isOn_strike, isOn_strike, decide_eq_decide.2 parity]

end Display

namespace Sprite

open Display

variable {wrap : Bool} {top : Fin 32} {left : Fin 64} {down down' right right' : Nat} {c : Cell}

theorem place_eq_some_iff : place wrap top left down right = some c ↔
    if wrap then c.1.val = (top.val + down) % 32 ∧ c.2.val = (left.val + right) % 64
    else c.1.val = top.val + down ∧ c.2.val = left.val + right := by
  obtain ⟨⟨row, hr⟩, ⟨column, hc⟩⟩ := c
  cases wrap with
  | true => simp [place, eq_comm]
  | false =>
    simp only [place, Bool.false_eq_true, if_false]
    split
    · simp [eq_comm]
    · simp only [reduceCtorEq, false_iff]
      omega

theorem place_inj (hd : down < 32) (hd' : down' < 32) (hr : right < 64) (hr' : right' < 64)
    (here : place wrap top left down right = some c)
    (there : place wrap top left down' right' = some c) : down = down' ∧ right = right' := by
  rw [place_eq_some_iff] at here there
  split at here <;> split at there <;> omega

theorem mem_rowCells {row : UInt8} : c ∈ rowCells wrap top left down row ↔
    ∃ right < 8, bit row right = true ∧ place wrap top left down right = some c := by
  simp [rowCells]

theorem mem_cells {rows : List UInt8} : c ∈ cells wrap top left rows ↔
    ∃ down row, rows[down]? = some row ∧ c ∈ rowCells wrap top left down row := by
  simp only [cells, List.mem_flatMap, Prod.exists, List.mem_zipIdx_iff_getElem?]
  exact exists_comm

theorem nodup_rowCells (hd : down < 32) (row : UInt8) :
    (rowCells wrap top left down row).Nodup := by
  refine List.pairwise_filterMap.2 (List.nodup_range.imp_of_mem ?_)
  intro right right' hr hr' apart c hc c' hc' same
  rw [List.mem_range] at hr hr'
  rw [Option.ite_none_right_eq_some] at hc hc'
  exact apart (place_inj hd hd (by omega) (by omega) hc.2 (same ▸ hc'.2)).2

theorem nodup_cells {rows : List UInt8} (small : rows.length ≤ 32) :
    (cells wrap top left rows).Nodup := by
  have inside : ∀ p ∈ rows.zipIdx, p.2 < 32 := by
    intro p hp
    exact Nat.lt_of_lt_of_le (List.snd_lt_of_mem_zipIdx hp) small
  have apart := List.pairwise_map.1 (List.nodup_zipIdx_map_snd rows)
  refine List.nodup_flatMap.2 ⟨fun p hp => nodup_rowCells (inside p hp) p.1, ?_⟩
  refine apart.imp_of_mem fun {p q} hp hq distinct c hc hc' => ?_
  obtain ⟨right, hr, -, here⟩ := mem_rowCells.1 hc
  obtain ⟨right', hr', -, there⟩ := mem_rowCells.1 hc'
  exact distinct (place_inj (inside p hp) (inside q hq) (by omega) (by omega) here there).1

end Sprite

/-- What a draw instruction finds in the machine: the two registers that place its corner, and the
index register and memory from which it takes its rows. -/
structure Drawing where
  x : UInt8
  y : UInt8
  height : Nibble
  index : UInt16
  memory : Memory

namespace Drawing

def rows (a : Drawing) : List UInt8 := a.memory.readFrom a.index a.height.val

/-- A set bit of the sprite lies over the cell. Bits beyond an edge lie over none, unless they
wrap. -/
def Covers (a : Drawing) (wrap : Bool) (c : Display.Cell) : Prop :=
  ∃ down < a.height.val, ∃ right < 8,
    (a.memory.read (a.index + UInt16.ofNat down)).toNat.testBit (7 - right) = true ∧
      if wrap then c.1.val = (a.y.toNat + down) % 32 ∧ c.2.val = (a.x.toNat + right) % 64
      else c.1.val = a.y.toNat % 32 + down ∧ c.2.val = a.x.toNat % 64 + right

def cells (a : Drawing) (wrap : Bool) : List Display.Cell :=
  Sprite.cells wrap (Sprite.row a.y) (Sprite.column a.x) a.rows

def onto (wrap : Bool) (d : Display) (a : Drawing) : Display := (d.strike false (a.cells wrap)).1

def paint (wrap : Bool) (d : Display) (drawings : List Drawing) : Display :=
  drawings.foldl (onto wrap) d

variable {a b : Drawing} {wrap : Bool} {c : Display.Cell}

theorem mem_cells : c ∈ a.cells wrap ↔ a.Covers wrap c := by
  have row : ∀ down byte, a.rows[down]? = some byte ↔
      down < a.height.val ∧ a.memory.read (a.index + UInt16.ofNat down) = byte := by
    intro down byte
    simp [rows, Memory.readFrom, List.getElem?_eq_some_iff]
  simp only [cells, Sprite.mem_cells, Sprite.mem_rowCells, row, Sprite.place_eq_some_iff, Covers]
  cases wrap <;> simp [Sprite.row, Sprite.column, Sprite.bit]

instance : Decidable (a.Covers wrap c) := decidable_of_iff _ mem_cells

theorem nodup_cells (a : Drawing) (wrap : Bool) : (a.cells wrap).Nodup := by
  apply Sprite.nodup_cells
  simp only [rows, Memory.readFrom, List.length_map, List.length_range]
  omega

theorem cells_congr (x : a.x = b.x) (y : a.y = b.y) (rows : a.rows = b.rows) :
    a.cells wrap = b.cells wrap := by
  rw [cells, cells, x, y, rows]

theorem isOn_onto (a : Drawing) (wrap : Bool) (d : Display) (c : Display.Cell) :
    (onto wrap d a).isOn c = (d.isOn c ^^ decide (a.Covers wrap c)) := by
  rw [onto, Display.isOn_strike_of_nodup (a.nodup_cells wrap), decide_eq_decide.2 mem_cells]

theorem onto_onto (a : Drawing) (wrap : Bool) (d : Display) : onto wrap (onto wrap d a) a = d := by
  apply Display.ext_isOn
  intro c
  rw [isOn_onto, isOn_onto, Bool.xor_assoc, Bool.xor_self, Bool.xor_false]

theorem mark_eq (a : Drawing) (wrap : Bool) (d : Display) :
    (d.strike false (a.cells wrap)).2 =
      decide (∃ c, a.Covers wrap c ∧ d.isOn c = true) := by
  rw [Display.strike_mark (a.nodup_cells wrap), Bool.false_or, Bool.eq_iff_iff, List.any_eq_true,
    decide_eq_true_iff]
  simp only [mem_cells]

theorem paint_eq_strike (wrap : Bool) (d : Display) (mark : Bool) (drawings : List Drawing) :
    paint wrap d drawings = (d.strike mark (drawings.flatMap (cells · wrap))).1 := by
  induction drawings generalizing d mark with
  | nil => rfl
  | cons a rest ih =>
    have first : onto wrap d a = (d.strike mark (a.cells wrap)).1 := d.strike_perm (.refl _) ..
    rw [List.flatMap_cons, Display.strike_append, ← first]
    exact ih (onto wrap d a) _

theorem paint_perm {drawings drawings' : List Drawing} (perm : drawings.Perm drawings')
    (wrap : Bool) (d : Display) : paint wrap d drawings = paint wrap d drawings' := by
  rw [paint_eq_strike wrap d false, paint_eq_strike wrap d false]
  exact d.strike_perm (perm.flatMap_right _) ..

theorem paint_twice (before between after : List Drawing) (wrap : Bool) (d : Display)
    (same : a.cells wrap = b.cells wrap) :
    paint wrap d (before ++ a :: between ++ b :: after) =
      paint wrap d (before ++ between ++ after) := by
  have gathered : (before ++ a :: between ++ b :: after).Perm
      (b :: a :: (before ++ between ++ after)) :=
    List.perm_middle.trans ((List.perm_middle.append_right after).cons b)
  rw [paint_perm gathered, paint_eq_strike wrap d false, paint_eq_strike wrap d false]
  simp only [List.flatMap_cons, same]
  exact d.strike_twice ..

end Drawing

namespace Machine

variable {m : Machine} {x y height : Nibble}

def drawing (m : Machine) (x y height : Nibble) : Drawing where
  x := m.registers.get x
  y := m.registers.get y
  height := height
  index := m.index
  memory := m.memory

theorem execute_draw (m : Machine) (x y height : Nibble) :
    m.execute (.draw x y height) =
      ({ m with
        pc := m.pc + 2
        display := Drawing.onto m.dialect.wrapSprites m.display (m.drawing x y height)
        registers := m.registers.set flagRegister (flagByte (decide (∃ c,
          (m.drawing x y height).Covers m.dialect.wrapSprites c ∧ m.display.isOn c = true))) },
        .ok .endOfFrame) := by
  rw [← Drawing.mark_eq]
  rfl

theorem flag_draw (m : Machine) (x y height : Nibble) :
    (m.execute (.draw x y height)).1.registers.get flagRegister =
      if ∃ c, (m.drawing x y height).Covers m.dialect.wrapSprites c ∧ m.display.isOn c = true
      then 1 else 0 := by
  simp only [execute_draw, Bank.get_set, if_pos, flagByte, decide_eq_true_eq]

theorem drawing_draw (hx : x ≠ flagRegister) (hy : y ≠ flagRegister) :
    (m.execute (.draw x y height)).1.drawing x y height = m.drawing x y height := by
  simp only [execute_draw, drawing, Bank.get_set, if_neg hx.symm, if_neg hy.symm]

theorem display_draw_draw (hx : x ≠ flagRegister) (hy : y ≠ flagRegister) :
    ((m.execute (.draw x y height)).1.execute (.draw x y height)).1.display = m.display := by
  rw [execute_draw, drawing_draw hx hy, execute_draw]
  exact Drawing.onto_onto ..

theorem flag_draw_draw (hx : x ≠ flagRegister) (hy : y ≠ flagRegister) :
    ((m.execute (.draw x y height)).1.execute (.draw x y height)).1.registers.get flagRegister =
      if ∃ c, (m.drawing x y height).Covers m.dialect.wrapSprites c ∧ m.display.isOn c = false
      then 1 else 0 := by
  have dialect : (m.execute (.draw x y height)).1.dialect = m.dialect := rfl
  rw [flag_draw, drawing_draw hx hy, dialect]
  -- what the sprite covers is on now where it was off before
  refine if_congr (exists_congr fun c => and_congr_right fun covered => ?_) rfl rfl
  rw [execute_draw, Drawing.isOn_onto, decide_eq_true covered, Bool.xor_true, Bool.not_eq_true']

/-- Drawing a sprite twice restores the screen, and the flags tell whether it met a cell that was on and
one that was off. Drawings give the same screen in any order, and two equal ones might be left out. -/
theorem drawings_undo_and_commute :
    (∀ (m : Machine) (x y height : Nibble),
      let sprite := m.drawing x y height
      let wrap := m.dialect.wrapSprites
      let once := (m.execute (.draw x y height)).1
      let twice := (once.execute (.draw x y height)).1
      (m.pending? = some (.draw x y height) → m.step = (once, .ok .endOfFrame)) ∧
      once.display = Drawing.onto wrap m.display sprite ∧
      once.registers.get flagRegister =
        (if ∃ c, sprite.Covers wrap c ∧ m.display.isOn c = true then 1 else 0) ∧
      (x ≠ flagRegister → y ≠ flagRegister →
        twice.display = m.display ∧
        twice.registers.get flagRegister =
          if ∃ c, sprite.Covers wrap c ∧ m.display.isOn c = false then 1 else 0)) ∧
    (∀ (wrap : Bool) (d : Display) (drawings drawings' : List Drawing),
      drawings.Perm drawings' → Drawing.paint wrap d drawings = Drawing.paint wrap d drawings') ∧
    (∀ (wrap : Bool) (d : Display) (a b : Drawing) (before between after : List Drawing),
      a.x = b.x → a.y = b.y → a.rows = b.rows →
        Drawing.paint wrap d (before ++ a :: between ++ b :: after) =
          Drawing.paint wrap d (before ++ between ++ after)) := by
  refine ⟨?_, ?_, ?_⟩
  · intro m x y height sprite wrap once twice
    refine ⟨fun pending => step_of_pending pending rfl, ?_, flag_draw m x y height, ?_⟩
    · exact congrArg (·.1.display) (execute_draw m x y height)
    · intro hx hy
      exact ⟨display_draw_draw hx hy, flag_draw_draw hx hy⟩
  · intro wrap d drawings drawings' perm
    exact Drawing.paint_perm perm wrap d
  · intro wrap d a b before between after x y rows
    exact Drawing.paint_twice before between after wrap d (Drawing.cells_congr x y rows)

theorem drawings_undo_and_commute_at_corner :
    let m := { loaded .plain (.ofSeed 0) #[0xC0] with index := 0x200, registers := Bank.fill 63 }
    let once := (m.execute (.draw 0 1 2)).1
    let twice := (once.execute (.draw 0 1 2)).1
    let a := m.drawing 0 1 2
    let b := { a with x := 60 }
    (0 : Nibble) ≠ flagRegister ∧ (1 : Nibble) ≠ flagRegister ∧ twice.display = m.display ∧
      once.registers.get flagRegister = 0 ∧ twice.registers.get flagRegister = 1 ∧
      Drawing.paint true m.display [a, b] = Drawing.paint true m.display [b, a] ∧
      Drawing.paint true m.display [a, b, a] = Drawing.paint true m.display [b] := by
  intro m once twice a b
  obtain ⟨drawn, ordered, undone⟩ := drawings_undo_and_commute
  obtain ⟨-, -, first, again⟩ := drawn m 0 1 2
  obtain ⟨restored, second⟩ := again (by decide) (by decide)
  have blank : ∀ c, m.display.isOn c = false := Display.isOn_blank
  have byte : m.memory.read (m.index + UInt16.ofNat 0) = 0xC0 :=
    Memory.read_image #[0xC0] (by decide) 0 (by decide)
  have covered : a.Covers false (31, 63) := by
    have left : a.x = 63 := Bank.get_fill 63 0
    have top : a.y = 63 := Bank.get_fill 63 1
    refine ⟨0, by decide, 0, by decide, ?_, ?_⟩
    · show (m.memory.read (m.index + UInt16.ofNat 0)).toNat.testBit (7 - 0) = true
      rw [byte]
      decide
    · rw [left, top]
      decide
  refine ⟨by decide, by decide, restored, ?_, ?_, ordered _ _ _ _ (.swap ..), ?_⟩
  · rw [first, if_neg]
    rintro ⟨c, -, on⟩
    rw [blank] at on
    cases on
  · rw [second, if_pos ⟨_, covered, blank _⟩]
  · exact undone true m.display a a [] [b] [] rfl rfl rfl

end Machine

end Chip8
