import Chip8.Proofs.Checks
import Chip8.Proofs.Compositing

/-! Checked drawing. A sprite is drawn row by row and in each row column by column. A loop is left at
the first row or column beyond the edge, unless sprites wrap. Every check passes, and the screen is
struck in the cells that the sprite covers. -/

namespace Chip8.Checked

open Display Sprite

variable {α σ : Type} {wrap : Bool} {top : Fin 32} {left : Fin 64} {down down' right right' : Nat}

/-- A loop that a body can leave early, by giving no next state. -/
def forEach (body : σ → α → Checked (Option σ)) : List α → σ → Checked σ
  | [], s => .ok s
  | a :: rest, s => do
    match ← body s a with
    | none => return s
    | some next => forEach body rest next

def wrapOrClip (wrap : Bool) (position size : Nat) : Checked (Option Nat) := do
  if position < size then return some position
  else if wrap then return some (← remainder position size)
  else return none

def flip (d : Display) (row column : Nat) : Checked (Display × Bool) := do
  let line ← item d row
  let on ← item line column
  let line ← setItem line column (!on)
  let d ← setItem d row line
  return (d, !on)

def drawColumn (wrap : Bool) (left : Nat) (byte : UInt8) (row : Nat) (s : Display × Bool)
    (right : Nat) : Checked (Option (Display × Bool)) := do
  match ← wrapOrClip wrap (← add countWidth left right) 64 with
  | none => return none
  | some column =>
    if byte &&& UInt8.ofNat (← shiftRight 8 0x80 right) ≠ 0 then
      let (d, on) ← flip s.1 row column
      return some (d, s.2 || !on)
    else
      return some s

def drawRow (wrap : Bool) (top left : Nat) (memory : Memory) (index : UInt16) (s : Display × Bool)
    (down : Nat) : Checked (Option (Display × Bool)) := do
  match ← wrapOrClip wrap (← add countWidth top down) 32 with
  | none => return none
  | some row =>
    let byte ← readByte memory (index + UInt16.ofNat down)
    return some (← forEach (drawColumn wrap left byte row) (List.range 8) s)

def drawRows (wrap : Bool) (top left : Nat) (memory : Memory) (index : UInt16) (rows : Nat)
    (d : Display) : Checked (Display × Bool) :=
  forEach (drawRow wrap top left memory index) (List.range rows) (d, false)

def landing? (wrap : Bool) (position size : Nat) : Option Nat :=
  if wrap then some (position % size) else if position < size then some position else none

theorem wrapOrClip_eq {size : Nat} (positive : size ≠ 0) (position : Nat) :
    wrapOrClip wrap position size = .ok (landing? wrap position size) := by
  unfold wrapOrClip landing?
  by_cases inside : position < size <;> cases wrap <;>
    simp [inside, remainder, positive, Nat.mod_eq_of_lt]

theorem landing_eq_none_iff {position size : Nat} :
    landing? wrap position size = none ↔ wrap = false ∧ size ≤ position := by
  unfold landing?
  cases wrap <;> simp

theorem landing_eq_some_iff {position size k : Nat} : landing? wrap position size = some k ↔
    if wrap then k = position % size else k = position ∧ position < size := by
  unfold landing?
  cases wrap <;> simp [eq_comm, and_comm]

theorem place_of_landing {row column : Nat} (hr : landing? wrap (top.val + down) 32 = some row)
    (hc : landing? wrap (left.val + right) 64 = some column) :
    ∃ c : Cell, c.1.val = row ∧ c.2.val = column ∧ place wrap top left down right = some c := by
  rw [landing_eq_some_iff] at hr hc
  have inside : row < 32 ∧ column < 64 := by
    split at hr <;> split at hc <;> omega
  refine ⟨(⟨row, inside.1⟩, ⟨column, inside.2⟩), rfl, rfl, place_eq_some_iff.2 ?_⟩
  split at hr <;> simp_all

theorem place_of_row_none (beyond : landing? wrap (top.val + down) 32 = none) (later : down ≤ down')
    (right : Nat) : place wrap top left down' right = none := by
  obtain ⟨rfl, edge⟩ := landing_eq_none_iff.1 beyond
  unfold place
  rw [if_neg nofun, dif_neg (by omega)]

theorem place_of_column_none (beyond : landing? wrap (left.val + right) 64 = none)
    (later : right ≤ right') (down : Nat) : place wrap top left down right' = none := by
  obtain ⟨rfl, edge⟩ := landing_eq_none_iff.1 beyond
  unfold place
  rw [if_neg nofun, dif_neg (by omega)]

@[simp] theorem flip_eq (d : Display) (c : Cell) :
    flip d c.1.val c.2.val = .ok (d.flip c, !d.isOn c) := by
  simp [flip, Display.flip, isOn]

example : flip Display.blank 32 0 = .error (.index 32 32) := rfl

theorem mask_meets_iff (byte : UInt8) (inside : right < 8) :
    byte &&& UInt8.ofNat (0x80 >>> right) ≠ 0 ↔ bit byte right = true := by
  have mask : 0x80 >>> right = 2 ^ (7 - right) := by
    rw [Nat.shiftRight_eq_div_pow]
    exact Nat.pow_div (Nat.le_of_lt_succ inside) Nat.two_pos
  have small : 2 ^ (7 - right) < 256 := Nat.pow_lt_pow_right (by decide) (by omega : 7 - right < 8)
  have met : (byte &&& UInt8.ofNat (0x80 >>> right)).toNat =
      (byte.toNat.testBit (7 - right)).toNat * 2 ^ (7 - right) := by
    rw [UInt8.toNat_and, UInt8.toNat_ofNat', mask, Nat.mod_eq_of_lt small, Nat.and_two_pow]
  rw [ne_eq, ← UInt8.toNat_inj, met, bit]
  cases byte.toNat.testBit (7 - right) <;> simp

theorem forEach_eq_strike {body : Display × Bool → Nat → Checked (Option (Display × Bool))}
    {cells : Nat → List Cell} {l : List Nat} (sorted : l.Pairwise (· ≤ ·))
    (passes : ∀ a ∈ l, (∀ s, body s a = .ok (some (s.1.strike s.2 (cells a)))) ∨
      (∀ s, body s a = .ok none) ∧ ∀ b, a ≤ b → cells b = []) (s : Display × Bool) :
    forEach body l s = .ok (s.1.strike s.2 (l.flatMap cells)) := by
  induction l generalizing s with
  | nil => rfl
  | cons a l ih =>
    obtain ⟨first, sorted⟩ := List.pairwise_cons.1 sorted
    rcases passes a List.mem_cons_self with goes | ⟨leaves, nothing⟩
    · rw [forEach, goes, bind_ok, List.flatMap_cons, strike_append]
      exact ih sorted (fun b later => passes b (List.mem_cons_of_mem _ later)) _
    · -- nothing ahead covers a cell, so that to leave and to go on come to the same
      have none_left : (a :: l).flatMap cells = [] := by
        refine List.flatMap_eq_nil_iff.2 fun b found => nothing b ?_
        rcases List.mem_cons.1 found with rfl | later
        · exact Nat.le_refl b
        · exact first b later
      rw [forEach, leaves, bind_ok, none_left]
      rfl

theorem drawColumn_of_landing {row column : Nat} (inside : right < 8)
    (hr : landing? wrap (top.val + down) 32 = some row)
    (hc : landing? wrap (left.val + right) 64 = some column) (byte : UInt8) (s : Display × Bool) :
    drawColumn wrap left.val byte row s right = .ok (some (s.1.strike s.2
      (if bit byte right then place wrap top left down right else none).toList)) := by
  obtain ⟨c, rfl, rfl, placed⟩ := place_of_landing hr hc
  have sum : add countWidth left.val right = .ok (left.val + right) := add_count (by omega)
  have mask : shiftRight 8 0x80 right = .ok (0x80 >>> right) :=
    shiftRight_eq_ok_iff.2 ⟨inside, rfl⟩
  rw [drawColumn, sum, bind_ok, wrapOrClip_eq (by decide), bind_ok, hc]
  simp only [mask, bind_ok, mask_meets_iff byte inside, flip_eq, placed, pure_eq]
  split
  · simp [strike, isOn_flip]
  · simp [strike]

theorem drawColumn_of_none (inside : right < 8)
    (beyond : landing? wrap (left.val + right) 64 = none) (byte : UInt8) (row : Nat)
    (s : Display × Bool) : drawColumn wrap left.val byte row s right = .ok none := by
  have sum : add countWidth left.val right = .ok (left.val + right) := add_count (by omega)
  rw [drawColumn, sum, bind_ok, wrapOrClip_eq (by decide), bind_ok, beyond]
  rfl

theorem drawColumns_eq {row : Nat} (hr : landing? wrap (top.val + down) 32 = some row)
    (byte : UInt8) (s : Display × Bool) :
    forEach (drawColumn wrap left.val byte row) (List.range 8) s =
      .ok (s.1.strike s.2 (rowCells wrap top left down byte)) := by
  have cells : rowCells wrap top left down byte = (List.range 8).flatMap fun right =>
      (if bit byte right then place wrap top left down right else none).toList :=
    List.filterMap_eq_flatMap_toList _ _
  rw [cells]
  refine forEach_eq_strike List.pairwise_le_range (fun right inside => ?_) s
  rw [List.mem_range] at inside
  cases hc : landing? wrap (left.val + right) 64 with
  | some column => exact .inl (drawColumn_of_landing inside hr hc byte)
  | none =>
    refine .inr ⟨drawColumn_of_none inside hc byte row, fun right' later => ?_⟩
    rw [place_of_column_none hc later]
    exact congrArg Option.toList (ite_self none)

theorem drawRow_of_landing {row : Nat} (inside : down < 16)
    (hr : landing? wrap (top.val + down) 32 = some row) (memory : Memory) (index : UInt16)
    (s : Display × Bool) :
    drawRow wrap top.val left.val memory index s down = .ok (some (s.1.strike s.2
      (rowCells wrap top left down (memory.read (index + UInt16.ofNat down))))) := by
  have sum : add countWidth top.val down = .ok (top.val + down) := add_count (by omega)
  rw [drawRow, sum, bind_ok, wrapOrClip_eq (by decide), bind_ok, hr]
  simp only [readByte_eq, bind_ok, drawColumns_eq hr, pure_eq]

theorem drawRow_of_none (inside : down < 16)
    (beyond : landing? wrap (top.val + down) 32 = none) (memory : Memory) (index : UInt16)
    (s : Display × Bool) : drawRow wrap top.val left.val memory index s down = .ok none := by
  have sum : add countWidth top.val down = .ok (top.val + down) := add_count (by omega)
  rw [drawRow, sum, bind_ok, wrapOrClip_eq (by decide), bind_ok, beyond]
  rfl

theorem rowCells_of_none (beyond : landing? wrap (top.val + down) 32 = none)
    (later : down ≤ down') (byte : UInt8) : rowCells wrap top left down' byte = [] := by
  simp [rowCells, place_of_row_none beyond later]

theorem cells_readFrom (wrap : Bool) (top : Fin 32) (left : Fin 64) (memory : Memory)
    (index : UInt16) (count : Nat) : cells wrap top left (memory.readFrom index count) =
      (List.range count).flatMap fun down =>
        rowCells wrap top left down (memory.read (index + UInt16.ofNat down)) := by
  have numbered : (memory.readFrom index count).zipIdx =
      (List.range count).map fun down => (memory.read (index + UInt16.ofNat down), down) := by
    refine List.ext_getElem (by simp [Memory.readFrom]) fun k _ _ => ?_
    simp [Memory.readFrom]
  rw [cells, numbered, List.flatMap_map]

theorem drawRows_eq (wrap : Bool) (top : Fin 32) (left : Fin 64) (memory : Memory) (index : UInt16)
    (rows : Nibble) (d : Display) : drawRows wrap top.val left.val memory index rows.val d =
      .ok (d.strike false (cells wrap top left (memory.readFrom index rows.val))) := by
  rw [cells_readFrom]
  refine forEach_eq_strike List.pairwise_le_range (fun down inside => ?_) (d, false)
  have inside : down < 16 := Nat.lt_trans (List.mem_range.1 inside) rows.isLt
  cases hr : landing? wrap (top.val + down) 32 with
  | some row => exact .inl (drawRow_of_landing inside hr memory index)
  | none =>
    exact .inr ⟨drawRow_of_none inside hr memory index, fun down' later =>
      rowCells_of_none hr later _⟩

end Chip8.Checked
