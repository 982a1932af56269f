import Chip8.Proofs.Compositing
import Chip8.Proofs.Footprint

/-! The mask of a sprite. Which cells a sprite turns over can be told cell by cell: how far a cell lies
below and to the right of the corner names the one bit of the sprite that may lie over it. -/

namespace Chip8

namespace Sprite

variable {wrap : Bool} {size corner position k : Nat}

/-- How far a position lies behind a corner, on a side of the screen with `size` cells. Without wrapping
it may lie before the corner. -/
def distance? (wrap : Bool) (size corner position : Nat) : Option Nat :=
  if wrap then some (((position : Int) - corner) % size).toNat
  else if corner ≤ position then some (position - corner)
  else none

theorem distance_eq_some_iff (hp : position < size) (hc : corner < size) (hk : k < size) :
    distance? wrap size corner position = some k ↔
      if wrap then position = (corner + k) % size else position = corner + k := by
  cases wrap with
  | true =>
    have ahead : (corner + k) % size = if corner + k < size then corner + k else corner + k - size := by
      split
      · exact Nat.mod_eq_of_lt ‹_›
      · rw [Nat.mod_eq_sub_mod (by omega), Nat.mod_eq_of_lt (by omega)]
    have back : ((position : Int) - corner) % size =
        if corner ≤ position then (position : Int) - corner else position - corner + size := by
      split
      · exact Int.emod_eq_of_lt (by omega) (by omega)
      · rw [← Int.add_emod_right, Int.emod_eq_of_lt (by omega) (by omega)]
    simp only [distance?, if_true, Option.some.injEq, ahead, back]
    split <;> split <;> omega
  | false =>
    simp only [distance?, Bool.false_eq_true, if_false]
    split
    · rw [Option.some.injEq]
      omega
    · simp only [reduceCtorEq, false_iff]
      omega

end Sprite

namespace Machine

/-- The sprite that would be drawn now has a set bit over the cell. -/
def hits (m : Machine) (x y height : Nibble) (c : Display.Cell) : Bool :=
  let top := (m.registers.get y).toNat % 32
  let left := (m.registers.get x).toNat % 64
  match Sprite.distance? m.dialect.wrapSprites 32 top c.1,
    Sprite.distance? m.dialect.wrapSprites 64 left c.2 with
  | some row, some column =>
    row < height.val && column < 8 &&
      (m.memory.get (.offset m.index row)).toNat.testBit (7 - column)
  | _, _ => false

variable {m : Machine} {x y height : Nibble} {c : Display.Cell}

theorem hits_eq_true_iff : m.hits x y height c = true ↔ ∃ row column,
    Sprite.distance? m.dialect.wrapSprites 32 ((m.registers.get y).toNat % 32) c.1 = some row ∧
    Sprite.distance? m.dialect.wrapSprites 64 ((m.registers.get x).toNat % 64) c.2 = some column ∧
    row < height.val ∧ column < 8 ∧
      (m.memory.get (.offset m.index row)).toNat.testBit (7 - column) = true := by
  unfold hits
  dsimp only
  split
  · rename_i row column below right
    simp only [below, right, Option.some.injEq, Bool.and_eq_true, decide_eq_true_eq, and_assoc]
    constructor
    · intro hit
      exact ⟨row, column, rfl, rfl, hit⟩
    · rintro ⟨_, _, rfl, rfl, hit⟩
      exact hit
  · rename_i outside
    simp only [Bool.false_eq_true, false_iff]
    rintro ⟨row, column, below, right, -⟩
    exact outside row column below right

theorem hits_iff_covers :
    m.hits x y height c = true ↔ (m.drawing x y height).Covers m.dialect.wrapSprites c := by
  have hy : (m.registers.get y).toNat % 32 < 32 := Nat.mod_lt _ (by decide)
  have hx : (m.registers.get x).toNat % 64 < 64 := Nat.mod_lt _ (by decide)
  have bits : ∀ row < height.val, ∀ column < 8,
      (Sprite.distance? m.dialect.wrapSprites 32 ((m.registers.get y).toNat % 32) c.1 = some row ∧
        Sprite.distance? m.dialect.wrapSprites 64 ((m.registers.get x).toNat % 64) c.2 =
          some column) ↔
      if m.dialect.wrapSprites then
        c.1.val = ((m.registers.get y).toNat + row) % 32 ∧
          c.2.val = ((m.registers.get x).toNat + column) % 64
      else
        c.1.val = (m.registers.get y).toNat % 32 + row ∧
          c.2.val = (m.registers.get x).toNat % 64 + column := by
    intro row hr column hc
    rw [Sprite.distance_eq_some_iff c.1.isLt hy (by omega),
      Sprite.distance_eq_some_iff c.2.isLt hx (by omega)]
    split
    · rw [Nat.mod_add_mod, Nat.mod_add_mod]
    · rfl
  rw [hits_eq_true_iff]
  constructor
  · rintro ⟨row, column, below, right, hr, hc, bit⟩
    refine ⟨row, hr, column, hc, ?_, (bits row hr column hc).1 ⟨below, right⟩⟩
    rw [Memory.read_add]
    exact bit
  · rintro ⟨row, hr, column, hc, bit, place⟩
    obtain ⟨below, right⟩ := (bits row hr column hc).2 place
    rw [Memory.read_add] at bit
    exact ⟨row, column, below, right, hr, hc, bit⟩

/-- A draw instruction turns over exactly the cells that its sprite hits, and its flag tells whether one
of them was on. -/
theorem draw_turns_hits_over (m : Machine) (x y height : Nibble) :
    let after := (m.execute (.draw x y height)).1
    (∀ c, after.display.isOn c = (m.display.isOn c ^^ m.hits x y height c)) ∧
    after.registers = m.registers.set flagRegister
      (if ∃ c, m.display.isOn c = true ∧ m.hits x y height c = true then 1 else 0) ∧
    m.execute (.draw x y height) =
      ({ m with pc := m.pc + 2, display := after.display, registers := after.registers },
        .ok .endOfFrame) ∧
    (m.pending? = some (.draw x y height) → m.step = m.execute (.draw x y height)) := by
  intro after
  refine ⟨?_, ?_, ?_, fun pending => step_of_pending pending rfl⟩
  · intro c
    simp only [after, execute_draw, Drawing.isOn_onto]
    rw [← Bool.decide_coe (m.hits x y height c), decide_eq_decide.2 hits_iff_covers]
  · simp only [after, execute_draw, flagByte, decide_eq_true_eq, hits_iff_covers, and_comm]
  · simp only [after, execute_draw]

theorem draw_turns_hits_over_around_corner :
    let m := { loaded { Dialect.plain with wrapSprites := true } (.ofSeed 0) #[0xDF, 0xF2] with
      index := 0x200, registers := Bank.fill 63 }
    let after := (m.execute (.draw 15 15 2)).1
    m.pending? = some (.draw 15 15 2) ∧ m.step = m.execute (.draw 15 15 2) ∧
      after.display.isOn (0, 0) = true ∧ after.display.isOn (31, 1) = false ∧
      after.registers.get flagRegister = 0 := by
  intro m after
  have place : m.registers.get 15 = 63 := Bank.get_fill ..
  have upper : m.memory.get (.offset m.index 0) = 0xDF := by
    rw [← Memory.read_add]
    exact Memory.read_image #[0xDF, 0xF2] (by decide) 0 (by decide)
  have lower : m.memory.get (.offset m.index 1) = 0xF2 := by
    rw [← Memory.read_add]
    exact Memory.read_image #[0xDF, 0xF2] (by decide) 1 (by decide)
  have blank : ∀ c, m.display.isOn c = false := Display.isOn_blank
  have inside : m.hits 15 15 2 (0, 0) = true := by
    refine hits_eq_true_iff.2 ⟨1, 1, ?_, ?_, by decide, by decide, ?_⟩
    · rw [place]
      decide
    · rw [place]
      decide
    · rw [lower]
      decide
  have outside : m.hits 15 15 2 (31, 1) = false := by
    refine Bool.eq_false_iff.2 fun hit => ?_
    obtain ⟨row, column, below, right, -, -, bit⟩ := hits_eq_true_iff.1 hit
    rw [place] at below right
    obtain rfl : row = 0 := (Option.some.inj below).symm
    obtain rfl : column = 2 := (Option.some.inj right).symm
    rw [upper] at bit
    cases bit
  have pending : m.pending? = some (.draw 15 15 2) :=
    pending_of_image (k := 0) (by decide) rfl rfl rfl rfl rfl rfl (by decide)
  obtain ⟨turned, flagged, -, stepped⟩ := draw_turns_hits_over m 15 15 2
  refine ⟨pending, stepped pending, ?_, ?_, ?_⟩
  · rw [turned, blank, inside]
    rfl
  · rw [turned, blank, outside]
    rfl
  · rw [flagged, Bank.get_set, if_pos rfl, if_neg]
    rintro ⟨c, on, -⟩
    rw [blank] at on
    cases on

end Machine

end Chip8
