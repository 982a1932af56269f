import Chip8.Proofs.Histories

/-! Machines at the start of a program. What was before leaves no trace in them but the dialect and the
position in the random bytes, and their memory is known byte by byte. -/

namespace Chip8

namespace Memory

/-- The byte at an address when a program has just been loaded: the glyphs lie from 0x50 on, the program
from 0x200 on. -/
def initial (program : Array UInt8) (a : Address) : UInt8 :=
  if 0x50 ≤ a.val ∧ a.val < 0xA0 then Font.bytes.getD (a.val - 0x50) 0
  else if 0x200 ≤ a.val then program.getD (a.val - 0x200) 0
  else 0

theorem get_blank (a : Address) : blank.get a = 0 := by
  simp only [get, blank, Fin.getElem_fin, Vector.getElem_replicate]

theorem get_image (program : Array UInt8) (a : Address) :
    (image program).get a = initial program a := by
  have glyphs : (blank.load Font.base Font.bytes).get a =
      if 0x50 ≤ a.val then Font.bytes.getD (a.val - 0x50) 0 else 0 := by
    rw [get_load, get_blank]
    rfl
  have beyond : 0xA0 ≤ a.val → Font.bytes.getD (a.val - 0x50) 0 = 0 := by
    intro far
    have outside : Font.bytes.size ≤ a.val - 0x50 := by
      rw [Font.size_bytes]
      omega
    rw [Array.getD_eq_getD_getElem?, Array.getElem?_eq_none outside, Option.getD_none]
  rw [image, get_load, glyphs, initial, programStart]
  -- the glyphs end before the program begins
  by_cases inside : 0x50 ≤ a.val ∧ a.val < 0xA0
  · rw [if_neg (by omega), if_pos inside, if_pos inside.1]
  · rw [if_neg inside]
    by_cases later : 0x200 ≤ a.val
    · rw [if_pos later, if_pos later, if_pos (by omega), beyond (by omega)]
    · rw [if_neg later, if_neg later]
      split
      · exact beyond (by omega)
      · rfl

end Memory

namespace Machine

variable {m n : Machine}

theorem run_of_act_eq {a : Action} (same : m.act a = n.act a) (history : List Action) :
    m.run (a :: history) = n.run (a :: history) := by
  rw [run, run, same]

/-- Loading a program that fits makes machines equal that share their dialect and their random bytes,
whatever has happened to them. A program that does not fit changes nothing. -/
theorem reset_forgets (m n : Machine) (dialect : m.dialect = n.dialect)
    (random : m.random = n.random) (program : Array UInt8) :
    (program.size ≤ 3584 →
      ∃ fresh : Machine,
        m.act (.reset program) = (fresh, .ok .done) ∧
        n.act (.reset program) = (fresh, .ok .done) ∧
        fresh = { start m.dialect m.random with memory := fresh.memory } ∧
        (∀ a, fresh.memory.get a = Memory.initial program a) ∧
        ∀ history, m.run (.reset program :: history) = n.run (.reset program :: history)) ∧
    (3584 < program.size →
      m.act (.reset program) = (m, .error (.programTooLarge program.size 3584))) := by
  refine ⟨fun fits => ?_, act_reset_rejected⟩
  have first : m.act (.reset program) = (loaded m.dialect m.random program, .ok .done) :=
    act_reset_accepted fits
  have second : n.act (.reset program) = (loaded m.dialect m.random program, .ok .done) := by
    rw [dialect, random]
    exact act_reset_accepted fits
  refine ⟨_, first, second, rfl, Memory.get_image program, ?_⟩
  exact run_of_act_eq (first.trans second.symm)

theorem reset_forgets_wait :
    let fresh := start .cosmacVip (.ofSeed 5)
    let waiting := { fresh with pc := 0x3FF, awaiting? := some 7, latched? := some 2 }
    let halted := { fresh with index := 0xFFFF, stack := [0x202], halted := true }
    waiting.dialect = halted.dialect ∧ waiting.random = halted.random ∧
      (∀ history, waiting.run (.reset #[0xF1, 0x0A] :: history) =
        halted.run (.reset #[0xF1, 0x0A] :: history)) ∧
      waiting.act (.reset (Array.replicate 3585 0)) =
        (waiting, .error (.programTooLarge 3585 3584)) := by
  intro fresh waiting halted
  have large : (Array.replicate 3585 (0 : UInt8)).size = 3585 := Array.size_replicate
  obtain ⟨-, -, -, -, -, same⟩ := (reset_forgets waiting halted rfl rfl #[0xF1, 0x0A]).1 (by decide)
  have refused := (reset_forgets waiting halted rfl rfl (Array.replicate 3585 0)).2
  rw [large] at refused
  exact ⟨rfl, rfl, same, refused (by decide)⟩

end Machine

end Chip8
