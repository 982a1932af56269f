import Chip8.Proofs.Provenance

/-! Block transfers. A store puts the registers up to a last one into a block of memory at the index
register, and a load takes them from such a block. A block is shorter than memory, so that its cells
differ from each other even where it goes on at the start of memory, and two blocks in a row have no
cell in common. -/

namespace Chip8

namespace Address

theorem offset_inj {w : UInt16} {j k : Nat} (hj : j < 4096) (hk : k < 4096)
    (h : offset w j = offset w k) : j = k := by
  have same : (w.toNat + j) % 4096 = (w.toNat + k) % 4096 := congrArg Fin.val h
  omega

theorem offset_of_toNat {w w' : UInt16} {j : Nat} (k : Nat) (h : w'.toNat = (w.toNat + j) % 65536) :
    offset w' k = offset w (j + k) := by
  apply Fin.ext
  simp only [offset, h]
  omega

end Address

namespace Memory

theorem ext_get {m n : Memory} (h : ∀ a, m.get a = n.get a) : m = n :=
  Vector.ext fun i hi => h ⟨i, hi⟩

theorem get_replay_block (m : Memory) (w : UInt16) (byte : Nat → UInt8) {count k : Nat}
    (fits : count ≤ 4096) (hk : k < count) :
    (m.replay ((List.range count).map fun j => ⟨.offset w j, byte j⟩)).get (.offset w k) =
      byte k := by
  rcases m.get_replay ((List.range count).map fun j => ⟨.offset w j, byte j⟩) (.offset w k) with
    latest | ⟨untouched, -⟩
  · obtain ⟨j, hj, same⟩ := List.mem_map.1 latest.mem
    have inside : j < count := List.mem_range.1 hj
    obtain rfl : j = k :=
      Address.offset_inj (by omega) (by omega) (congrArg Write.address same)
    exact (congrArg Write.byte same).symm
  · have written := List.mem_map_of_mem (f := fun j => (⟨.offset w j, byte j⟩ : Write))
      (List.mem_range.2 hk)
    exact absurd rfl (untouched _ written)

end Memory

namespace Machine

variable {m n k l : Machine} {last last' : Nibble}

/-- Where a block transfer leaves the index register: behind the block, around the end of the sixteen
bits, or at its start. -/
def indexBehind (m : Machine) (last : Nibble) : Nat :=
  if m.dialect.transferMovesIndex then (m.index.toNat + (last.val + 1)) % 65536 else m.index.toNat

/-- The second machine is the first one after it has stored its registers up to and with `last`. -/
structure Stores (m n : Machine) (last : Nibble) : Prop where
  inside : ∀ j ≤ last, n.memory.get (.offset m.index j.val) = m.registers.get j
  outside : ∀ a, (∀ j ≤ last, Address.offset m.index j.val ≠ a) → n.memory.get a = m.memory.get a
  index : n.index.toNat = m.indexBehind last
  rest : n = { m with pc := m.pc + 2, memory := n.memory, index := n.index }

structure Loads (m n : Machine) (last : Nibble) : Prop where
  inside : ∀ j ≤ last, n.registers.get j = m.memory.get (.offset m.index j.val)
  outside : ∀ j, last < j → n.registers.get j = m.registers.get j
  index : n.index.toNat = m.indexBehind last
  rest : n = { m with pc := m.pc + 2, registers := n.registers, index := n.index }

theorem toNat_indexAfter (m : Machine) (last : Nibble) :
    (m.indexAfter last).toNat = m.indexBehind last := by
  unfold indexAfter indexBehind
  split
  · rw [UInt16.toNat_add, UInt16.toNat_ofNat']
    omega
  · rfl

theorem stores_execute (m : Machine) (last : Nibble) :
    m.Stores (m.execute (.storeRegisters last)).1 last := by
  have memory : (m.execute (.storeRegisters last)).1.memory =
      m.memory.replay ((List.range (last.val + 1)).map fun j =>
        ⟨.offset m.index j, m.registers.get (Fin.ofNat 16 j)⟩) :=
    memory_carryOut (m := m.advance) (i := .storeRegisters last)
  refine ⟨?_, ?_, toNat_indexAfter m last, rfl⟩
  · intro j hj
    have block : j.val < last.val + 1 := Nat.lt_succ_of_le hj
    have self : Fin.ofNat 16 j.val = j := Fin.ofNat_val_eq_self j
    rw [memory, Memory.get_replay_block _ _ _ (by omega) block, self]
  · intro a apart
    rw [memory]
    apply Memory.get_replay_of_untouched
    intro w hw
    obtain ⟨j, hj, rfl⟩ := List.mem_map.1 hw
    have block : j < last.val + 1 := List.mem_range.1 hj
    exact apart ⟨j, by omega⟩ (Nat.le_of_lt_succ block)

theorem loads_execute (m : Machine) (last : Nibble) :
    m.Loads (m.execute (.loadRegisters last)).1 last := by
  have registers : ∀ j, (m.execute (.loadRegisters last)).1.registers.get j =
      if j ≤ last then m.memory.get (.offset m.index j.val) else m.registers.get j := by
    intro j
    rw [← Memory.read_add]
    exact Bank.get_ofFn ..
  refine ⟨?_, ?_, toNat_indexAfter m last, rfl⟩
  · intro j hj
    rw [registers, if_pos hj]
  · intro j hj
    rw [registers, if_neg (Fin.not_le.2 hj)]

theorem Stores.get_loads (stores : m.Stores n last) (loads : k.Loads l last)
    (memory : k.memory = n.memory) (index : k.index = m.index) {j : Nibble} (hj : j ≤ last) :
    l.registers.get j = m.registers.get j := by
  rw [loads.inside j hj, memory, index, stores.inside j hj]

theorem Loads.memory_stores (loads : m.Loads n last) (stores : k.Stores l last)
    (memory : k.memory = m.memory) (index : k.index = m.index)
    (registers : k.registers = n.registers) : l.memory = m.memory := by
  apply Memory.ext_get
  intro a
  by_cases block : ∃ j ≤ last, Address.offset m.index j.val = a
  · obtain ⟨j, hj, rfl⟩ := block
    rw [← loads.inside j hj, ← registers, ← stores.inside j hj, index]
  · rw [stores.outside a, memory]
    intro j hj here
    exact block ⟨j, hj, index ▸ here⟩

theorem Stores.kept (first : m.Stores n last) (second : k.Stores l last')
    (moves : m.dialect.transferMovesIndex = true) (memory : k.memory = n.memory)
    (index : k.index = n.index) {j : Nibble} (hj : j ≤ last) :
    l.memory.get (.offset m.index j.val) = m.registers.get j := by
  have behind : k.index.toNat = (m.index.toNat + (last.val + 1)) % 65536 := by
    rw [index, first.index, indexBehind, if_pos moves]
  rw [second.outside, memory, first.inside j hj]
  intro i hi meet
  rw [Address.offset_of_toNat i.val behind] at meet
  have same : last.val + 1 + i.val = j.val := Address.offset_inj (by omega) (by omega) meet
  have before : j.val ≤ last.val := hj
  omega

/-- A load takes back what a store has put into memory, and a store puts back what a load has taken
from it, wherever the block lies. Where transfers move the index register, blocks that were stored one
after the other are loaded one after the other. -/
theorem transfers_round_trip (m : Machine) (last : Nibble) :
    let stored := (m.execute (.storeRegisters last)).1
    let filled := (m.execute (.loadRegisters last)).1
    m.Stores stored last ∧ m.Loads filled last ∧
    (m.pending? = some (.storeRegisters last) → m.step = (stored, .ok .proceed)) ∧
    (m.pending? = some (.loadRegisters last) → m.step = (filled, .ok .proceed)) ∧
    (∀ v : Registers,
      let restored := ({ stored with registers := v, index := m.index }.execute
        (.loadRegisters last)).1
      (∀ j, restored.registers.get j = if j ≤ last then m.registers.get j else v.get j) ∧
      restored.memory = stored.memory ∧ restored.index = stored.index) ∧
    ({ filled with index := m.index }.execute (.storeRegisters last)).1.memory = m.memory ∧
    (m.dialect.transferMovesIndex = true → ∀ (w v : Registers) (last' : Nibble),
      let both := ({ stored with registers := w }.execute (.storeRegisters last')).1
      let front := ({ both with registers := v, index := m.index }.execute
        (.loadRegisters last)).1
      let behind := (front.execute (.loadRegisters last')).1
      (∀ j ≤ last, front.registers.get j = m.registers.get j) ∧
      (∀ j ≤ last', behind.registers.get j = w.get j)) := by
  intro stored filled
  have stores : m.Stores stored last := m.stores_execute last
  have loads : m.Loads filled last := m.loads_execute last
  refine ⟨stores, loads, fun pending => step_of_pending pending rfl,
    fun pending => step_of_pending pending rfl, ?_, ?_, ?_⟩
  · intro v restored
    have again := loads_execute { stored with registers := v, index := m.index } last
    refine ⟨fun j => ?_, rfl, rfl⟩
    split
    · exact stores.get_loads again rfl rfl ‹_›
    · exact again.outside j (Fin.not_le.1 ‹_›)
  · exact loads.memory_stores (stores_execute _ last) rfl rfl rfl
  · intro moves w v last' both front behind
    have next := stores_execute { stored with registers := w } last'
    have frontLoads := loads_execute { both with registers := v, index := m.index } last
    have behindLoads := loads_execute front last'
    constructor
    · intro j hj
      exact (frontLoads.inside j hj).trans (stores.kept next moves rfl rfl hj)
    · intro j hj
      exact next.get_loads behindLoads rfl rfl hj

theorem transfers_round_trip_around_end :
    let m := { loaded .cosmacVip (.ofSeed 0) #[0xF1, 0x55] with
      index := 0xFFFF, registers := (Bank.fill 7).set 1 8 }
    let both := ({ m.step.1 with registers := Bank.fill 9 }.execute (.storeRegisters 0)).1
    let front := ({ both with registers := Bank.fill 0, index := 0xFFFF }.execute
      (.loadRegisters 1)).1
    m.pending? = some (.storeRegisters 1) ∧ m.step.1.memory.get 0xFFF = 7 ∧
      m.step.1.memory.get 0 = 8 ∧ m.step.1.index = 1 ∧ m.dialect.transferMovesIndex = true ∧
      front.registers.get 1 = 8 ∧ (front.execute (.loadRegisters 0)).1.registers.get 0 = 9 := by
  intro m both front
  have pending : m.pending? = some (.storeRegisters 1) :=
    pending_of_image (k := 0) (by decide) rfl rfl rfl rfl rfl rfl (by decide)
  obtain ⟨stores, -, stepped, -, -, -, streams⟩ := transfers_round_trip m 1
  have step : m.step.1 = (m.execute (.storeRegisters 1)).1 := congrArg Prod.fst (stepped pending)
  obtain ⟨frontKept, behindKept⟩ := streams rfl (Bank.fill 9) (Bank.fill 0) 0
  rw [← step] at stores frontKept behindKept
  have front0 : m.registers.get 0 = 7 := (Bank.get_set ..).trans (Bank.get_fill ..)
  have front1 : m.registers.get 1 = 8 := Bank.get_set ..
  have lastCell : Address.offset 0xFFFF 0 = 0xFFF := by decide
  have firstCell : Address.offset 0xFFFF 1 = 0 := by decide
  have passed : m.indexBehind 1 = (0xFFFF + 2) % 65536 := if_pos rfl
  refine ⟨pending, ?_, ?_, ?_, rfl, ?_, ?_⟩
  · rw [← lastCell, ← front0]
    exact stores.inside 0 (by decide)
  · rw [← firstCell, ← front1]
    exact stores.inside 1 (by decide)
  · exact UInt16.toNat_inj.1 (stores.index.trans passed)
  · exact (frontKept 1 (by decide)).trans front1
  · exact (behindKept 0 (by decide)).trans (Bank.get_fill ..)

end Machine

end Chip8
