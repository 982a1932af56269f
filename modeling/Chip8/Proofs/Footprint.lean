import Chip8.Proofs.Histories

/-! What steps take from memory and what they put into it. A step reads the two bytes of its
instruction and, if that is a draw or a load, a block at the index register. It writes a block there
if it stores digits or registers, and nothing otherwise. -/

namespace Chip8

def Address.offset (w : UInt16) (k : Nat) : Address :=
  ⟨(w.toNat + k) % 4096, Nat.mod_lt _ (by decide)⟩

theorem Address.ofWord_add (w : UInt16) (k : Nat) : ofWord (w + UInt16.ofNat k) = offset w k := by
  apply Fin.ext
  simp only [ofWord, offset, UInt16.toNat_add, UInt16.toNat_ofNat']
  omega

namespace Memory

structure Write where
  address : Address
  byte : UInt8
deriving DecidableEq

def replay (m : Memory) (trace : List Write) : Memory :=
  trace.foldl (fun m w => m.set w.address w.byte) m

theorem replay_append (m : Memory) (xs ys : List Write) :
    m.replay (xs ++ ys) = (m.replay xs).replay ys := List.foldl_append

theorem read_add (m : Memory) (a : UInt16) (k : Nat) :
    m.read (a + UInt16.ofNat k) = m.get (.offset a k) := by
  rw [read, Address.ofWord_add]

theorem writeFrom_range (m : Memory) (a : UInt16) (byte : Nat → UInt8) (count : Nat) :
    m.writeFrom a ((List.range count).map byte) =
      m.replay ((List.range count).map fun k => ⟨.offset a k, byte k⟩) := by
  induction count with
  | zero => rfl
  | succ count ih =>
    rw [List.range_succ, List.map_append, List.map_append, writeFrom_append, replay_append, ih,
      List.length_map, List.length_range]
    simp only [List.map_cons, List.map_nil, writeFrom, write, Address.ofWord_add, replay,
      List.foldl_cons, List.foldl_nil]

end Memory

theorem Registers.upTo_eq (v : Registers) (last : Nibble) :
    Registers.upTo v last = (List.range (last.val + 1)).map fun k => v.get (Fin.ofNat 16 k) := by
  apply List.ext_getElem
  · simp only [upTo, List.length_take, Vector.length_toList, List.length_map, List.length_range]
    omega
  · intro k _ hk
    rw [List.length_map, List.length_range] at hk
    have small : k % 16 = k := by omega
    simp [upTo, Bank.get, small]

def Instruction.reads (index : UInt16) : Instruction → List Address
  | draw _ _ height => (List.range height.val).map (.offset index)
  | loadRegisters last => (List.range (last.val + 1)).map (.offset index)
  | _ => []

namespace Machine

variable {m : Machine} {origin : UInt16} {i : Instruction} {fault : Fault} {history : List Action}

/-- The addresses that the next step reads. A machine that has halted or waits reads none. -/
def reads (m : Machine) : List Address :=
  if m.halted || m.awaiting?.isSome then []
  else .offset m.pc 0 :: .offset m.pc 1 :: m.pending?.toList.flatMap (Instruction.reads m.index)

def writesOf (m : Machine) : Instruction → List Memory.Write
  | .storeDecimal x =>
    [⟨.offset m.index 0, m.registers.get x / 100⟩, ⟨.offset m.index 1, m.registers.get x / 10 % 10⟩,
      ⟨.offset m.index 2, m.registers.get x % 10⟩]
  | .storeRegisters last =>
    (List.range (last.val + 1)).map fun k =>
      ⟨.offset m.index k, m.registers.get (Fin.ofNat 16 k)⟩
  | _ => []

def writes (m : Machine) : List Memory.Write := m.pending?.toList.flatMap m.writesOf

theorem reads_running (running : m.halted = false) (free : m.awaiting? = none) :
    m.reads = .offset m.pc 0 :: .offset m.pc 1 ::
      m.pending?.toList.flatMap (Instruction.reads m.index) := by
  simp [reads, running, free]

theorem memory_carryOut : (m.carryOut origin i).1.memory = m.memory.replay (m.writesOf i) := by
  cases i with
  | call target =>
    simp only [carryOut, call]
    split <;> rfl
  | ret =>
    simp only [carryOut, ret]
    split <;> rfl
  | skipEqualByte | skipNotEqualByte | skipEqual | skipNotEqual | skipPressed | skipNotPressed =>
    simp only [carryOut, skipIf_eq, proceed]
    rfl
  | storeDecimal x =>
    -- the three digits as a block of bytes
    let b := m.registers.get x
    let digit (k : Nat) := if k = 0 then b / 100 else if k = 1 then b / 10 % 10 else b % 10
    exact m.memory.writeFrom_range m.index digit 3
  | storeRegisters last =>
    simp only [carryOut, proceed, storeRegisters, Registers.upTo_eq, Memory.writeFrom_range, writesOf]
  | _ => rfl

theorem writes_of_pending (pending : m.pending? = some i) : m.writes = m.writesOf i := by
  rw [writes, pending]
  exact List.append_nil _

theorem writes_of_idle (idle : m.pending? = none) : m.writes = [] := by
  rw [writes, idle]
  rfl

theorem writes_of_fault (refused : m.fault? = some fault) : m.writes = [] := by
  obtain ⟨running, free⟩ := active_of_fault refused
  cases pending : m.pending? with
  | none => exact writes_of_idle pending
  | some i =>
    rw [fault_running running free, (pending_eq_some_iff.1 pending).2.2] at refused
    rw [writes_of_pending pending]
    cases i with
    | storeDecimal | storeRegisters => cases refused
    | _ => rfl

/-- Steps change memory by the writes of the instructions that they carry out, and by nothing else. -/
theorem memory_step (m : Machine) : m.step.1.memory = m.memory.replay m.writes := by
  cases m.move with
  | rest halted hs =>
    rw [hs, writes_of_idle (by simp [pending?, halted])]
    rfl
  | wait running x awaiting unlatched hs =>
    rw [hs, writes_of_idle (by simp [pending?, awaiting])]
    rfl
  | receive running x key awaiting latched hs =>
    rw [hs, writes_of_idle (by simp [pending?, awaiting])]
    rfl
  | refuse running free fault refused hs =>
    rw [hs, writes_of_fault refused]
    rfl
  | perform running free i decoded accepted hs =>
    rw [hs, writes_of_pending (pending_eq_some_iff.2 ⟨running, free, decoded⟩)]
    exact memory_carryOut (m := m.advance)

theorem memory_run (interactive : ∀ a ∈ history, a.Interactive) :
    (m.run history).1.memory = m.memory.replay (m.trace writes history) := by
  induction history generalizing m with
  | nil => rfl
  | cons a rest ih =>
    have later : ∀ b ∈ rest, b.Interactive := fun b hb => interactive b (List.mem_cons_of_mem a hb)
    rw [run_cons, ih later]
    cases a with
    | reset program => exact absurd (interactive _ List.mem_cons_self) id
    | step => rw [trace, Memory.replay_append, ← memory_step, act_step]
    | tick => rfl
    | key key pressed => rfl

end Machine

end Chip8
