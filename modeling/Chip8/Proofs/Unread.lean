import Mathlib.Data.Set.Defs
import Chip8.Proofs.Footprint
import Chip8.Proofs.Restart

/-! Memory that is never read. Machines that differ at hidden addresses alone give the same answers
and go on to differ there alone, as long as no step reads one of these addresses. -/

namespace Chip8

namespace Memory

variable {hidden : Set Address} {m n : Memory} {index : UInt16} {count : Nat}

def AgreeOutside (hidden : Set Address) (m n : Memory) : Prop :=
  ∀ a, a ∉ hidden → n.get a = m.get a

theorem readWord_eq (m : Memory) (w : UInt16) :
    m.readWord w =
      UInt16.ofNat ((m.get (.offset w 0)).toNat * 256 + (m.get (.offset w 1)).toNat) := by
  have here : m.read w = m.get (.offset w 0) := by
    rw [← m.read_add w 0]
    exact congrArg m.read (UInt16.add_zero w).symm
  have next : m.read (w + 1) = m.get (.offset w 1) := m.read_add w 1
  rw [readWord, here, next]

theorem readFrom_eq (m : Memory) (index : UInt16) (count : Nat) :
    m.readFrom index count = ((List.range count).map (.offset index)).map m.get := by
  simp only [readFrom, read_add, List.map_map]
  rfl

namespace AgreeOutside

theorem refl (hidden : Set Address) (m : Memory) : AgreeOutside hidden m m := fun _ _ => rfl

theorem replay (agree : AgreeOutside hidden m n) (trace : List Write) :
    AgreeOutside hidden (m.replay trace) (n.replay trace) := by
  induction trace generalizing m n with
  | nil => exact agree
  | cons w rest ih =>
    refine ih fun a shown => ?_
    rw [get_set, get_set, agree a shown]

theorem readWord (agree : AgreeOutside hidden m n) {w : UInt16} (first : .offset w 0 ∉ hidden)
    (second : .offset w 1 ∉ hidden) : n.readWord w = m.readWord w := by
  rw [readWord_eq, readWord_eq, agree _ first, agree _ second]

theorem readFrom (agree : AgreeOutside hidden m n)
    (unread : ∀ a ∈ (List.range count).map (.offset index), a ∉ hidden) :
    n.readFrom index count = m.readFrom index count := by
  rw [readFrom_eq, readFrom_eq]
  exact List.map_congr_left fun a ha => agree a (unread a ha)

theorem load (agree : AgreeOutside hidden m n) (v : Registers) (last : Nibble)
    (unread : ∀ a ∈ (List.range (last.val + 1)).map (.offset index), a ∉ hidden) :
    Registers.load v n index last = Registers.load v m index last := by
  apply Bank.ext_get
  intro k
  simp only [Registers.load, Bank.get_ofFn, read_add]
  split
  · rename_i within
    have listed : k.val ∈ List.range (last.val + 1) := List.mem_range.2 (Nat.lt_succ_of_le within)
    exact agree _ (unread _ (List.mem_map_of_mem listed))
  · rfl

theorem image {p q : Array UInt8}
    (bytes : ∀ a : Address, 0x200 ≤ a.val → a ∉ hidden →
      q.getD (a.val - 0x200) 0 = p.getD (a.val - 0x200) 0) :
    AgreeOutside hidden (.image p) (.image q) := by
  intro a shown
  rw [get_image, get_image, initial, initial]
  split
  · rfl
  · split
    · rename_i later
      exact bytes a later shown
    · rfl

end AgreeOutside

end Memory

namespace Machine

/-- Two machines that differ at most in their memories, and there at hidden addresses alone. -/
structure SameOutside (hidden : Set Address) (m n : Machine) : Prop where
  same : n = { m with memory := n.memory }
  memory : Memory.AgreeOutside hidden m.memory n.memory

variable {hidden : Set Address} {m n : Machine} {origin : UInt16} {i : Instruction}

namespace SameOutside

theorem refl (hidden : Set Address) (m : Machine) : SameOutside hidden m m := ⟨rfl, .refl hidden _⟩

theorem loaded {p q : Array UInt8} (dialect : Dialect) (random : Random.Source)
    (images : Memory.AgreeOutside hidden (.image p) (.image q)) :
    SameOutside hidden (loaded dialect random p) (loaded dialect random q) := ⟨rfl, images⟩

theorem altered (s : SameOutside hidden m n) :
    ∃ memory, n = { m with memory := memory } ∧ Memory.AgreeOutside hidden m.memory memory :=
  ⟨_, s.same, s.memory⟩

theorem control (s : SameOutside hidden m n) :
    n.pc = m.pc ∧ n.halted = m.halted ∧ n.awaiting? = m.awaiting? ∧ n.latched? = m.latched? := by
  obtain ⟨memory, rfl, -⟩ := s.altered
  exact ⟨rfl, rfl, rfl, rfl⟩

theorem carryOut_eq {memory : Memory} (agree : Memory.AgreeOutside hidden m.memory memory)
    (unread : ∀ a ∈ i.reads m.index, a ∉ hidden) :
    ({ m with memory := memory } : Machine).carryOut origin i =
      ({ (m.carryOut origin i).1 with
        memory := (({ m with memory := memory } : Machine).carryOut origin i).1.memory },
        (m.carryOut origin i).2) := by
  cases i with
  | call target =>
    simp only [Machine.carryOut, call]
    split <;> rfl
  | ret =>
    simp only [Machine.carryOut, ret]
    split <;> rfl
  | skipEqualByte | skipNotEqualByte | skipEqual | skipNotEqual | skipPressed | skipNotPressed =>
    simp only [Machine.carryOut, skipIf_eq, proceed, keyDown]
  | draw x y height =>
    simp only [Machine.carryOut, draw, spriteCells, agree.readFrom unread]
  | loadRegisters last =>
    simp only [Machine.carryOut, proceed, loadRegisters, agree.load _ last unread]
    rfl
  | _ => rfl

theorem carryOut (s : SameOutside hidden m n) (unread : ∀ a ∈ i.reads m.index, a ∉ hidden) :
    SameOutside hidden (m.carryOut origin i).1 (n.carryOut origin i).1 ∧
      (m.carryOut origin i).2 = (n.carryOut origin i).2 := by
  obtain ⟨memory, rfl, agree⟩ := s.altered
  have answered :
      ({ m with memory := memory } : Machine).carryOut origin i = (_, (m.carryOut origin i).2) :=
    carryOut_eq agree unread
  have written : ({ m with memory := memory } : Machine).writesOf i = m.writesOf i := by
    cases i <;> rfl
  refine ⟨⟨congrArg Prod.fst answered, ?_⟩, (congrArg Prod.snd answered).symm⟩
  rw [memory_carryOut, memory_carryOut, written]
  exact agree.replay _

theorem fetch (s : SameOutside hidden m n) (first : .offset m.pc 0 ∉ hidden)
    (second : .offset m.pc 1 ∉ hidden) : n.fetch = m.fetch := by
  obtain ⟨memory, rfl, agree⟩ := s.altered
  exact agree.readWord first second

theorem fault (s : SameOutside hidden m n) (fetched : n.fetch = m.fetch) : n.fault? = m.fault? := by
  have refused : ∀ origin i, n.refusal? origin i = m.refusal? origin i := by
    intro origin i
    rw [s.same]
    cases i <;> rfl
  obtain ⟨pc, halted, awaiting, -⟩ := s.control
  simp only [fault?, fetched, refused, halted, awaiting, pc]

theorem advance (s : SameOutside hidden m n) : SameOutside hidden m.advance n.advance := by
  obtain ⟨memory, rfl, agree⟩ := s.altered
  exact ⟨rfl, agree⟩

theorem receiveKey (s : SameOutside hidden m n) (x key : Nibble) :
    SameOutside hidden (m.receiveKey x key) (n.receiveKey x key) := by
  obtain ⟨memory, rfl, agree⟩ := s.altered
  exact ⟨rfl, agree⟩

theorem execute (s : SameOutside hidden m n) (unread : ∀ a ∈ i.reads m.index, a ∉ hidden) :
    SameOutside hidden (m.execute i).1 (n.execute i).1 := by
  rw [Machine.execute, Machine.execute, s.control.1]
  exact (s.advance.carryOut unread).1

theorem step (s : SameOutside hidden m n) (unread : ∀ a ∈ m.reads, a ∉ hidden) :
    SameOutside hidden m.step.1 n.step.1 ∧ m.step.2 = n.step.2 := by
  obtain ⟨-, halted, awaiting, latched⟩ := s.control
  cases m.move with
  | rest ended hs =>
    rw [hs, step_of_halted (halted.trans ended)]
    exact ⟨s, rfl⟩
  | wait running x awaited unlatched hs =>
    rw [hs, step_of_unlatched (halted.trans running) (awaiting.trans awaited)
      (latched.trans unlatched)]
    exact ⟨s, rfl⟩
  | receive running x key awaited heard hs =>
    rw [hs, step_of_latched (halted.trans running) (awaiting.trans awaited) (latched.trans heard)]
    exact ⟨s.receiveKey x key, rfl⟩
  | refuse running free fault refused hs =>
    rw [reads_running running free, List.forall_mem_cons, List.forall_mem_cons] at unread
    have fetched := s.fetch unread.1 unread.2.1
    rw [hs, step_of_fault ((s.fault fetched).trans refused)]
    exact ⟨s, rfl⟩
  | perform running free i decoded accepted hs =>
    rw [reads_running running free, List.forall_mem_cons, List.forall_mem_cons] at unread
    have fetched := s.fetch unread.1 unread.2.1
    -- both carry out the same instruction, and it reads nothing hidden either
    have operands : ∀ a ∈ i.reads m.index, a ∉ hidden := by
      intro a ha
      have pending := pending_eq_some_iff.2 ⟨running, free, decoded⟩
      exact unread.2.2 a (by rw [pending]; simpa using ha)
    have performed : n.step = ((n.execute i).1, .ok i.outcome) :=
      step_of_decode (halted.trans running) (awaiting.trans free) (by rw [fetched, decoded])
        ((s.fault fetched).trans accepted)
    rw [hs, performed]
    exact ⟨s.execute operands, rfl⟩

theorem act (s : SameOutside hidden m n) {a : Action}
    (unread : ∀ b ∈ m.trace reads [a], b ∉ hidden) :
    SameOutside hidden (m.act a).1 (n.act a).1 ∧ (m.act a).2 = (n.act a).2 := by
  cases a with
  | reset program =>
    have dialect : n.dialect = m.dialect := by rw [s.same]
    have random : n.random = m.random := by rw [s.same]
    by_cases fits : program.size ≤ Memory.programLimit
    · rw [act_reset_accepted fits, act_reset_accepted fits, dialect, random]
      exact ⟨.refl hidden _, rfl⟩
    · have large := Nat.lt_of_not_le fits
      rw [act_reset_rejected large, act_reset_rejected large]
      exact ⟨s, rfl⟩
  | step =>
    obtain ⟨stepped, answers⟩ := s.step fun b hb => unread b (List.mem_append_left _ hb)
    exact ⟨stepped, congrArg (·.map Reply.stepped) answers⟩
  | tick =>
    obtain ⟨memory, rfl, agree⟩ := s.altered
    exact ⟨⟨rfl, agree⟩, rfl⟩
  | key key pressed =>
    obtain ⟨memory, rfl, agree⟩ := s.altered
    exact ⟨⟨rfl, agree⟩, rfl⟩

end SameOutside

/-- Memory that no step of the first machine reads has no effect on the answers, nor on anything
else than itself. -/
theorem unread_memory_unseen (s : SameOutside hidden m n) (history : List Action)
    (unread : ∀ a ∈ m.trace reads history, a ∉ hidden) :
    SameOutside hidden (m.run history).1 (n.run history).1 ∧
      (m.run history).2 = (n.run history).2 := by
  induction history generalizing m n with
  | nil => exact ⟨s, rfl⟩
  | cons a rest ih =>
    have split : m.trace reads (a :: rest) = m.trace reads [a] ++ (m.act a).1.trace reads rest :=
      trace_append reads m [a] rest
    rw [split, List.forall_mem_append] at unread
    obtain ⟨next, reply⟩ := s.act unread.1
    obtain ⟨last, replies⟩ := ih next unread.2
    refine ⟨last, ?_⟩
    simp only [run, reply, replies]

theorem unread_memory_unseen_byte :
    let m := loaded .plain (.ofSeed 0) #[0xF1, 0x65, 0xAA]
    let n := loaded .plain (.ofSeed 0) #[0xF1, 0x65, 0xBB]
    let history := [.step, .tick, .key 3 true]
    m.memory.get 0x202 = 0xAA ∧ n.memory.get 0x202 = 0xBB ∧
      m.trace reads history = [0x200, 0x201, 0, 1] ∧
      SameOutside {0x202} (m.run history).1 (n.run history).1 ∧
      (m.run history).2 = (n.run history).2 := by
  intro m n history
  have bytes : ∀ a : Address, 0x200 ≤ a.val → a ∉ ({0x202} : Set Address) →
      (#[0xF1, 0x65, 0xBB] : Array UInt8).getD (a.val - 0x200) 0 =
        (#[0xF1, 0x65, 0xAA] : Array UInt8).getD (a.val - 0x200) 0 := by
    intro a later shown
    have other : a.val ≠ 0x202 := fun h => shown (Fin.ext h)
    obtain hk | hk | ⟨k, hk⟩ :
        a.val - 0x200 = 0 ∨ a.val - 0x200 = 1 ∨ ∃ k, a.val - 0x200 = k + 3 := by
      by_cases near : a.val < 0x203
      · omega
      · exact .inr (.inr ⟨a.val - 0x203, by omega⟩)
    all_goals
      rw [hk]
      rfl
  have read : m.trace reads history = [0x200, 0x201, 0, 1] := by
    have pending : m.pending? = some (.loadRegisters 1) :=
      pending_of_image (k := 0) (by decide) rfl rfl rfl rfl rfl rfl (by decide)
    show m.reads ++ [] = _
    rw [reads_running rfl rfl, pending]
    decide
  have byte : ∀ program,
      (loaded .plain (.ofSeed 0) program).memory.get 0x202 = program.getD 2 0 := by
    intro program
    have place : (0x202 : Address).val = 0x202 := by decide
    apply (Memory.get_image program _).trans
    rw [Memory.initial, place]
    simp
  refine ⟨byte _, byte _, read, ?_⟩
  have unread : ∀ a ∈ m.trace reads history, a ∉ ({0x202} : Set Address) := by
    rintro a ha rfl
    rw [read] at ha
    exact absurd ha (by decide)
  exact unread_memory_unseen (.loaded _ _ (.image bytes)) history unread

end Machine

end Chip8
