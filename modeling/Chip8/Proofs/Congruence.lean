import Mathlib.Data.List.Forall2
import Chip8.Proofs.Histories

/-! Machines up to the upper bits of their addresses. The program counter, the index register and the
return addresses are words of sixteen bits of which memory sees twelve. As long as the index register
does not report its overflow, nothing else sees more of them either: machines whose addresses are
congruent stay so, give the same answers, and run like a machine that has only twelve bits. -/

namespace Chip8

namespace Address

def Congruent (a b : UInt16) : Prop := a.toNat % 4096 = b.toNat % 4096

instance (a b : UInt16) : Decidable (Congruent a b) :=
  inferInstanceAs (Decidable (a.toNat % 4096 = b.toNat % 4096))

/-- The word of twelve bits that names the same byte. -/
def narrow (w : UInt16) : UInt16 := (ofWord w).toWord

variable {a b : UInt16}

namespace Congruent

theorem refl (a : UInt16) : Congruent a a := rfl

theorem ofWord_eq (h : Congruent a b) : ofWord a = ofWord b := Fin.ext h

theorem narrow_eq (h : Congruent a b) : narrow a = narrow b := congrArg toWord h.ofWord_eq

theorem map_narrow {as bs : List UInt16} (h : List.Forall₂ Congruent as bs) :
    as.map narrow = bs.map narrow := by
  induction h with
  | nil => rfl
  | cons head _ ih => rw [List.map_cons, List.map_cons, head.narrow_eq, ih]

theorem add (h : Congruent a b) (c : UInt16) : Congruent (a + c) (b + c) := by
  simp only [Congruent, UInt16.toNat_add] at h ⊢
  omega

theorem sub (h : Congruent a b) (c : UInt16) : Congruent (a - c) (b - c) := by
  simp only [Congruent, UInt16.toNat_sub] at h ⊢
  omega

end Congruent

theorem congruent_narrow (w : UInt16) : Congruent w (narrow w) := by
  simp only [Congruent, narrow, toWord, ofWord, UInt16.toNat_ofNat']
  omega

end Address

namespace Memory

variable {a b : UInt16}

theorem read_congruent (m : Memory) (h : Address.Congruent a b) : m.read a = m.read b := by
  rw [read, read, h.ofWord_eq]

theorem write_congruent (m : Memory) (h : Address.Congruent a b) (byte : UInt8) :
    m.write a byte = m.write b byte := by
  rw [write, write, h.ofWord_eq]

theorem readWord_congruent (m : Memory) (h : Address.Congruent a b) :
    m.readWord a = m.readWord b := by
  rw [readWord, readWord, m.read_congruent h, m.read_congruent (h.add 1)]

theorem readFrom_congruent (m : Memory) (h : Address.Congruent a b) (count : Nat) :
    m.readFrom a count = m.readFrom b count := by
  unfold readFrom
  apply List.map_congr_left
  intro k _
  exact m.read_congruent (h.add _)

theorem writeFrom_congruent (m : Memory) (h : Address.Congruent a b) (bytes : List UInt8) :
    m.writeFrom a bytes = m.writeFrom b bytes := by
  induction bytes generalizing m a b with
  | nil => rfl
  | cons byte rest ih =>
    rw [writeFrom, writeFrom, m.write_congruent h]
    exact ih _ (h.add 1)

end Memory

theorem Registers.load_congruent {a b : UInt16} (v : Registers) (memory : Memory)
    (h : Address.Congruent a b) (last : Nibble) :
    Registers.load v memory a last = Registers.load v memory b last := by
  apply Bank.ext_get
  intro k
  simp only [Registers.load, Bank.get_ofFn, memory.read_congruent (h.add _)]

def Fault.narrow : Fault → Fault
  | programTooLarge size limit => programTooLarge size limit
  | unknownInstruction word pc => unknownInstruction word (Address.narrow pc)
  | stackOverflow pc depth => stackOverflow (Address.narrow pc) depth
  | stackUnderflow pc => stackUnderflow (Address.narrow pc)

namespace Machine

/-- Two machines that do not report the overflow of their index registers and agree in all but the
upper bits of their addresses. -/
structure Congruent (m n : Machine) : Prop where
  unreported : m.dialect.indexOverflowSetsFlag = false
  same : n = { m with pc := n.pc, index := n.index, stack := n.stack }
  pc : Address.Congruent m.pc n.pc
  index : Address.Congruent m.index n.index
  stack : List.Forall₂ Address.Congruent m.stack n.stack

def narrow (m : Machine) : Machine :=
  { m with
    pc := Address.narrow m.pc
    index := Address.narrow m.index
    stack := m.stack.map Address.narrow }

/-- A run of a machine that cuts its addresses after each action, with faults as it reports them. -/
def runNarrow (m : Machine) : List Action → Machine × List (Except Fault Reply)
  | [] => (m, [])
  | a :: rest =>
    let (next, reply) := m.act a
    let (last, replies) := next.narrow.runNarrow rest
    (last, reply.mapError Fault.narrow :: replies)

def AnswersAlike {α : Type} (r s : Machine × Except Fault α) : Prop :=
  r.1.Congruent s.1 ∧ r.2.mapError Fault.narrow = s.2.mapError Fault.narrow

variable {m n : Machine} {origin origin' : UInt16} {fault fault' : Fault}

theorem AnswersAlike.error {α : Type} (c : m.Congruent n) (same : fault.narrow = fault'.narrow) :
    AnswersAlike (m, (.error fault : Except Fault α)) (n, .error fault') :=
  ⟨c, congrArg Except.error same⟩

theorem mapError_map {α β : Type} {r s : Except Fault α}
    (same : r.mapError Fault.narrow = s.mapError Fault.narrow) (f : α → β) :
    (r.map f).mapError Fault.narrow = (s.map f).mapError Fault.narrow := by
  have comm : ∀ t : Except Fault α,
      (t.map f).mapError Fault.narrow = (t.mapError Fault.narrow).map f := by
    rintro (fault | a) <;> rfl
  rw [comm, comm, same]

namespace Congruent

theorem refl (unreported : m.dialect.indexOverflowSetsFlag = false) : m.Congruent m where
  unreported := unreported
  same := rfl
  pc := .refl _
  index := .refl _
  stack := List.forall₂_same.2 fun a _ => .refl a

theorem loaded {dialect : Dialect} (unreported : dialect.indexOverflowSetsFlag = false)
    (random : Random.Source) (program : Array UInt8) :
    (loaded dialect random program).Congruent (loaded dialect random program) :=
  refl unreported

theorem relocated (c : m.Congruent n) : ∃ pc index stack,
    n = { m with pc := pc, index := index, stack := stack } ∧ Address.Congruent m.pc pc ∧
      Address.Congruent m.index index ∧ List.Forall₂ Address.Congruent m.stack stack :=
  ⟨_, _, _, c.same, c.pc, c.index, c.stack⟩

theorem call (c : m.Congruent n) (h : Address.Congruent origin origin') (target : Address) :
    AnswersAlike (m.call origin target) (n.call origin' target) := by
  obtain ⟨pc, index, stack, rfl, pcs, indices, entries⟩ := c.relocated
  unfold Machine.call
  simp only [← entries.length_eq]
  split
  · exact ⟨⟨c.unreported, rfl, .refl _, indices, .cons pcs entries⟩, rfl⟩
  · exact .error c (by simp only [Fault.narrow, h.narrow_eq])

theorem ret (c : m.Congruent n) (h : Address.Congruent origin origin') :
    AnswersAlike (m.ret origin) (n.ret origin') := by
  obtain ⟨pc, index, stack, rfl, pcs, indices, entries⟩ := c.relocated
  unfold Machine.ret
  generalize m.stack = older at entries
  cases entries with
  | nil => exact .error c (by simp only [Fault.narrow, h.narrow_eq])
  | cons top below => exact ⟨⟨c.unreported, rfl, top, indices, below⟩, rfl⟩

theorem skipIf (c : m.Congruent n) (condition : Bool) :
    (m.skipIf condition).Congruent (n.skipIf condition) := by
  obtain ⟨pc, index, stack, rfl, pcs, indices, entries⟩ := c.relocated
  cases condition with
  | false => exact c
  | true => exact ⟨c.unreported, rfl, pcs.add 2, indices, entries⟩

theorem addIndex (c : m.Congruent n) (b : UInt8) : (m.addIndex b).Congruent (n.addIndex b) := by
  obtain ⟨pc, index, stack, rfl, pcs, indices, entries⟩ := c.relocated
  have silent : ∀ sum : UInt16, (if m.dialect.indexOverflowSetsFlag then some (decide (0xFFF < sum))
      else none) = none := by
    intro sum
    rw [c.unreported]
    rfl
  refine ⟨c.unreported, ?_, pcs, indices.add _, entries⟩
  simp only [Machine.addIndex, silent]

theorem indexAfter (c : m.Congruent n) (last : Nibble) :
    Address.Congruent (m.indexAfter last) (n.indexAfter last) := by
  obtain ⟨pc, index, stack, rfl, pcs, indices, entries⟩ := c.relocated
  unfold Machine.indexAfter
  split
  · exact indices.add _
  · exact indices

theorem carryOut (c : m.Congruent n) (h : Address.Congruent origin origin') (i : Instruction) :
    AnswersAlike (m.carryOut origin i) (n.carryOut origin' i) := by
  have after := c.indexAfter
  obtain ⟨pc, index, stack, rfl, pcs, indices, entries⟩ := c.relocated
  cases i with
  | call target => exact c.call h target
  | ret => exact c.ret h
  | skipEqualByte | skipNotEqualByte | skipEqual | skipNotEqual | skipPressed | skipNotPressed =>
    exact ⟨c.skipIf _, rfl⟩
  | jump target => exact ⟨⟨c.unreported, rfl, .refl _, indices, entries⟩, rfl⟩
  | jumpOffset base => exact ⟨⟨c.unreported, rfl, .refl _, indices, entries⟩, rfl⟩
  | setIndex target => exact ⟨⟨c.unreported, rfl, pcs, .refl _, entries⟩, rfl⟩
  | pointGlyph x => exact ⟨⟨c.unreported, rfl, pcs, .refl _, entries⟩, rfl⟩
  | waitKey x => exact ⟨⟨c.unreported, rfl, pcs.sub 2, indices, entries⟩, rfl⟩
  | addIndex x => exact ⟨c.addIndex _, rfl⟩
  | draw x y height =>
    refine ⟨⟨c.unreported, ?_, pcs, indices, entries⟩, rfl⟩
    simp only [Machine.carryOut, draw, spriteCells, m.memory.readFrom_congruent indices]
  | storeDecimal x =>
    refine ⟨⟨c.unreported, ?_, pcs, indices, entries⟩, rfl⟩
    simp only [Machine.carryOut, proceed, storeDecimal, m.memory.writeFrom_congruent indices]
  | storeRegisters last =>
    refine ⟨⟨c.unreported, ?_, pcs, after last, entries⟩, rfl⟩
    simp only [Machine.carryOut, proceed, storeRegisters, m.memory.writeFrom_congruent indices]
  | loadRegisters last =>
    refine ⟨⟨c.unreported, ?_, pcs, after last, entries⟩, rfl⟩
    simp only [Machine.carryOut, proceed, loadRegisters,
      Registers.load_congruent m.registers m.memory indices]
  | _ => exact ⟨⟨c.unreported, rfl, pcs, indices, entries⟩, rfl⟩

theorem fetch (c : m.Congruent n) : m.fetch = n.fetch := by
  obtain ⟨pc, index, stack, rfl, pcs, indices, entries⟩ := c.relocated
  exact m.memory.readWord_congruent pcs

theorem advance (c : m.Congruent n) : m.advance.Congruent n.advance := by
  obtain ⟨pc, index, stack, rfl, pcs, indices, entries⟩ := c.relocated
  exact ⟨c.unreported, rfl, pcs.add 2, indices, entries⟩

theorem cycle (c : m.Congruent n) : AnswersAlike m.cycle n.cycle := by
  unfold Machine.cycle
  rw [← c.fetch]
  cases Instruction.decode m.fetch with
  | some i => exact c.advance.carryOut c.pc i
  | none => exact .error c (by simp only [Fault.narrow, c.pc.narrow_eq])

end Congruent

theorem AnswersAlike.rollBack {r s : Machine × Except Fault Outcome} (alike : AnswersAlike r s)
    (h : Address.Congruent origin origin') :
    AnswersAlike (rollBack origin r) (rollBack origin' s) := by
  obtain ⟨m, answer⟩ := r
  obtain ⟨n, answer'⟩ := s
  obtain ⟨c, same⟩ := alike
  cases answer with
  | ok outcome =>
    cases answer' with
    | ok outcome' => exact ⟨c, same⟩
    | error fault' => cases same
  | error fault =>
    cases answer' with
    | ok outcome' => cases same
    | error fault' =>
      obtain ⟨pc, index, stack, rfl, -, indices, entries⟩ := Congruent.relocated c
      exact .error ⟨c.unreported, rfl, h, indices, entries⟩ (Except.error.inj same)

namespace Congruent

theorem receiveKey (c : m.Congruent n) (x key : Nibble) :
    (m.receiveKey x key).Congruent (n.receiveKey x key) := by
  obtain ⟨pc, index, stack, rfl, pcs, indices, entries⟩ := c.relocated
  exact ⟨c.unreported, rfl, pcs.add 2, indices, entries⟩

theorem step (c : m.Congruent n) : AnswersAlike m.step n.step := by
  have halted : n.halted = m.halted := by rw [c.same]
  have awaiting : n.awaiting? = m.awaiting? := by rw [c.same]
  have latched : n.latched? = m.latched? := by rw [c.same]
  cases hh : m.halted with
  | true =>
    rw [step_of_halted hh, step_of_halted (halted.trans hh)]
    exact ⟨c, rfl⟩
  | false =>
    have running := halted.trans hh
    cases ha : m.awaiting? with
    | none =>
      rw [step_running hh ha, step_running running (awaiting.trans ha)]
      exact c.cycle.rollBack c.pc
    | some x =>
      have waiting := awaiting.trans ha
      cases hl : m.latched? with
      | none =>
        rw [step_of_unlatched hh ha hl, step_of_unlatched running waiting (latched.trans hl)]
        exact ⟨c, rfl⟩
      | some key =>
        rw [step_of_latched hh ha hl, step_of_latched running waiting (latched.trans hl)]
        exact ⟨c.receiveKey x key, rfl⟩

theorem act (c : m.Congruent n) (a : Action) : AnswersAlike (m.act a) (n.act a) := by
  cases a with
  | reset program =>
    have dialect : n.dialect = m.dialect := by rw [c.same]
    have random : n.random = m.random := by rw [c.same]
    by_cases fits : program.size ≤ Memory.programLimit
    · rw [act_reset_accepted fits, act_reset_accepted fits, dialect, random]
      exact ⟨loaded c.unreported m.random program, rfl⟩
    · have large := Nat.lt_of_not_le fits
      rw [act_reset_rejected large, act_reset_rejected large]
      exact ⟨c, rfl⟩
  | step =>
    obtain ⟨stepped, same⟩ := c.step
    exact ⟨stepped, mapError_map same Reply.stepped⟩
  | tick =>
    obtain ⟨pc, index, stack, rfl, pcs, indices, entries⟩ := c.relocated
    exact ⟨⟨c.unreported, rfl, pcs, indices, entries⟩, rfl⟩
  | key key pressed =>
    obtain ⟨pc, index, stack, rfl, pcs, indices, entries⟩ := c.relocated
    exact ⟨⟨c.unreported, rfl, pcs, indices, entries⟩, rfl⟩

theorem narrow_eq (c : m.Congruent n) : m.narrow = n.narrow := by
  have entries := Address.Congruent.map_narrow c.stack
  rw [c.same]
  simp only [Machine.narrow, c.pc.narrow_eq, c.index.narrow_eq, entries]

theorem run (c : m.Congruent n) (history : List Action) :
    (m.run history).1.Congruent (n.run history).1 ∧
      (m.run history).2.map (·.mapError Fault.narrow) =
        (n.run history).2.map (·.mapError Fault.narrow) := by
  induction history generalizing m n with
  | nil => exact ⟨c, rfl⟩
  | cons a rest ih =>
    obtain ⟨next, reply⟩ := c.act a
    obtain ⟨last, replies⟩ := ih next
    refine ⟨last, ?_⟩
    simp only [Machine.run, List.map_cons, reply, replies]

end Congruent

theorem congruent_narrow (unreported : m.dialect.indexOverflowSetsFlag = false) :
    m.Congruent m.narrow where
  unreported := unreported
  same := rfl
  pc := Address.congruent_narrow m.pc
  index := Address.congruent_narrow m.index
  stack := List.forall₂_map_right_iff.2 (List.forall₂_same.2 fun a _ => Address.congruent_narrow a)

theorem runNarrow_narrow (unreported : m.dialect.indexOverflowSetsFlag = false)
    (history : List Action) :
    m.narrow.runNarrow history =
      ((m.run history).1.narrow, (m.run history).2.map (·.mapError Fault.narrow)) := by
  induction history generalizing m with
  | nil => rfl
  | cons a rest ih =>
    obtain ⟨next, reply⟩ := (congruent_narrow unreported).act a
    simp only [runNarrow, ← next.narrow_eq, ← reply, ih next.unreported, run, List.map_cons]

/-- Machines whose addresses are congruent give the same answers to the same actions and stay
congruent. So a machine runs as one does that has only twelve bits for its addresses. -/
theorem congruent_runs (c : m.Congruent n) (history : List Action) :
    (m.run history).1.Congruent (n.run history).1 ∧
      (m.run history).2.map (·.mapError Fault.narrow) =
        (n.run history).2.map (·.mapError Fault.narrow) ∧
      m.narrow.runNarrow history =
        ((m.run history).1.narrow, (m.run history).2.map (·.mapError Fault.narrow)) := by
  obtain ⟨last, replies⟩ := c.run history
  exact ⟨last, replies, runNarrow_narrow c.unreported history⟩

theorem congruent_runs_of_return :
    let m := { loaded .plain (.ofSeed 0) #[0x00, 0xEE] with stack := [0xF234] }
    let n := { m with pc := 0x3200, index := 0x8000, stack := [0x0234] }
    let history := [Action.step, .tick, .key 3 true, .step]
    m.Congruent n ∧ (m.run history).1.Congruent (n.run history).1 ∧
      (m.run history).2.map (·.mapError Fault.narrow) =
        (n.run history).2.map (·.mapError Fault.narrow) ∧
      m.narrow.runNarrow history =
        ((m.run history).1.narrow, (m.run history).2.map (·.mapError Fault.narrow)) := by
  intro m n history
  have pcs : Address.Congruent 0x200 0x3200 := by decide
  have indices : Address.Congruent 0 0x8000 := by decide
  have tops : Address.Congruent 0xF234 0x0234 := by decide
  have c : m.Congruent n := ⟨rfl, rfl, pcs, indices, .cons tops .nil⟩
  exact ⟨c, congruent_runs c history⟩

end Machine

end Chip8
