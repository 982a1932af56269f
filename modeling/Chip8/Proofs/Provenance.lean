import Mathlib.Data.List.Induction
import Chip8.Proofs.Footprint
import Chip8.Proofs.Restart

/-! Where the bytes of memory come from. A byte is the last one that was written to its address
since the program was loaded, or else the one that was loaded there. Glyphs that nothing has
overwritten are found where the machine points for them. -/

namespace Chip8

namespace Memory

variable {m : Memory} {trace : List Write} {last : Write} {a : Address} {b : UInt8}

/-- The last of the writes to an address wrote this byte. -/
def Latest (trace : List Write) (a : Address) (b : UInt8) : Prop :=
  ∃ earlier later, trace = earlier ++ ⟨a, b⟩ :: later ∧ ∀ w ∈ later, w.address ≠ a

namespace Latest

theorem concat (h : Latest trace a b) (other : last.address ≠ a) : Latest (trace ++ [last]) a b := by
  obtain ⟨earlier, later, rfl, quiet⟩ := h
  refine ⟨earlier, later ++ [last], ?_, ?_⟩
  · rw [List.append_assoc, List.cons_append]
  · exact List.forall_mem_append.2 ⟨quiet, List.forall_mem_singleton.2 other⟩

theorem mem (h : Latest trace a b) : ⟨a, b⟩ ∈ trace := by
  obtain ⟨earlier, later, rfl, -⟩ := h
  exact List.mem_append_right earlier List.mem_cons_self

end Latest

theorem get_replay (m : Memory) (trace : List Write) (a : Address) :
    Latest trace a ((m.replay trace).get a) ∨
      (∀ w ∈ trace, w.address ≠ a) ∧ (m.replay trace).get a = m.get a := by
  induction trace using List.reverseRecOn with
  | nil => exact .inr ⟨List.forall_mem_nil _, rfl⟩
  | append_singleton trace last ih =>
    have after : (m.replay (trace ++ [last])).get a =
        if last.address = a then last.byte else (m.replay trace).get a := by
      rw [replay_append]
      exact get_set ..
    by_cases here : last.address = a
    · rw [after, if_pos here]
      subst here
      exact .inl ⟨trace, [], rfl, List.forall_mem_nil _⟩
    · rw [after, if_neg here]
      rcases ih with latest | ⟨untouched, kept⟩
      · exact .inl (latest.concat here)
      · have still := List.forall_mem_append.2 ⟨untouched, List.forall_mem_singleton.2 here⟩
        exact .inr ⟨still, kept⟩

theorem get_replay_of_untouched (untouched : ∀ w ∈ trace, w.address ≠ a) :
    (m.replay trace).get a = m.get a := by
  rcases m.get_replay trace a with latest | ⟨-, kept⟩
  · exact absurd rfl (untouched _ latest.mem)
  · exact kept

end Memory

theorem Font.glyph_eq (digit : Nibble) :
    Font.glyph digit = (List.range 5).map fun k => Font.bytes.getD (5 * digit.val + k) 0 := by
  revert digit
  decide +kernel

theorem Memory.readFrom_glyph {m : Memory}
    (intact : ∀ a : Address, 0x50 ≤ a.val → a.val < 0xA0 →
      m.get a = Font.bytes.getD (a.val - 0x50) 0)
    (digit : Nibble) : m.readFrom (Font.address digit) 5 = Font.glyph digit := by
  rw [readFrom, Font.glyph_eq]
  refine List.map_congr_left fun k hk => ?_
  have row : k < 5 := List.mem_range.1 hk
  have place : (Address.offset (Font.address digit) k).val = 0x50 + (5 * digit.val + k) := by
    simp only [Address.offset, Font.address, Font.base, Font.glyphSize, UInt16.toNat_ofNat']
    omega
  rw [read_add, intact _ (by omega) (by omega), place, Nat.add_sub_cancel_left]

namespace Machine

variable {m : Machine} {x : Nibble} {history : List Action}

/-- The next action writes the digits of a byte, or a block of registers, or nothing. -/
structure WritesExactly (m : Machine) : Prop where
  digits : ∀ x, m.pending? = some (.storeDecimal x) →
    ∃ hundreds tens ones : UInt8, hundreds ≤ 9 ∧ tens ≤ 9 ∧ ones ≤ 9 ∧
      100 * hundreds.toNat + 10 * tens.toNat + ones.toNat = (m.registers.get x).toNat ∧
      m.writes = [⟨.offset m.index 0, hundreds⟩, ⟨.offset m.index 1, tens⟩, ⟨.offset m.index 2, ones⟩]
  registers : ∀ last, m.pending? = some (.storeRegisters last) →
    m.writes = (List.range (last.val + 1)).map fun k =>
      ⟨.offset m.index k, m.registers.get (Fin.ofNat 16 k)⟩
  nothing : (∀ x, m.pending? ≠ some (.storeDecimal x)) →
    (∀ last, m.pending? ≠ some (.storeRegisters last)) → m.writes = [] ∧ m.step.1.memory = m.memory
  external : ∀ a : Action, a.External → (m.act a).1.memory = m.memory

theorem decimal_digits (b : UInt8) :
    b / 100 ≤ 9 ∧ b / 10 % 10 ≤ 9 ∧ b % 10 ≤ 9 ∧
      100 * (b / 100).toNat + 10 * (b / 10 % 10).toNat + (b % 10).toNat = b.toNat := by
  have small := b.toNat_lt
  simp only [UInt8.le_iff_toNat_le, UInt8.toNat_div, UInt8.toNat_mod, UInt8.reduceToNat]
  omega

theorem writesExactly (m : Machine) : m.WritesExactly := by
  refine ⟨?_, ?_, ?_, ?_⟩
  · intro x pending
    obtain ⟨hundreds, tens, ones, sum⟩ := decimal_digits (m.registers.get x)
    exact ⟨_, _, _, hundreds, tens, ones, sum, writes_of_pending pending⟩
  · intro last pending
    exact writes_of_pending pending
  · intro noDigits noRegisters
    have silent : m.writes = [] := by
      cases pending : m.pending? with
      | none => exact writes_of_idle pending
      | some i =>
        rw [writes_of_pending pending]
        cases i with
        | storeDecimal x => exact absurd pending (noDigits x)
        | storeRegisters last => exact absurd pending (noRegisters last)
        | _ => rfl
    refine ⟨silent, ?_⟩
    rw [memory_step, silent]
    rfl
  · intro a external
    cases a with
    | tick | key => rfl
    | reset | step => exact absurd external id

theorem readFrom_index_of_untouched {dialect : Dialect} {random : Random.Source}
    {program : Array UInt8} {later : List Action} :
    let entered := loaded dialect random program
    let n := (entered.run history).1
    n.pending? = some (.pointGlyph x) →
    (∀ a ∈ history ++ .step :: later, a.Interactive) →
    (∀ w ∈ entered.trace writes (history ++ .step :: later),
      ¬(0x50 ≤ w.address.val ∧ w.address.val < 0xA0)) →
    (n.step.1.run later).1.memory.readFrom n.step.1.index 5 =
      Font.glyph (Nibble.low (n.registers.get x)) := by
  intro entered n pending interactive untouched
  have pointed : n.step.1.index = Font.address (Nibble.low (n.registers.get x)) := by
    rw [step_of_pending pending rfl]
    rfl
  have whole : (entered.run (history ++ .step :: later)).1 = (n.step.1.run later).1 :=
    run_append_fst ..
  have memory : (n.step.1.run later).1.memory =
      (Memory.image program).replay (entered.trace writes (history ++ .step :: later)) := by
    rw [← whole]
    exact memory_run interactive
  rw [pointed, memory]
  refine Memory.readFrom_glyph (fun a low high => ?_) _
  rw [Memory.get_replay_of_untouched, Memory.get_image, Memory.initial, if_pos ⟨low, high⟩]
  intro w hw here
  exact untouched w hw (here ▸ ⟨low, high⟩)

/-- Since the program was loaded, memory holds at each address the last byte that was written there, or
else the one that was loaded. Digits and registers are all that is written, and glyphs that no write has
met are found where the machine points. -/
theorem memory_holds_latest_writes (m : Machine) (program : Array UInt8)
    (fits : program.size ≤ Memory.programLimit) (history : List Action)
    (interactive : ∀ a ∈ history, a.Interactive) :
    let entered := (m.act (.reset program)).1
    let n := (entered.run history).1
    (∀ a, Memory.Latest (entered.trace writes history) a (n.memory.get a) ∨
      (∀ w ∈ entered.trace writes history, w.address ≠ a) ∧
        n.memory.get a = Memory.initial program a) ∧
    n.WritesExactly ∧
    ∀ x later, n.pending? = some (.pointGlyph x) → (∀ a ∈ later, a.Interactive) →
      (∀ w ∈ entered.trace writes (history ++ .step :: later),
        ¬(0x50 ≤ w.address.val ∧ w.address.val < 0xA0)) →
      (n.step.1.run later).1.memory.readFrom n.step.1.index 5 =
        Font.glyph (Nibble.low (n.registers.get x)) := by
  rw [act_reset_fst fits]
  intro entered n
  refine ⟨fun a => ?_, writesExactly n, fun x later pending interactive' untouched => ?_⟩
  · have memory : n.memory = (Memory.image program).replay (entered.trace writes history) :=
      memory_run interactive
    rw [memory, ← Memory.get_image]
    exact Memory.get_replay ..
  · have whole : ∀ a ∈ history ++ .step :: later, a.Interactive :=
      List.forall_mem_append.2 ⟨interactive, List.forall_mem_cons.2 ⟨trivial, interactive'⟩⟩
    exact readFrom_index_of_untouched pending whole untouched

theorem memory_holds_latest_writes_digits_and_glyph :
    let m := start .plain (.ofSeed 0)
    (let n := ((m.act (.reset #[0x60, 0xFF, 0xF0, 0x33])).1.run [.step, .step]).1
     n.memory.get 1 = 5 ∧ n.memory.get 0x50 = 0xF0) ∧
    (let n := ((m.act (.reset #[0xF0, 0x29])).1.run [.tick]).1
     n.pending? = some (.pointGlyph 0) ∧
       n.step.1.memory.readFrom n.step.1.index 5 = [0xF0, 0x90, 0x90, 0x90, 0xF0]) := by
  intro m
  constructor
  · let program : Array UInt8 := #[0x60, 0xFF, 0xF0, 0x33]
    let entered := loaded .plain (.ofSeed 0) program
    let filled := { entered with pc := entered.pc + 2, registers := entered.registers.set 0 0xFF }
    have fits : program.size ≤ Memory.programLimit := by decide
    have same : (m.act (.reset program)).1 = entered := act_reset_fst fits
    obtain ⟨bytes, -⟩ := memory_holds_latest_writes m program fits [.step, .step]
      (by simp [Action.Interactive])
    have first : entered.pending? = some (.setByte 0 0xFF) :=
      pending_of_image (k := 0) fits rfl rfl rfl rfl rfl rfl (by decide)
    have stepped : entered.step.1 = filled := by rw [step_setByte first]
    have second : filled.pending? = some (.storeDecimal 0) :=
      pending_of_image (k := 2) fits rfl rfl rfl rfl rfl rfl (by decide)
    have written : entered.trace writes [.step, .step] = [⟨0, 2⟩, ⟨1, 5⟩, ⟨2, 5⟩] := by
      have value : filled.registers.get 0 = 0xFF := by rw [Bank.get_set, if_pos rfl]
      rw [trace, trace, trace, writes_of_pending first, stepped, writes_of_pending second, writesOf,
        value]
      rfl
    rw [same, written] at bytes
    rw [same]
    constructor
    · rcases bytes 1 with latest | ⟨untouched, -⟩
      · simpa using latest.mem
      · simp at untouched
    · rcases bytes 0x50 with latest | ⟨-, kept⟩
      · exact absurd latest.mem (by simp)
      · exact kept
  · let program : Array UInt8 := #[0xF0, 0x29]
    let entered := loaded .plain (.ofSeed 0) program
    have fits : program.size ≤ Memory.programLimit := by decide
    have same : (m.act (.reset program)).1 = entered := act_reset_fst fits
    obtain ⟨-, -, glyphs⟩ := memory_holds_latest_writes m program fits [.tick]
      (by simp [Action.Interactive])
    have pending : entered.tick.pending? = some (.pointGlyph 0) :=
      pending_of_image (k := 0) fits rfl rfl rfl rfl rfl rfl (by decide)
    rw [same] at glyphs ⊢
    have silent : entered.trace writes ([.tick] ++ .step :: []) = [] := by
      show entered.tick.writes ++ [] = []
      rw [writes_of_pending pending]
      rfl
    have value : (entered.run [.tick]).1.registers.get 0 = 0 := Bank.get_fill 0 0
    have glyph := glyphs 0 [] pending (List.forall_mem_nil _) (by rw [silent]; simp)
    have still : ∀ k : Machine, (k.run []).1 = k := fun _ => rfl
    rw [still, value] at glyph
    exact ⟨pending, glyph⟩

end Machine

end Chip8
