import Chip8.Instruction.Listing
import Chip8.Proofs.Histories

/-! Programs as lists of instructions. A program assembled from instructions is found in memory word
by word as it was written, up to the last address, and words that decode assemble to the bytes from
which they were read. -/

namespace Chip8

namespace Word

variable {w : UInt16} {i : Instruction}

def highByte (w : UInt16) : UInt8 := UInt8.ofNat (w.toNat / 256)

def bytes (w : UInt16) : List UInt8 := [highByte w, byte w]

def field? (w : UInt16) : String → Option Operand
  | "x" => some (.nibble (digit w 2))
  | "y" => some (.nibble (digit w 1))
  | "n" => some (.nibble (digit w 0))
  | "nn" => some (.byte (byte w))
  | "nnn" => some (.address (Address.ofWord w))
  | "op" => (Operation.ofDigit (digit w 0)).map .operation
  | _ => none

theorem ofNat_bytes (w : UInt16) :
    UInt16.ofNat ((highByte w).toNat * 256 + (byte w).toNat) = w := by
  have := w.toNat_lt
  apply UInt16.toNat_inj.1
  simp only [highByte, byte, UInt16.toNat_ofNat', UInt8.toNat_ofNat']
  omega

theorem bytes_ofNat (high low : UInt8) :
    bytes (UInt16.ofNat (high.toNat * 256 + low.toNat)) = [high, low] := by
  have := high.toNat_lt
  have := low.toNat_lt
  have first : highByte (UInt16.ofNat (high.toNat * 256 + low.toNat)) = high := by
    apply UInt8.toNat_inj.1
    simp only [highByte, UInt16.toNat_ofNat', UInt8.toNat_ofNat']
    omega
  have second : byte (UInt16.ofNat (high.toNat * 256 + low.toNat)) = low := by
    apply UInt8.toNat_inj.1
    simp only [byte, UInt16.toNat_ofNat', UInt8.toNat_ofNat']
    omega
  rw [bytes, first, second]

theorem digit_two_withAddress (head : Nibble) (a : Address) :
    digit (withAddress head a) 2 = a.register := by
  apply Fin.ext
  simp only [digit, withAddress, Address.register, UInt16.toNat_ofNat']
  omega

theorem field_encode (i : Instruction) :
    ∀ p ∈ i.operands, field? i.encode p.1 = some p.2 := by
  have op : ∀ op : Operation, Operation.ofDigit op.digit = some op :=
    fun op => Operation.ofDigit_eq_some_iff.2 rfl
  cases i <;>
    simp [Instruction.operands, Instruction.encode, field?, digit_two_withAddress,
      ofWord_withAddress, digit_two_withByte, byte_withByte, digit_two_ofDigits,
      digit_one_ofDigits, digit_zero_ofDigits, op]

end Word

def assemble (ops : List Instruction) : Array UInt8 :=
  (ops.flatMap fun i => Word.bytes i.encode).toArray

variable {ops : List Instruction} {i : Instruction} {program : Array UInt8} {k : Nat}

theorem assemble_cons (i : Instruction) (ops : List Instruction) :
    (assemble (i :: ops)).toList = Word.highByte i.encode :: Word.byte i.encode ::
      (assemble ops).toList := rfl

theorem size_assemble (ops : List Instruction) : (assemble ops).size = 2 * ops.length := by
  induction ops with
  | nil => rfl
  | cons i ops ih =>
    rw [← Array.length_toList] at ih ⊢
    rw [assemble_cons, List.length_cons, List.length_cons, ih, List.length_cons]
    omega

theorem assemble_fits (short : ops.length ≤ 1792) :
    (assemble ops).size ≤ Memory.programLimit := by
  rw [size_assemble]
  exact Nat.mul_le_mul_left 2 short

theorem assemble_getElem? (here : ops[k]? = some i) :
    (assemble ops)[2 * k]? = some (Word.highByte i.encode) ∧
      (assemble ops)[2 * k + 1]? = some (Word.byte i.encode) := by
  induction ops generalizing k with
  | nil => cases here
  | cons first ops ih =>
    rw [← Array.getElem?_toList, ← Array.getElem?_toList, assemble_cons]
    cases k with
    | zero =>
      obtain rfl := Option.some.inj here
      exact ⟨rfl, rfl⟩
    | succ k =>
      obtain ⟨high, low⟩ := ih here
      rw [← Array.getElem?_toList] at high low
      exact ⟨high, low⟩

theorem assemble_eq_of_words (even : program.size = 2 * ops.length)
    (words : ∀ k i, ops[k]? = some i → ∃ high low, program[2 * k]? = some high ∧
      program[2 * k + 1]? = some low ∧ i.encode = UInt16.ofNat (high.toNat * 256 + low.toNat)) :
    assemble ops = program := by
  apply Array.ext_getElem?
  intro j
  by_cases inside : j < program.size
  · have half : j / 2 < ops.length := by omega
    obtain ⟨high, low, first, second, spelled⟩ := words (j / 2) _ (List.getElem?_eq_getElem half)
    obtain ⟨first', second'⟩ := assemble_getElem? (List.getElem?_eq_getElem half)
    have pair := Word.bytes_ofNat high low
    rw [← spelled] at pair
    obtain ⟨sameHigh, rest⟩ := List.cons.inj pair
    obtain ⟨sameLow, -⟩ := List.cons.inj rest
    rcases Nat.mod_two_eq_zero_or_one j with even | odd
    · have place : j = 2 * (j / 2) := by omega
      rw [place, first, first', sameHigh]
    · have place : j = 2 * (j / 2) + 1 := by omega
      rw [place, second, second', sameLow]
  · rw [Array.getElem?_eq_none (Nat.le_of_not_lt inside), Array.getElem?_eq_none]
    rw [size_assemble]
    omega

namespace Machine

variable {m : Machine}

def wordAt (m : Machine) (k : Nat) : UInt16 :=
  { m with pc := UInt16.ofNat (Memory.programStart + 2 * k) }.fetch

def decodings (m : Machine) (count : Nat) : List (Option Instruction) :=
  (List.range count).map fun k => Instruction.decode (m.wordAt k)

theorem wordAt_loaded {dialect : Dialect} {random : Random.Source} {high low : UInt8}
    (fits : program.size ≤ Memory.programLimit) (first : program[2 * k]? = some high)
    (second : program[2 * k + 1]? = some low) :
    (loaded dialect random program).wordAt k =
      UInt16.ofNat (high.toNat * 256 + low.toNat) :=
  fetch_of_image fits first second rfl rfl

theorem decode_wordAt_assemble {dialect : Dialect} {random : Random.Source}
    (short : ops.length ≤ 1792) (here : ops[k]? = some i) :
    Instruction.decode ((loaded dialect random (assemble ops)).wordAt k) = some i := by
  obtain ⟨high, low⟩ := assemble_getElem? here
  rw [wordAt_loaded (assemble_fits short) high low, Word.ofNat_bytes]
  exact Instruction.decode_encode i

theorem assemble_of_decodings {dialect : Dialect} {random : Random.Source}
    (fits : program.size ≤ Memory.programLimit) (even : program.size % 2 = 0)
    (decoded : (loaded dialect random program).decodings (program.size / 2) = ops.map some) :
    assemble ops = program := by
  have count : program.size / 2 = ops.length := by
    simpa [decodings] using congrArg List.length decoded
  refine assemble_eq_of_words (by omega) fun k i here => ?_
  obtain ⟨inside, value⟩ := List.getElem?_eq_some_iff.1 here
  have read : Instruction.decode ((loaded dialect random program).wordAt k) = some i := by
    have entry := congrArg (·[k]?) decoded
    simpa [decodings, count, inside, value] using entry
  have first : 2 * k < program.size := by omega
  have second : 2 * k + 1 < program.size := by omega
  refine ⟨_, _, Array.getElem?_eq_getElem first, Array.getElem?_eq_getElem second, ?_⟩
  rw [wordAt_loaded fits (Array.getElem?_eq_getElem first) (Array.getElem?_eq_getElem second)]
    at read
  exact Instruction.encode_of_decode read

/-- A program assembled from instructions that fit is read as these instructions wherever it was
loaded. A word decodes to the one instruction that it spells, whose operands are its parts. And a
program whose words all decode is assembled from what they decode to. -/
theorem assembled_programs_round_trip :
    (∀ (m : Machine) (ops : List Instruction), ops.length ≤ 1792 →
      (m.act (.reset (assemble ops))).2 = .ok .done ∧
        ∀ k i, ops[k]? = some i →
          Instruction.decode ((m.act (.reset (assemble ops))).1.wordAt k) = some i) ∧
    (∀ w i, Instruction.decode w = some i →
      i.encode = w ∧ ∀ label operand, (label, operand) ∈ i.operands →
        Word.field? w label = some operand) ∧
    (∀ w, Instruction.decode w = none ↔ ∀ i : Instruction, i.encode ≠ w) ∧
    (∀ (m : Machine) (program : Array UInt8) (ops : List Instruction), program.size ≤ 3584 →
      program.size % 2 = 0 →
        (m.act (.reset program)).1.decodings (program.size / 2) = ops.map some →
          assemble ops = program) := by
  refine ⟨?_, ?_, ?_, ?_⟩
  · intro m ops short
    rw [act_reset_accepted (assemble_fits short)]
    exact ⟨rfl, fun k i => decode_wordAt_assemble short⟩
  · intro w i decoded
    obtain rfl := Instruction.encode_of_decode decoded
    exact ⟨rfl, fun label operand => Word.field_encode i (label, operand)⟩
  · intro w
    rw [Option.eq_none_iff_forall_ne_some]
    exact forall_congr' fun i => not_congr Instruction.decode_eq_some_iff
  · intro m program ops fits even decoded
    rw [act_reset_fst fits] at decoded
    exact assemble_of_decodings fits even decoded

theorem assembled_programs_round_trip_jump :
    let ops : List Instruction := [.setByte 3 0x0A, .jumpOffset 0x3FF, .exit]
    let m := { start .cosmacVip (.ofSeed 1) with pc := 0xFFF, halted := true }
    let entered := m.act (.reset (assemble ops))
    let reentered := (m.act (.reset #[0x12, 0x00])).1
    assemble ops = #[0x63, 0x0A, 0xB3, 0xFF, 0x00, 0xFD] ∧ entered.2 = .ok .done ∧
      Instruction.decode (entered.1.wordAt 1) = some (.jumpOffset 0x3FF) ∧
      Word.field? 0xB3FF "x" = some (.nibble 3) ∧ Instruction.decode 0x0123 = none ∧
      reentered.decodings 1 = [some (.jump 0x200)] ∧
      assemble [.jump 0x200] = #[0x12, 0x00] := by
  intro ops m entered reentered
  obtain ⟨loads, decodes, -, returns⟩ := assembled_programs_round_trip
  obtain ⟨accepted, read⟩ := loads m ops (by decide)
  have jump : Instruction.decode 0xB3FF = some (.jumpOffset 0x3FF) := by decide
  have labelled := (decodes _ _ jump).2 "x" (.nibble 3) (by decide)
  have decoded : reentered.decodings 1 = [some (.jump 0x200)] := by
    have word : reentered.wordAt 0 = 0x1200 := by
      show ((m.act (.reset #[0x12, 0x00])).1).wordAt 0 = 0x1200
      rw [act_reset_fst (by decide)]
      exact (wordAt_loaded (by decide) rfl rfl).trans (by decide)
    simp only [decodings, List.range_one, List.map_cons, List.map_nil, word]
    decide
  exact ⟨by decide, accepted, read 1 _ rfl, labelled, by decide, decoded,
    returns m #[0x12, 0x00] [.jump 0x200] (by decide) (by decide) decoded⟩

end Machine

end Chip8
