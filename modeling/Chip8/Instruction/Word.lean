import Chip8.Instruction.Basic

/-! Instructions as words. `Instruction.encode` spells an instruction in sixteen bits and
`Instruction.decode` reads a word back, so that the words which decode are exactly the spellings:
`decode_eq_some_iff`. -/

namespace Chip8

namespace Word

def digit (w : UInt16) (place : Nat) : Nibble :=
  ⟨(w.toNat >>> (4 * place)) % 16, Nat.mod_lt _ (by decide)⟩

def byte (w : UInt16) : UInt8 := UInt8.ofNat w.toNat

def withAddress (head : Nibble) (a : Address) : UInt16 := UInt16.ofNat (head.val * 4096 + a.val)

def withByte (head x : Nibble) (b : UInt8) : UInt16 :=
  UInt16.ofNat (head.val * 4096 + x.val * 256 + b.toNat)

def ofDigits (head x y tail : Nibble) : UInt16 :=
  UInt16.ofNat (head.val * 4096 + x.val * 256 + y.val * 16 + tail.val)

theorem digit_withAddress (head : Nibble) (a : Address) : digit (withAddress head a) 3 = head := by
  apply Fin.ext
  simp only [digit, withAddress, UInt16.toNat_ofNat']
  omega

theorem ofWord_withAddress (head : Nibble) (a : Address) :
    Address.ofWord (withAddress head a) = a := by
  apply Fin.ext
  simp only [Address.ofWord, withAddress, UInt16.toNat_ofNat']
  omega

theorem digit_three_withByte (head x : Nibble) (b : UInt8) :
    digit (withByte head x b) 3 = head := by
  have := b.toNat_lt
  apply Fin.ext
  simp only [digit, withByte, UInt16.toNat_ofNat']
  omega

theorem digit_two_withByte (head x : Nibble) (b : UInt8) :
    digit (withByte head x b) 2 = x := by
  have := b.toNat_lt
  apply Fin.ext
  simp only [digit, withByte, UInt16.toNat_ofNat']
  omega

theorem byte_withByte (head x : Nibble) (b : UInt8) : byte (withByte head x b) = b := by
  have := b.toNat_lt
  apply UInt8.toNat_inj.1
  simp only [byte, withByte, UInt16.toNat_ofNat', UInt8.toNat_ofNat']
  omega

theorem digit_three_ofDigits (head x y tail : Nibble) :
    digit (ofDigits head x y tail) 3 = head := by
  apply Fin.ext
  simp only [digit, ofDigits, UInt16.toNat_ofNat']
  omega

theorem digit_two_ofDigits (head x y tail : Nibble) : digit (ofDigits head x y tail) 2 = x := by
  apply Fin.ext
  simp only [digit, ofDigits, UInt16.toNat_ofNat']
  omega

theorem digit_one_ofDigits (head x y tail : Nibble) : digit (ofDigits head x y tail) 1 = y := by
  apply Fin.ext
  simp only [digit, ofDigits, UInt16.toNat_ofNat']
  omega

theorem digit_zero_ofDigits (head x y tail : Nibble) :
    digit (ofDigits head x y tail) 0 = tail := by
  apply Fin.ext
  simp only [digit, ofDigits, UInt16.toNat_ofNat']
  omega

theorem withAddress_digit (w : UInt16) : withAddress (digit w 3) (Address.ofWord w) = w := by
  have := w.toNat_lt
  apply UInt16.toNat_inj.1
  simp only [digit, Address.ofWord, withAddress, UInt16.toNat_ofNat']
  omega

theorem withByte_digit (w : UInt16) : withByte (digit w 3) (digit w 2) (byte w) = w := by
  have := w.toNat_lt
  apply UInt16.toNat_inj.1
  simp only [digit, byte, withByte, UInt16.toNat_ofNat', UInt8.toNat_ofNat']
  omega

theorem ofDigits_digit (w : UInt16) :
    ofDigits (digit w 3) (digit w 2) (digit w 1) (digit w 0) = w := by
  have := w.toNat_lt
  apply UInt16.toNat_inj.1
  simp only [digit, ofDigits, UInt16.toNat_ofNat']
  omega

end Word

namespace Operation

def digit : Operation → Nibble
  | set => 0x0
  | or => 0x1
  | and => 0x2
  | xor => 0x3
  | add => 0x4
  | sub => 0x5
  | shiftRight => 0x6
  | subReverse => 0x7
  | shiftLeft => 0xE

def ofDigit : Nibble → Option Operation
  | 0x0 => some set
  | 0x1 => some or
  | 0x2 => some and
  | 0x3 => some xor
  | 0x4 => some add
  | 0x5 => some sub
  | 0x6 => some shiftRight
  | 0x7 => some subReverse
  | 0xE => some shiftLeft
  | _ => none

theorem ofDigit_eq_some_iff {d : Nibble} {op : Operation} : ofDigit d = some op ↔ d = op.digit := by
  revert d
  cases op <;> decide

end Operation

namespace Instruction

open Word

def encode : Instruction → UInt16
  | clearDisplay => 0x00E0
  | ret => 0x00EE
  | exit => 0x00FD
  | jump target => withAddress 0x1 target
  | call target => withAddress 0x2 target
  | skipEqualByte x b => withByte 0x3 x b
  | skipNotEqualByte x b => withByte 0x4 x b
  | skipEqual x y => ofDigits 0x5 x y 0x0
  | setByte x b => withByte 0x6 x b
  | addByte x b => withByte 0x7 x b
  | combine op x y => ofDigits 0x8 x y op.digit
  | skipNotEqual x y => ofDigits 0x9 x y 0x0
  | setIndex target => withAddress 0xA target
  | jumpOffset base => withAddress 0xB base
  | random x mask => withByte 0xC x mask
  | draw x y height => ofDigits 0xD x y height
  | skipPressed x => withByte 0xE x 0x9E
  | skipNotPressed x => withByte 0xE x 0xA1
  | readDelay x => withByte 0xF x 0x07
  | waitKey x => withByte 0xF x 0x0A
  | setDelay x => withByte 0xF x 0x15
  | setSound x => withByte 0xF x 0x18
  | addIndex x => withByte 0xF x 0x1E
  | pointGlyph x => withByte 0xF x 0x29
  | storeDecimal x => withByte 0xF x 0x33
  | storeRegisters last => withByte 0xF last 0x55
  | loadRegisters last => withByte 0xF last 0x65

def decodeBare (w : UInt16) : Option Instruction :=
  if w = 0x00E0 then some clearDisplay
  else if w = 0x00EE then some ret
  else if w = 0x00FD then some exit
  else none

def decodeKey (x : Nibble) (selector : UInt8) : Option Instruction :=
  if selector = 0x9E then some (skipPressed x)
  else if selector = 0xA1 then some (skipNotPressed x)
  else none

def decodeUnary (x : Nibble) (selector : UInt8) : Option Instruction :=
  if selector = 0x07 then some (readDelay x)
  else if selector = 0x0A then some (waitKey x)
  else if selector = 0x15 then some (setDelay x)
  else if selector = 0x18 then some (setSound x)
  else if selector = 0x1E then some (addIndex x)
  else if selector = 0x29 then some (pointGlyph x)
  else if selector = 0x33 then some (storeDecimal x)
  else if selector = 0x55 then some (storeRegisters x)
  else if selector = 0x65 then some (loadRegisters x)
  else none

/-- The head digit selects the form. Of its sixteen values the last branch is left with F. -/
def decode (w : UInt16) : Option Instruction :=
  let x := digit w 2
  let y := digit w 1
  match digit w 3 with
  | 0x0 => decodeBare w
  | 0x1 => some (jump (Address.ofWord w))
  | 0x2 => some (call (Address.ofWord w))
  | 0x3 => some (skipEqualByte x (byte w))
  | 0x4 => some (skipNotEqualByte x (byte w))
  | 0x5 => if digit w 0 = 0 then some (skipEqual x y) else none
  | 0x6 => some (setByte x (byte w))
  | 0x7 => some (addByte x (byte w))
  | 0x8 => (Operation.ofDigit (digit w 0)).map (combine · x y)
  | 0x9 => if digit w 0 = 0 then some (skipNotEqual x y) else none
  | 0xA => some (setIndex (Address.ofWord w))
  | 0xB => some (jumpOffset (Address.ofWord w))
  | 0xC => some (random x (byte w))
  | 0xD => some (draw x y (digit w 0))
  | 0xE => decodeKey x (byte w)
  | _ => decodeUnary x (byte w)

theorem decode_encode (i : Instruction) : decode i.encode = some i := by
  cases i <;>
    simp [encode, decode, decodeKey, decodeUnary, digit_withAddress, ofWord_withAddress,
      digit_three_withByte, digit_two_withByte, byte_withByte, digit_three_ofDigits,
      digit_two_ofDigits, digit_one_ofDigits, digit_zero_ofDigits,
      Operation.ofDigit_eq_some_iff] <;> rfl

theorem encode_of_decodeBare {w : UInt16} {i : Instruction} (h : decodeBare w = some i) :
    i.encode = w := by
  unfold decodeBare at h
  split at h
  · cases h; simp_all [encode]
  split at h
  · cases h; simp_all [encode]
  split at h <;> cases h
  simp_all [encode]

theorem encode_of_decodeKey {w : UInt16} {i : Instruction} (hw : digit w 3 = 0xE)
    (h : decodeKey (digit w 2) (byte w) = some i) : i.encode = w := by
  have hsum := withByte_digit w
  rw [hw] at hsum
  unfold decodeKey at h
  split at h
  · cases h; simp_all [encode]
  split at h <;> cases h
  simp_all [encode]

theorem encode_of_decodeUnary {w : UInt16} {i : Instruction} (hw : digit w 3 = 0xF)
    (h : decodeUnary (digit w 2) (byte w) = some i) : i.encode = w := by
  have hsum := withByte_digit w
  rw [hw] at hsum
  unfold decodeUnary at h
  repeat' split at h
  all_goals cases h
  all_goals simp_all [encode]

theorem encode_of_decode {w : UInt16} {i : Instruction} (h : decode w = some i) :
    i.encode = w := by
  have ha := withAddress_digit w
  have hb := withByte_digit w
  have hd := ofDigits_digit w
  unfold decode at h
  split at h
  case h_1 => exact encode_of_decodeBare h
  case h_15 hw => exact encode_of_decodeKey hw h
  case h_16 => exact encode_of_decodeUnary (by grind) h
  case h_9 hw =>
    obtain ⟨op, hop, rfl⟩ := Option.map_eq_some_iff.1 h
    rw [Operation.ofDigit_eq_some_iff] at hop
    simp only [encode, ← hop]
    simpa [hw] using hd
  case h_6 hw | h_10 hw =>
    split at h <;> cases h
    simp_all [encode]
  all_goals
    cases h
    simp_all [encode]

theorem decode_eq_some_iff {w : UInt16} {i : Instruction} : decode w = some i ↔ i.encode = w :=
  ⟨encode_of_decode, fun h => h ▸ decode_encode i⟩

end Instruction

end Chip8
