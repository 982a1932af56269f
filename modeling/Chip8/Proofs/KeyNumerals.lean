import Mathlib.Data.Nat.Digits.Defs
import Chip8.CommandLine.Key

/-! Keys on the command line as numerals. A numeral is a mark for base sixteen or none, a plus sign or
none, and digits. Digits are read from the left with a limit, which says the same as reading all of
them and then looking at the number, since numbers do not get smaller by more digits. -/

namespace Chip8

namespace Numeral

variable {base limit value n d : Nat} {c : Char} {cs digits : List Char} {ds : List Nat}

/-- The character is a digit of the base and stands for the number. Letters are of either case. -/
def IsDigit (base d : Nat) (c : Char) : Prop :=
  d < base ∧ (c = d.digitChar ∨ c = d.digitChar.toUpper)

instance : Decidable (IsDigit base d c) := inferInstanceAs (Decidable (_ ∧ _))

/-- Digits of the base, the highest one first, that stand for the number. -/
def Spells (base : Nat) (digits : List Char) (n : Nat) : Prop :=
  ∃ ds, List.Forall₂ (IsDigit base) ds digits ∧ Nat.ofDigits base ds.reverse = n

theorem digitValue_digitChar : ∀ d < 16,
    digitValue 16 d.digitChar = some d ∧ digitValue 16 d.digitChar.toUpper = some d := by
  decide

theorem eq_of_row (row : Nat → Char) {first last : Char} (between : first ≤ c ∧ c ≤ last)
    (rows : ∀ k < last.toNat - first.toNat + 1, Char.ofNat (first.toNat + k) = row k) :
    c = row (c.toNat - first.toNat) := by
  have low : first.toNat ≤ c.toNat := between.1
  have high : c.toNat ≤ last.toNat := between.2
  rw [← rows _ (by omega), Nat.add_sub_cancel' low, Char.ofNat_toNat]

theorem isDigit_of_digitValue (h : digitValue base c = some d) : IsDigit base d c := by
  obtain ⟨small, same⟩ := Option.ite_none_right_eq_some.1 h
  obtain rfl := Option.some.inj same
  refine ⟨small, ?_⟩
  split at small
  · rw [if_pos ‹_›]
    exact .inl (eq_of_row Nat.digitChar ‹_› (by decide))
  · rw [if_neg ‹_›]
    split at small
    · rw [if_pos ‹_›]
      exact .inl (eq_of_row (fun k => (k + 10).digitChar) ‹_› (by decide))
    · rw [if_neg ‹_›]
      split at small
      · rw [if_pos ‹_›]
        exact .inr (eq_of_row (fun k => (k + 10).digitChar.toUpper) ‹_› (by decide))
      · exact absurd small (Nat.lt_irrefl base)

theorem digitValue_of_isDigit (hb : base ≤ 16) (h : IsDigit base d c) :
    digitValue base c = some d := by
  have hexadecimal : digitValue 16 c = some d := by
    rcases h with ⟨small, rfl | rfl⟩
    · exact (digitValue_digitChar d (by omega)).1
    · exact (digitValue_digitChar d (by omega)).2
  have small := h.1
  simp only [digitValue] at hexadecimal ⊢
  grind

def reach (base value : Nat) (ds : List Nat) : Nat := ds.foldl (fun n d => n * base + d) value

theorem ofDigits_reverse (base : Nat) (ds : List Nat) :
    Nat.ofDigits base ds.reverse = reach base 0 ds := by
  rw [Nat.ofDigits_eq_foldr, List.foldr_reverse, reach]
  simp only [Nat.cast_id, Nat.add_comm, Nat.mul_comm]

theorem le_reach (hp : 0 < base) (value : Nat) (ds : List Nat) : value ≤ reach base value ds := by
  induction ds generalizing value with
  | nil => exact Nat.le_refl value
  | cons d ds ih =>
    calc
      value ≤ value * base := Nat.le_mul_of_pos_right value hp
      _ ≤ value * base + d := Nat.le_add_right _ d
      _ ≤ reach base value (d :: ds) := ih _

theorem readDigits_of_digits (hp : 0 < base) (hb : base ≤ 16) (hv : value ≤ limit)
    (h : List.Forall₂ (IsDigit base) ds cs) : readDigits base limit value cs =
      if reach base value ds ≤ limit then .ok (reach base value ds) else .error .tooLarge := by
  induction h generalizing value with
  | nil => exact (if_pos hv).symm
  | @cons d c ds cs hd _ ih =>
    simp only [readDigits, digitValue_of_isDigit hb hd]
    split
    · exact ih ‹_›
    · -- the limit is passed here, and no later digit leads back below it
      have past := le_reach hp (value * base + d) ds
      exact (if_neg fun small => ‹¬_› (past.trans small)).symm

theorem readDigits_of_spells (hp : 0 < base) (hb : base ≤ 16) (h : Spells base cs n) :
    readDigits base limit 0 cs = if n ≤ limit then .ok n else .error .tooLarge := by
  obtain ⟨ds, hds, rfl⟩ := h
  rw [ofDigits_reverse]
  exact readDigits_of_digits hp hb (Nat.zero_le limit) hds

theorem digits_of_readDigits (h : readDigits base limit value cs = .ok n) :
    ∃ ds, List.Forall₂ (IsDigit base) ds cs := by
  fun_induction readDigits base limit value cs with
  | case1 => exact ⟨[], .nil⟩
  | case2 => cases h
  | case3 value c rest d hd le ih =>
    obtain ⟨ds, hds⟩ := ih h
    exact ⟨d :: ds, .cons (isDigit_of_digitValue hd) hds⟩
  | case4 => cases h

theorem digits_of_tooLarge (h : readDigits base limit value cs = .error .tooLarge) :
    ∃ before after ds, cs = before ++ after ∧ List.Forall₂ (IsDigit base) ds before ∧
      readDigits base limit value before = .error .tooLarge := by
  fun_induction readDigits base limit value cs with
  | case1 => cases h
  | case2 => cases h
  | case3 value c rest d hd le ih =>
    obtain ⟨before, after, ds, rfl, hds, past⟩ := ih h
    refine ⟨c :: before, after, d :: ds, rfl, .cons (isDigit_of_digitValue hd) hds, ?_⟩
    simp only [readDigits, hd, if_pos le, past]
  | case4 value c rest d hd past =>
    refine ⟨[c], rest, [d], rfl, .cons (isDigit_of_digitValue hd) .nil, ?_⟩
    simp only [readDigits, hd, if_neg past]

theorem readDigits_eq_ok_iff (hp : 0 < base) (hb : base ≤ 16) :
    readDigits base limit 0 cs = .ok n ↔ Spells base cs n ∧ n ≤ limit := by
  constructor
  · intro h
    obtain ⟨ds, hds⟩ := digits_of_readDigits h
    have spelled : Spells base cs _ := ⟨ds, hds, rfl⟩
    rw [readDigits_of_spells hp hb spelled] at h
    split at h
    · cases h
      exact ⟨spelled, ‹_›⟩
    · cases h
  · rintro ⟨spelled, small⟩
    rw [readDigits_of_spells hp hb spelled, if_pos small]

theorem readDigits_eq_tooLarge_iff (hp : 0 < base) (hb : base ≤ 16) :
    readDigits base limit 0 cs = .error .tooLarge ↔
      ∃ before after n, cs = before ++ after ∧ Spells base before n ∧ limit < n := by
  constructor
  · intro h
    obtain ⟨before, after, ds, rfl, hds, past⟩ := digits_of_tooLarge h
    have spelled : Spells base before _ := ⟨ds, hds, rfl⟩
    rw [readDigits_of_spells hp hb spelled] at past
    split at past
    · cases past
    · exact ⟨before, after, _, rfl, spelled, Nat.lt_of_not_le ‹_›⟩
  · rintro ⟨before, after, n, rfl, spelled, large⟩
    rw [readDigits_append, readDigits_of_spells hp hb spelled, if_neg (Nat.not_le_of_lt large)]
    rfl

def Numeric : Except Problem Nat → Prop
  | .ok _ | .error .tooLarge => True
  | .error .empty | .error .invalidDigit => False

theorem read_eq_iff {r : Except Problem Nat} (numeric : Numeric r) : read base limit cs = r ↔
    ∃ digits, (cs = digits ∨ cs = '+' :: digits) ∧ digits ≠ [] ∧
      readDigits base limit 0 digits = r := by
  have sign : digitValue base '+' = none := if_neg (Nat.lt_irrefl base)
  constructor
  · rintro rfl
    unfold read at numeric ⊢
    split
    · exact absurd numeric id
    · rename_i digits
      cases digits with
      | nil => exact absurd numeric id
      | cons c rest => exact ⟨c :: rest, .inr rfl, List.cons_ne_nil c rest, rfl⟩
    · exact ⟨cs, .inl rfl, ‹cs = [] → False›, rfl⟩
  · rintro ⟨digits, rfl | rfl, nonempty, h⟩
    · unfold read
      split
      · exact absurd rfl nonempty
      · simp only [readDigits, sign] at h
        subst h
        exact absurd numeric id
      · exact h
    · cases digits with
      | nil => exact absurd rfl nonempty
      | cons c rest => exact h

end Numeral

namespace CommandLine

open Numeral

variable {base n : Nat} {c : Char} {cs opening digits : List Char} {k : Nibble}

/-- Digits are of base sixteen behind a mark and of base ten without one. -/
inductive Mark : (base : Nat) → List Char → Prop
  | decimal : Mark 10 []
  | lower : Mark 16 ['0', 'x']
  | upper : Mark 16 ['0', 'X']

/-- What may stand before the digits of a base: a mark and then a plus sign or nothing. -/
inductive Opening : (base : Nat) → List Char → Prop
  | unsigned {base : Nat} {mark : List Char} (marked : Mark base mark) : Opening base mark
  | signed {base : Nat} {mark : List Char} (marked : Mark base mark) : Opening base (mark ++ ['+'])

def Writes (cs : List Char) (n : Nat) : Prop :=
  ∃ base opening digits, Opening base opening ∧ digits ≠ [] ∧ Spells base digits n ∧
    cs = opening ++ digits

def Overruns (cs : List Char) : Prop :=
  ∃ base opening digits rest n, Opening base opening ∧ Spells base digits n ∧ 255 < n ∧
    cs = opening ++ (digits ++ rest)

def refusal? (text : String) : Option String :=
  match readKey text.toList with
  | .ok _ => none
  | .error problem => some problem.message

theorem Opening.base_bounds (opened : Opening base opening) : 0 < base ∧ base ≤ 16 := by
  cases opened with
  | unsigned marked | signed marked => cases marked <;> decide

theorem readByte_eq_read_iff {r : Except Problem Nat} (numeric : Numeric r) :
    readByte cs = r ↔
      ∃ base mark rest, Mark base mark ∧ cs = mark ++ rest ∧ Numeral.read base 255 rest = r := by
  constructor
  · intro h
    unfold readByte at h
    split at h
    · exact ⟨16, _, _, .lower, rfl, h⟩
    · exact ⟨16, _, _, .upper, rfl, h⟩
    · exact ⟨10, _, _, .decimal, rfl, h⟩
  · rintro ⟨base, mark, rest, marked, rfl, h⟩
    cases marked with
    | lower | upper => exact h
    | decimal =>
      -- a mark of base sixteen is no numeral of base ten
      subst h
      rw [List.nil_append]
      unfold readByte
      split
      · exact absurd numeric id
      · exact absurd numeric id
      · rfl

theorem readByte_eq_iff {r : Except Problem Nat} (numeric : Numeric r) : readByte cs = r ↔
    ∃ base opening digits, Opening base opening ∧ digits ≠ [] ∧ cs = opening ++ digits ∧
      readDigits base 255 0 digits = r := by
  rw [readByte_eq_read_iff numeric]
  constructor
  · rintro ⟨base, mark, rest, marked, rfl, h⟩
    obtain ⟨digits, rfl | rfl, nonempty, h⟩ := (read_eq_iff numeric).1 h
    · exact ⟨base, mark, rest, .unsigned marked, nonempty, rfl, h⟩
    · refine ⟨base, mark ++ ['+'], digits, .signed marked, nonempty, ?_, h⟩
      rw [List.append_assoc, List.singleton_append]
  · rintro ⟨base, opening, digits, opened, nonempty, rfl, h⟩
    cases opened with
    | unsigned marked =>
      have read := (read_eq_iff numeric).2 ⟨digits, .inl rfl, nonempty, h⟩
      exact ⟨base, opening, digits, marked, rfl, read⟩
    | @signed mark marked =>
      have read := (read_eq_iff numeric).2 ⟨digits, .inr rfl, nonempty, h⟩
      refine ⟨base, mark, '+' :: digits, marked, ?_, read⟩
      rw [List.append_assoc, List.singleton_append]

theorem readByte_eq_ok_iff : readByte cs = .ok n ↔ Writes cs n ∧ n ≤ 255 := by
  rw [readByte_eq_iff (r := .ok n) trivial]
  constructor
  · rintro ⟨base, opening, digits, opened, nonempty, rfl, h⟩
    obtain ⟨positive, small⟩ := opened.base_bounds
    obtain ⟨spelled, le⟩ := (readDigits_eq_ok_iff positive small).1 h
    exact ⟨⟨base, opening, digits, opened, nonempty, spelled, rfl⟩, le⟩
  · rintro ⟨⟨base, opening, digits, opened, nonempty, spelled, rfl⟩, le⟩
    obtain ⟨positive, small⟩ := opened.base_bounds
    have h := (readDigits_eq_ok_iff positive small).2 ⟨spelled, le⟩
    exact ⟨base, opening, digits, opened, nonempty, rfl, h⟩

theorem readByte_eq_ok_iff_of_le (le : n ≤ 255) : readByte cs = .ok n ↔ Writes cs n := by
  rw [readByte_eq_ok_iff, and_iff_left le]

theorem readByte_eq_tooLarge_iff : readByte cs = .error .tooLarge ↔ Overruns cs := by
  rw [readByte_eq_iff (r := .error .tooLarge) trivial]
  constructor
  · rintro ⟨base, opening, digits, opened, nonempty, rfl, h⟩
    obtain ⟨positive, small⟩ := opened.base_bounds
    obtain ⟨before, after, n, rfl, spelled, large⟩ := (readDigits_eq_tooLarge_iff positive small).1 h
    exact ⟨base, opening, before, after, n, opened, spelled, large, rfl⟩
  · rintro ⟨base, opening, digits, rest, n, opened, spelled, large, rfl⟩
    obtain ⟨positive, small⟩ := opened.base_bounds
    have h := (readDigits_eq_tooLarge_iff positive small).2 ⟨digits, rest, n, rfl, spelled, large⟩
    refine ⟨base, opening, digits ++ rest, opened, ?_, rfl, h⟩
    intro none
    rw [none] at h
    cases h

theorem readKey_of_error {problem : Numeral.Problem} (h : readByte cs = .error problem) :
    readKey cs = .error (.numeral problem) := by
  simp only [readKey, h]

theorem readKey_of_ok (h : readByte cs = .ok n) :
    readKey cs = if small : n < 16 then .ok ⟨n, small⟩ else .error (.overflow ⟨UInt8.ofNat n⟩) := by
  have byte : (UInt8.ofNat n).toNat = n := by
    have le := (readByte_eq_ok_iff.1 h).2
    rw [UInt8.toNat_ofNat']
    omega
  simp only [readKey, h, Nibble.ofByte, byte]
  split <;> rfl

theorem readKey_eq_ok_iff : readKey cs = .ok k ↔ Writes cs k.val := by
  rw [← readByte_eq_ok_iff_of_le (by omega)]
  cases h : readByte cs with
  | error problem => simp only [readKey_of_error h, reduceCtorEq]
  | ok n =>
    rw [readKey_of_ok h]
    split
    · simp only [Except.ok.injEq, Fin.ext_iff]
    · simp only [reduceCtorEq, Except.ok.injEq, false_iff]
      omega

theorem readKey_eq_numeral_iff {problem : Numeral.Problem} :
    readKey cs = .error (.numeral problem) ↔ readByte cs = .error problem := by
  cases h : readByte cs with
  | error other => simp only [readKey_of_error h, Except.error.injEq, KeyProblem.numeral.injEq]
  | ok n =>
    rw [readKey_of_ok h]
    split <;> simp only [reduceCtorEq, Except.error.injEq]

theorem readKey_eq_overflow_iff {b : UInt8} :
    readKey cs = .error (.overflow ⟨b⟩) ↔ 16 ≤ b.toNat ∧ Writes cs b.toNat := by
  rw [← readByte_eq_ok_iff_of_le (Nat.le_of_lt_succ b.toNat_lt)]
  cases h : readByte cs with
  | error problem => simp only [readKey_of_error h, reduceCtorEq, Except.error.injEq, and_false]
  | ok n =>
    have le := (readByte_eq_ok_iff.1 h).2
    rw [readKey_of_ok h]
    split
    · simp only [reduceCtorEq, Except.ok.injEq, false_iff]
      omega
    · simp only [Except.error.injEq, KeyProblem.overflow.injEq, NibbleOverflow.mk.injEq,
        Except.ok.injEq, ← UInt8.toNat_inj, UInt8.toNat_ofNat']
      omega

theorem message_byte (b : UInt8) : NibbleOverflow.message ⟨b⟩ = "value 0x" ++ String.ofList
    [(b.toNat / 16).digitChar.toUpper, (b.toNat % 16).digitChar.toUpper] ++
    " does not fit in a nibble" := by
  have padded : ∀ n < 256, Hex.padded 2 n =
      [(n / 16).digitChar.toUpper, (n % 16).digitChar.toUpper] := by
    decide +kernel
  rw [NibbleOverflow.message, Hex.marked, Hex.paddedText, padded b.toNat b.toNat_lt,
    ← String.append_assoc]
  rfl

theorem upperDigit_inj : ∀ a < 16, ∀ b < 16,
    a.digitChar.toUpper = b.digitChar.toUpper → a = b := by
  decide +kernel

theorem message_overflow_inj {d e : NibbleOverflow} (h : d.message = e.message) : d = e := by
  obtain ⟨a⟩ := d
  obtain ⟨b⟩ := e
  have ha := a.toNat_lt
  have hb := b.toNat_lt
  rw [message_byte, message_byte, String.append_left_inj, String.append_right_inj,
    String.ofList_inj, List.cons.injEq, List.cons.injEq] at h
  have high := upperDigit_inj _ (by omega) _ (by omega) h.1
  have low := upperDigit_inj _ (by omega) _ (by omega) h.2.1
  have same : a = b := UInt8.toNat_inj.1 (by omega)
  rw [same]

theorem message_numeral_ne (p : Numeral.Problem) (e : NibbleOverflow) :
    p.message ≠ e.message := by
  have initial : e.message.toList.head? = some 'v' := by
    rw [NibbleOverflow.message, String.toList_append, String.toList_append]
    rfl
  intro same
  rw [← same] at initial
  cases p <;> exact absurd initial (by decide)

theorem message_inj {p q : KeyProblem} (h : p.message = q.message) : p = q := by
  cases p with
  | numeral p =>
    cases q with
    | numeral q => cases p <;> cases q <;> first | rfl | exact absurd h (by decide)
    | overflow e => exact absurd h (message_numeral_ne p e)
  | overflow d =>
    cases q with
    | numeral q => exact absurd h.symm (message_numeral_ne q d)
    | overflow e => exact congrArg _ (message_overflow_inj h)

theorem refusal_eq_some_iff {text said : String} : refusal? text = some said ↔
    ∃ problem, readKey text.toList = .error problem ∧ problem.message = said := by
  unfold refusal?
  cases readKey text.toList with
  | ok k => simp only [reduceCtorEq, false_and, exists_false]
  | error problem => simp only [Option.some.injEq, Except.error.injEq, exists_eq_left']

theorem refusal_eq_message_iff (text : String) (problem : KeyProblem) :
    refusal? text = some problem.message ↔ readKey text.toList = .error problem := by
  rw [refusal_eq_some_iff]
  constructor
  · rintro ⟨other, h, said⟩
    rw [h, message_inj said]
  · intro h
    exact ⟨problem, h, rfl⟩

inductive Admitted : Char → Prop
  | plus : Admitted '+'
  | lower : Admitted 'x'
  | upper : Admitted 'X'
  | digit {d : Nat} {c : Char} (digit : IsDigit 16 d c) : Admitted c

theorem admitted_of_digits {ds : List Nat} (hb : base ≤ 16)
    (h : List.Forall₂ (IsDigit base) ds digits) : ∀ c ∈ digits, Admitted c := by
  induction h with
  | nil => exact List.forall_mem_nil _
  | cons digit _ ih => exact List.forall_mem_cons.2 ⟨.digit ⟨digit.1.trans_le hb, digit.2⟩, ih⟩

theorem admitted_of_opening (opened : Opening base opening) : ∀ c ∈ opening, Admitted c := by
  have zero : IsDigit 16 0 '0' := by decide
  cases opened with
  | unsigned marked | signed marked =>
    cases marked <;> simp [Admitted.digit zero, Admitted.lower, Admitted.upper, Admitted.plus]

theorem admitted_of_writes (h : Writes cs n) : ∀ c ∈ cs, Admitted c := by
  obtain ⟨base, opening, digits, opened, -, ⟨ds, hds, -⟩, rfl⟩ := h
  have behind := admitted_of_digits opened.base_bounds.2 hds
  exact List.forall_mem_append.2 ⟨admitted_of_opening opened, behind⟩

theorem not_readKey_of_opening (opened : Opening base cs) : readKey cs ≠ .ok k := by
  cases opened with
  | unsigned marked | signed marked => cases marked <;> exact nofun

theorem overruns_of_writes (h : Writes cs n) (large : 255 < n) : Overruns cs := by
  obtain ⟨base, opening, digits, opened, -, spelled, rfl⟩ := h
  refine ⟨base, opening, digits, [], n, opened, spelled, large, ?_⟩
  rw [List.append_nil]

theorem Writes.eq_of_key (hn : Writes cs n) (hk : Writes cs k.val) : n = k.val := by
  have key := (readByte_eq_ok_iff_of_le (by omega)).2 hk
  by_cases small : n ≤ 255
  · have byte := (readByte_eq_ok_iff_of_le small).2 hn
    rw [key] at byte
    exact (Except.ok.inj byte).symm
  · have past := readByte_eq_tooLarge_iff.2 (overruns_of_writes hn (Nat.lt_of_not_le small))
    rw [key] at past
    cases past

/-- The keys are the numerals for numbers below sixteen. Every other text is refused, in particular one
without digits, with a character that no numeral has, or for a larger number. A number that fits into a
byte is said not to fit in a nibble, and digits that run past every byte are said to be too large,
whatever follows them. -/
theorem keys_are_small_numerals (text : String) :
    (∀ k : Nibble, readKey text.toList = .ok k ↔ Writes text.toList k.val) ∧
    ((∀ k : Nibble, ¬Writes text.toList k.val) → ∃ said, refusal? text = some said) ∧
    ((∃ base, Opening base text.toList) ∨ (∃ c ∈ text.toList, ¬Admitted c) ∨
      (∃ n, 15 < n ∧ Writes text.toList n) → ∃ said, refusal? text = some said) ∧
    (∀ b : UInt8, refusal? text = some ("value 0x" ++ String.ofList
        [(b.toNat / 16).digitChar.toUpper, (b.toNat % 16).digitChar.toUpper] ++
        " does not fit in a nibble") ↔ 16 ≤ b.toNat ∧ Writes text.toList b.toNat) ∧
    (refusal? text = some "number too large to fit in target type" ↔ Overruns text.toList) := by
  have refused : (∀ k : Nibble, ¬Writes text.toList k.val) → ∃ said, refusal? text = some said := by
    intro foreign
    cases h : readKey text.toList with
    | ok k => exact absurd (readKey_eq_ok_iff.1 h) (foreign k)
    | error problem => exact ⟨problem.message, (refusal_eq_message_iff text problem).2 h⟩
  refine ⟨fun k => readKey_eq_ok_iff, refused, ?_, ?_, ?_⟩
  · intro cause
    apply refused
    intro k written
    rcases cause with ⟨base, opened⟩ | ⟨c, hc, other⟩ | ⟨n, large, h⟩
    · exact not_readKey_of_opening opened (readKey_eq_ok_iff.2 written)
    · exact other (admitted_of_writes written c hc)
    · have same := h.eq_of_key written
      omega
  · intro b
    rw [← message_byte, ← readKey_eq_overflow_iff]
    exact refusal_eq_message_iff text (.overflow ⟨b⟩)
  · rw [← readByte_eq_tooLarge_iff, ← readKey_eq_numeral_iff]
    exact refusal_eq_message_iff text (.numeral .tooLarge)

theorem keys_are_small_numerals_before_minus :
    Writes "0X+00f".toList 15 ∧ readKey "0X+00f".toList = .ok 15 ∧
      Writes "+0255".toList 255 ∧
      refusal? "+0255" = some "value 0xFF does not fit in a nibble" ∧
      Overruns "0x1000-".toList ∧
      refusal? "0x1000-" = some "number too large to fit in target type" ∧
      '-' ∈ "0x1000-".toList ∧ ¬Admitted '-' ∧ ∃ said, refusal? "0x1000-" = some said := by
  have key : Writes "0X+00f".toList 15 := by
    refine ⟨16, ['0', 'X', '+'], ['0', '0', 'f'], .signed .upper, by decide,
      ⟨[0, 0, 15], ?_, rfl⟩, rfl⟩
    exact .cons (by decide) (.cons (by decide) (.cons (by decide) .nil))
  have byte : Writes "+0255".toList 255 := by
    refine ⟨10, ['+'], ['0', '2', '5', '5'], .signed .decimal, by decide,
      ⟨[0, 2, 5, 5], ?_, rfl⟩, rfl⟩
    exact .cons (by decide) (.cons (by decide) (.cons (by decide) (.cons (by decide) .nil)))
  have large : Overruns "0x1000-".toList := by
    refine ⟨16, ['0', 'x'], ['1', '0', '0', '0'], ['-'], 0x1000, .unsigned .lower,
      ⟨[1, 0, 0, 0], ?_, rfl⟩, by decide, rfl⟩
    exact .cons (by decide) (.cons (by decide) (.cons (by decide) (.cons (by decide) .nil)))
  have minus : '-' ∈ "0x1000-".toList := by decide
  have stray : ¬Admitted '-' := by
    have digitless : ∀ d < 16, ¬IsDigit 16 d '-' := by decide
    rintro ⟨⟩
    exact digitless _ ‹IsDigit 16 _ '-'›.1 ‹IsDigit 16 _ '-'›
  obtain ⟨keys, -⟩ := keys_are_small_numerals "0X+00f"
  obtain ⟨-, -, -, bytes, -⟩ := keys_are_small_numerals "+0255"
  obtain ⟨-, -, refused, -, past⟩ := keys_are_small_numerals "0x1000-"
  exact ⟨key, (keys 15).2 key, byte, (bytes 255).2 ⟨by decide, byte⟩, large, past.2 large, minus,
    stray, refused (.inr (.inl ⟨'-', minus, stray⟩))⟩

end CommandLine

end Chip8
