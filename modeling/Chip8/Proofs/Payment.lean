import Chip8.Proofs.Absorption
import Chip8.Proofs.Pacing

/-! Debts that can be paid off. Rounding may leave a debt as it is when a period is taken off, and a
loop that meets such a debt goes round for ever. It meets one within its first two rounds or never. So
an update returns, whatever the program, exactly when neither of its two debts stalls that early, and
surely when both are below 2²⁴ periods: `update_returns_iff`. -/

namespace Chip8

namespace Single

variable {q n : Nat} {hq : Representable q} {hn : Representable n}

theorem finite_le_finite : finite false q hq ≤ finite false n hn ↔ q ≤ n := by
  show Single.le _ _ = true ↔ q ≤ n
  simp [Single.le, signedUnits]

theorem ofUnits_of_le {x : Nat} (fits : Representable n) (h : x ≤ n) :
    ∃ fits', ofUnits false x = finite false (nearest x 1) fits' := by
  have small : nearest x 1 < tooLarge := Nat.lt_of_le_of_lt (nearest_le fits.2 h) fits.1
  exact ⟨representable_nearest small, dif_pos small⟩

theorem finite_sub_finite (hq : Representable q) (hn : Representable n) (h : q ≤ n) :
    ∃ fits, finite false n hn - finite false q hq = finite false (nearest (n - q) 1) fits := by
  show ∃ fits, addUnits false n true q = _
  have larger : ¬n < q := Nat.not_lt_of_le h
  rcases Nat.lt_or_eq_of_le h with less | rfl
  · simp only [addUnits, Bool.false_eq_true, if_false, if_neg larger, if_pos less]
    exact ofUnits_of_le hn (Nat.sub_le n q)
  · simp only [addUnits, Bool.false_eq_true, if_false, Nat.lt_irrefl, Nat.sub_self]
    exact ⟨by decide, rfl⟩

theorem twoPow_excess_le {n : Nat} (pos : 0 < n) : twoPow (excess n) ≤ n := by
  rcases Nat.eq_zero_or_pos (excess n) with none | large
  · rw [none]
    exact pos
  · refine Nat.le_trans (Nat.le_of_dvd (twoPow_pos _) (twoPow_dvd ?_)) (twoPow_le_of_excess large)
    exact Nat.le_add_left _ 23

theorem nearest_pos {a b : Nat} (pos : 0 < b) (h : b ≤ a) : 0 < nearest a b := by
  have whole : 0 < a / b := Nat.div_pos h pos
  have quotient : 0 < a / (b * twoPow (excess (a / b))) := by
    rw [← Nat.div_div_eq_div_mul]
    exact Nat.div_pos (twoPow_excess_le whole) (twoPow_pos _)
  refine Nat.mul_pos (Nat.lt_of_lt_of_le quotient ?_) (twoPow_pos _)
  unfold roundEven
  split <;> omega

theorem ofRatio_positive {a b : Nat} (pos : 0 < b) (h : b ≤ a) :
    (ofRatio false a b).isPositive = true := by
  unfold ofRatio
  split
  · simp [isPositive, Nat.ne_of_gt (nearest_pos pos h)]
  · rfl

theorem reciprocal_positive {a : Single} (finite : a.isFinite = true)
    (positive : a.isPositive = true) : (Single.ofNat 1 / a).isPositive = true := by
  cases a with
  | nan s => cases finite
  | infinite s => cases finite
  | finite s n fits =>
    cases s with
    | true => cases positive
    | false =>
      have pos : 0 < n := by simpa [isPositive, Nat.pos_iff_ne_zero] using positive
      have unit : Single.ofNat 1 = Single.finite false one (by decide) := by decide +kernel
      have small : n ≤ one * one := by
        have bound : tooLarge ≤ one * one := by decide +kernel
        exact Nat.le_of_lt (Nat.lt_of_lt_of_le fits.1 bound)
      rw [unit]
      show (if n = 0 then _ else ofRatio false (one * one) n).isPositive = true
      rw [if_neg (Nat.ne_of_gt pos)]
      exact ofRatio_positive pos small

theorem cases_of_positive_le {a b : Single} (positive : a.isPositive = true) (h : a ≤ b) :
    b = infinite false ∨ ∃ q n hq hn, 0 < q ∧ a = finite false q hq ∧ b = finite false n hn := by
  change Single.le a b = true at h
  cases a with
  | nan s => cases positive
  | infinite s =>
    cases s with
    | true => cases positive
    | false =>
      cases b with
      | nan t => cases h
      | infinite t =>
        cases t with
        | true => cases h
        | false => exact .inl rfl
      | finite t n hn => cases h
  | finite s q hq =>
    cases s with
    | true => cases positive
    | false =>
      have pos : 0 < q := by simpa [isPositive, Nat.pos_iff_ne_zero] using positive
      cases b with
      | nan t => cases h
      | infinite t =>
        cases t with
        | true => cases h
        | false => exact .inl rfl
      | finite t n hn =>
        cases t with
        | true =>
          have below : (q : Int) ≤ -n := by simpa [Single.le, signedUnits] using h
          omega
        | false => exact .inr ⟨q, n, hq, hn, pos, rfl, rfl⟩

end Single

namespace Runner

open Single Machine

/-- A debt that is left as it is when a period is taken off. -/
def Stalled (period debt : Single) : Prop := period ≤ debt ∧ debt - period = debt

instance (period debt : Single) : Decidable (Stalled period debt) :=
  inferInstanceAs (Decidable (period ≤ debt ∧ debt - period = debt))

/-- A debt that stalls neither at once nor after the first period. -/
def Payable (period debt : Single) : Prop :=
  ¬Stalled period debt ∧ ¬(period ≤ debt ∧ Stalled period (debt - period))

instance (period debt : Single) : Decidable (Payable period debt) :=
  inferInstanceAs (Decidable (¬Stalled period debt ∧
    ¬(period ≤ debt ∧ Stalled period (debt - period))))

variable {period debt span : Single} {rounds paid steps q n : Nat} {hq : Representable q}
  {hn : Representable n} {m : Machine} {r : Runner} {rate : Single}

theorem payOff_stalled (stalled : Stalled period debt) (rounds paid : Nat) :
    payOff period rounds debt paid = none := by
  induction rounds generalizing paid with
  | zero => rfl
  | succ rounds ih => rw [payOff, if_pos stalled.1, stalled.2, ih]

theorem payOff_of_not_le (h : ¬period ≤ debt) (paid : Nat) :
    payOff period 1 debt paid = some (paid, debt) := by
  rw [payOff, if_neg h]

theorem payOff_of_moves (hq : Representable q) (hn : Representable n)
    (free : ∀ k ≤ n, Representable k → q ≤ k → ¬Single.Absorbs k q) (paid : Nat) :
    ∃ rounds a, payOff (.finite false q hq) rounds (.finite false n hn) paid = some a := by
  induction n using Nat.strongRecOn generalizing paid with
  | ind n ih =>
    by_cases fits : q ≤ n
    · obtain ⟨fits', difference⟩ := finite_sub_finite hq hn fits
      -- a debt that does not absorb the period is smaller after it
      have less : nearest (n - q) 1 < n :=
        Nat.lt_of_le_of_ne (nearest_le hn.2 (Nat.sub_le n q)) (free n (Nat.le_refl n) hn fits)
      obtain ⟨rounds, a, returned⟩ := ih _ less fits'
        (fun k hk => free k (Nat.le_trans hk (Nat.le_of_lt less))) (paid + 1)
      refine ⟨rounds + 1, a, ?_⟩
      rw [payOff, if_pos (finite_le_finite.2 fits), difference, returned]
    · exact ⟨1, _, payOff_of_not_le (fun h => fits (finite_le_finite.1 h)) paid⟩

theorem stalled_iff (fits : q ≤ n) :
    Stalled (.finite false q hq) (.finite false n hn) ↔ Single.Absorbs n q := by
  obtain ⟨fits', difference⟩ := finite_sub_finite hq hn fits
  simp only [Stalled, finite_le_finite, fits, difference, true_and, Single.Absorbs,
    Single.finite.injEq]

theorem payOff_of_payable_finite (pos : 0 < q)
    (payable : Payable (.finite false q hq) (.finite false n hn)) (paid : Nat) :
    ∃ rounds a, payOff (.finite false q hq) rounds (.finite false n hn) paid = some a := by
  by_cases fits : q ≤ n
  · obtain ⟨fits', difference⟩ := finite_sub_finite hq hn fits
    obtain ⟨first, second⟩ := payable
    rw [stalled_iff fits] at first
    rw [difference, finite_le_finite] at second
    have free : ∀ k ≤ nearest (n - q) 1, Representable k → q ≤ k → ¬Single.Absorbs k q := by
      intro k le short fitsK
      have second' := fun h => second ⟨fits, (stalled_iff (Nat.le_trans fitsK le)).2 h⟩
      rcases Nat.lt_or_eq_of_le le with below | rfl
      · exact not_absorbs_below hn.2 short.2 pos first second' below fitsK
      · exact second'
    obtain ⟨rounds, a, returned⟩ := payOff_of_moves hq fits' free (paid + 1)
    refine ⟨rounds + 1, a, ?_⟩
    rw [payOff, if_pos (finite_le_finite.2 fits), difference, returned]
  · exact ⟨1, _, payOff_of_not_le (fun h => fits (finite_le_finite.1 h)) paid⟩

/-- Of the debts that are no finite numbers, infinity alone reaches a period. It stalls, but for a
period that is infinite as well. -/
theorem payOff_of_payable (positive : period.isPositive = true) (payable : Payable period debt)
    (paid : Nat) : ∃ rounds a, payOff period rounds debt paid = some a := by
  by_cases fits : period ≤ debt
  · rcases cases_of_positive_le positive fits with rfl | ⟨q, n, hq, hn, pos, rfl, rfl⟩
    · cases period with
      | nan s => cases positive
      | finite s q hq => exact absurd ⟨fits, rfl⟩ payable.1
      | infinite s =>
        cases s with
        | true => cases positive
        | false =>
          refine ⟨2, (paid + 1, .nan false), ?_⟩
          rw [payOff, if_pos fits]
          exact payOff_of_not_le (by decide) _
    · exact payOff_of_payable_finite pos payable paid
  · exact ⟨1, _, payOff_of_not_le fits paid⟩

theorem payOff_returns_iff (positive : period.isPositive = true) (paid : Nat) :
    (∃ rounds a, payOff period rounds debt paid = some a) ↔ Payable period debt := by
  constructor
  · rintro ⟨rounds, a, returned⟩
    constructor
    · intro stalled
      rw [payOff_stalled stalled] at returned
      cases returned
    · rintro ⟨fits, stalled⟩
      cases rounds with
      | zero => cases returned
      | succ rounds =>
        rw [payOff, if_pos fits, payOff_stalled stalled] at returned
        cases returned
  · intro payable
    exact payOff_of_payable positive payable paid

theorem stepOff_of_payOff {a : Nat × Single} (m : Machine) (steps : Nat)
    (returned : payOff period rounds debt paid = some a) :
    ∃ s, stepOff period rounds m debt steps = some s := by
  induction rounds generalizing m debt paid steps with
  | zero => cases returned
  | succ rounds ih =>
    rw [payOff] at returned
    rw [stepOff]
    by_cases fits : period ≤ debt
    · rw [if_pos fits] at returned ⊢
      rcases m.step with ⟨next, fault | outcome⟩
      · exact ⟨_, rfl⟩
      · cases outcome with
        | proceed => exact ih next (steps + 1) returned
        | endOfFrame => exact ⟨_, rfl⟩
        | halted => exact ⟨_, rfl⟩
    · rw [if_neg fits]
      exact ⟨_, rfl⟩

theorem payOff_of_stepOff {s : Stretch} (loops : m.step = (m, .ok .proceed)) (paid : Nat)
    (returned : stepOff period rounds m debt steps = some s) :
    ∃ a, payOff period rounds debt paid = some a := by
  induction rounds generalizing debt paid steps with
  | zero => cases returned
  | succ rounds ih =>
    rw [stepOff] at returned
    rw [payOff]
    by_cases fits : period ≤ debt
    · rw [if_pos fits, loops] at returned
      rw [if_pos fits]
      exact ih (paid + 1) returned
    · rw [if_neg fits]
      exact ⟨_, rfl⟩

theorem tickPeriod_positive : tickPeriod.isPositive = true := by
  decide +kernel

theorem tickTimes_of_calm (calm : m.tick = m) (n : Nat) : m.tickTimes n = m := by
  induction n with
  | zero => rfl
  | succ n ih => rw [tickTimes, calm, ih]

theorem update_of_payable (positive : r.stepPeriod.isPositive = true)
    (ticks : Payable tickPeriod (r.tickDebt + span))
    (steps : Payable r.stepPeriod (r.stepDebt + span)) :
    ∃ rounds u, r.update rounds span = some u := by
  obtain ⟨j, a, ticked⟩ := (payOff_returns_iff tickPeriod_positive 0).2 ticks
  obtain ⟨k, b, paid⟩ := (payOff_returns_iff positive 0).2 steps
  obtain ⟨s, stepped⟩ := stepOff_of_payOff (r.machine.tickTimes a.1) 0
    (payOff_rounds (Nat.le_max_right j k) paid)
  refine ⟨max j k, ⟨⟨s.machine, r.stepPeriod, s.debt, a.2⟩, a.1, s.steps, s.result⟩, ?_⟩
  rw [update, payOff_rounds (Nat.le_max_left j k) ticked]
  simp only [stepped]

theorem payable_of_update {rounds : Nat} {u : Update} (calm : r.machine.tick = r.machine)
    (loops : r.machine.step = (r.machine, .ok .proceed)) (positive : r.stepPeriod.isPositive = true)
    (returned : r.update rounds span = some u) :
    Payable tickPeriod (r.tickDebt + span) ∧ Payable r.stepPeriod (r.stepDebt + span) := by
  unfold update at returned
  cases ticked : payOff tickPeriod rounds (r.tickDebt + span) 0 with
  | none =>
    rw [ticked] at returned
    cases returned
  | some a =>
    rw [ticked] at returned
    simp only [tickTimes_of_calm calm] at returned
    cases stepped : stepOff r.stepPeriod rounds r.machine (r.stepDebt + span) 0 with
    | none =>
      rw [stepped] at returned
      cases returned
    | some s =>
      obtain ⟨b, paid⟩ := payOff_of_stepOff loops 0 stepped
      exact ⟨(payOff_returns_iff tickPeriod_positive 0).1 ⟨rounds, a, ticked⟩,
        (payOff_returns_iff positive 0).1 ⟨rounds, b, paid⟩⟩

/-- The runners that updates lead to from one without debts. -/
inductive Reached (rate : Single) : Runner → Prop
  | start (m : Machine) : Reached rate (Runner.start m rate)
  | update {r : Runner} {rounds : Nat} {span : Single} {u : Update} (before : Reached rate r)
      (returned : r.update rounds span = some u) : Reached rate u.runner

theorem Reached.stepPeriod_eq (reached : Reached rate r) :
    r.stepPeriod = Single.ofNat 1 / rate := by
  induction reached with
  | start m => rfl
  | update before returned ih =>
    obtain ⟨s, -, -, -, period_eq, -⟩ := update_eq_some returned
    exact period_eq.trans ih

theorem Reached.positive (admissible : Admissible rate) (reached : Reached rate r) :
    r.stepPeriod.isPositive = true := by
  rw [reached.stepPeriod_eq]
  exact reciprocal_positive admissible.1 admissible.2

def Within (count : Nat) : (period debt : Single) → Prop
  | .finite false q _, .finite false n _ => n < count * q
  | _, _ => False

theorem not_within_infinite {count : Nat} {s : Bool} : ¬Within count period (.infinite s) := by
  rcases period with t | t | ⟨t, q, hq⟩
  · exact id
  · exact id
  · cases t <;> exact id

theorem not_stalled_of_within (positive : period.isPositive = true)
    (within : Within (twoPow 24) period debt) : ¬Stalled period debt := by
  intro stalled
  rcases cases_of_positive_le positive stalled.1 with rfl | ⟨q, n, hq, hn, pos, rfl, rfl⟩
  · exact not_within_infinite within
  · have fits : q ≤ n := finite_le_finite.1 stalled.1
    have many : twoPow 24 * q ≤ n := le_of_absorbs pos fits ((stalled_iff fits).1 stalled)
    exact Nat.not_le_of_gt within many

theorem Within.sub {count : Nat} (within : Within count period debt)
    (positive : period.isPositive = true) (fits : period ≤ debt) :
    Within count period (debt - period) := by
  rcases cases_of_positive_le positive fits with rfl | ⟨q, n, hq, hn, -, rfl, rfl⟩
  · exact absurd within not_within_infinite
  · obtain ⟨fits', difference⟩ := finite_sub_finite hq hn (finite_le_finite.1 fits)
    rw [difference]
    exact Nat.lt_of_le_of_lt (nearest_le hn.2 (Nat.sub_le n q)) within

theorem payable_of_within (positive : period.isPositive = true)
    (within : Within (twoPow 24) period debt) : Payable period debt := by
  refine ⟨not_stalled_of_within positive within, ?_⟩
  rintro ⟨fits, stalled⟩
  exact not_stalled_of_within positive (within.sub positive fits) stalled

theorem stalled_of_not_within (positive : period.isPositive = true)
    (finite : period.isFinite = true) (fits : period ≤ debt)
    (beyond : ¬Within (twoPow 25) period debt) : Stalled period debt := by
  rcases cases_of_positive_le positive fits with rfl | ⟨q, n, hq, hn, pos, rfl, rfl⟩
  · cases period with
    | nan s => cases finite
    | infinite s => cases finite
    | finite s q hq => exact ⟨fits, rfl⟩
  · exact (stalled_iff (finite_le_finite.1 fits)).2 (absorbs_of_le hn.2 pos (Nat.le_of_not_lt beyond))

def spin : Machine := loaded .plain (.ofSeed 0) #[0x12, 0x00]

theorem tick_spin : spin.tick = spin := rfl

theorem step_spin : spin.step = (spin, .ok .proceed) := by
  have word : spin.fetch = 0x1200 :=
    (fetch_loaded _ _ #[0x12, 0x00] (by decide) (by decide)).trans (by decide)
  have decoded : Instruction.decode spin.fetch = some (.jump 0x200) := by
    rw [word]
    decide
  exact step_of_jump_back rfl rfl decoded (by decide)

theorem update_spin (positive : r.stepPeriod.isPositive = true)
    (unpayable : ¬Payable r.stepPeriod (r.stepDebt + span)) (rounds : Nat) :
    { r with machine := spin }.update rounds span = none := by
  cases returned : { r with machine := spin }.update rounds span with
  | none => rfl
  | some u =>
    have payable :=
      payable_of_update (r := { r with machine := spin }) tick_spin step_spin positive returned
    exact absurd payable.2 unpayable

/-- An update returns for every program exactly when neither of its debts stalls. Debts of less than
2²⁴ periods do not stall, and from 2²⁵ periods on they do: then the ticks never end, or the steps of a
program that goes on for ever. -/
theorem update_returns_iff (admissible : Admissible rate) (reached : r.Reached rate)
    (span : Single) :
    ((∀ m, ∃ rounds u, { r with machine := m }.update rounds span = some u) ↔
      Payable tickPeriod (r.tickDebt + span) ∧ Payable r.stepPeriod (r.stepDebt + span)) ∧
    (Within (twoPow 24) tickPeriod (r.tickDebt + span) →
      Within (twoPow 24) r.stepPeriod (r.stepDebt + span) →
        ∀ m, ∃ rounds u, { r with machine := m }.update rounds span = some u) ∧
    (tickPeriod ≤ r.tickDebt + span → ¬Within (twoPow 25) tickPeriod (r.tickDebt + span) →
      ∀ m rounds, { r with machine := m }.update rounds span = none) ∧
    (r.stepPeriod.isFinite = true → r.stepPeriod ≤ r.stepDebt + span →
      ¬Within (twoPow 25) r.stepPeriod (r.stepDebt + span) →
        ∃ m, ∀ rounds, { r with machine := m }.update rounds span = none) := by
  have positive := reached.positive admissible
  refine ⟨⟨?_, ?_⟩, ?_, ?_, ?_⟩
  · intro returns
    obtain ⟨rounds, u, returned⟩ := returns spin
    exact payable_of_update (r := { r with machine := spin }) tick_spin step_spin positive returned
  · rintro ⟨ticks, steps⟩ m
    exact update_of_payable positive ticks steps
  · intro ticks steps m
    exact update_of_payable positive (payable_of_within tickPeriod_positive ticks)
      (payable_of_within positive steps)
  · intro fits beyond m rounds
    have stalled := stalled_of_not_within tickPeriod_positive (by decide +kernel) fits beyond
    rw [update, payOff_stalled stalled]
  · intro finite fits beyond
    have stalled := stalled_of_not_within positive finite fits beyond
    exact ⟨spin, update_spin positive fun payable => payable.1 stalled⟩

theorem update_returns_at_default_rate :
    let r := Runner.start spin defaultRate
    Admissible defaultRate ∧ r.Reached defaultRate ∧
      ∃ rounds u, r.update rounds tickPeriod = some u := by
  intro r
  have admissible : Admissible defaultRate := by decide +kernel
  have reached : r.Reached defaultRate := .start spin
  have payable : Payable tickPeriod (Single.zero + tickPeriod) ∧
      Payable (Single.ofNat 1 / defaultRate) (Single.zero + tickPeriod) := by decide +kernel
  exact ⟨admissible, reached, (update_returns_iff admissible reached tickPeriod).1.2 payable spin⟩

theorem update_stalls_at_high_rate :
    let rate := Single.ofNat 1000000000000
    Admissible rate ∧ tickPeriod.isFinite = true ∧ Single.zero ≤ tickPeriod ∧
      ∀ rounds, (Runner.start spin rate).update rounds tickPeriod = none := by
  intro rate
  have unpayable : ¬Payable (Single.ofNat 1 / rate) (Single.zero + tickPeriod) := by
    decide +kernel
  refine ⟨by decide +kernel, by decide +kernel, by decide +kernel, ?_⟩
  exact update_spin (r := Runner.start spin rate) (by decide +kernel) unpayable

end Runner

end Chip8
