import Chip8.Proofs.Countdown
import Chip8.Proofs.HeldKeys

/-! The timers of a session. The sixtieth part of a second that each frame brings is one period of the
timers to the last bit, so a frame ticks once, at its beginning, and owes the timers nothing at its end.
A timer therefore counts the frames since it was set, however many there are. -/

namespace Chip8

namespace Runner

open Machine

/-- The runners that come from one without debts by frames alone, whatever is done to the machine
between them. -/
inductive Driven (rate : Single) : Runner → Prop
  | start (m : Machine) : Driven rate (Runner.start m rate)
  | frame {r : Runner} {rounds : Nat} {u : Update} (before : Driven rate r)
      (returned : r.update rounds tickPeriod = some u) : Driven rate u.runner
  | handled {r : Runner} (before : Driven rate r) (m : Machine) : Driven rate { r with machine := m }

variable {rate : Single} {r : Runner} {rounds : Nat} {u : Update}

theorem pays_tickPeriod : Pays tickPeriod (Single.zero + tickPeriod) 1 Single.zero where
  rest_eq := by decide +kernel
  fits j hj := by
    obtain rfl := Nat.lt_one_iff.1 hj
    decide +kernel
  done := Single.not_le_zero tickPeriod_positive

theorem ticks_of_settled (settled : r.tickDebt = Single.zero)
    (returned : r.update rounds tickPeriod = some u) :
    u.ticks = 1 ∧ u.runner.tickDebt = Single.zero := by
  obtain ⟨s, pays, -⟩ := update_eq_some returned
  rw [settled] at pays
  have once := pays.unique pays_tickPeriod
  rw [once] at pays
  exact ⟨once, pays.rest_eq.trans pays_tickPeriod.rest_eq.symm⟩

theorem Driven.settled (driven : r.Driven rate) : r.tickDebt = Single.zero := by
  induction driven with
  | start m => rfl
  | frame before returned ih => exact (ticks_of_settled ih returned).2
  | handled before m ih => exact ih

theorem machine_of_ticks (returned : r.update rounds tickPeriod = some u) (once : u.ticks = 1) :
    u.runner.machine = (r.machine.run (.tick :: List.replicate u.steps .step)).1 := by
  obtain ⟨s, -, covers, machine_eq, -⟩ := update_eq_some returned
  rw [machine_eq, covers.machine_eq, once]
  rfl

end Runner

namespace Session

open Machine CommandLine

variable {rate : Single} {keys : List Nibble} {rounds n j k : Nat} {first r : Runner} {p q : Frame}
  {timer : Timer} {m : Machine} {x : Nibble}

theorem driven_ready (driven : r.Driven rate) (keys : List Nibble) : (ready keys r).Driven rate := by
  unfold ready
  split
  · exact driven.handled _
  · exact driven

theorem driven_runnerAt (driven : first.Driven rate)
    (reached : runnerAt? rounds keys first n = some r) : r.Driven rate := by
  induction n generalizing r with
  | zero => exact Option.some.inj reached ▸ driven
  | succ n ih =>
    obtain ⟨p, played, -, rfl⟩ := runnerAt_succ.1 reached
    obtain ⟨r, reached, found, returned⟩ := frame_eq_some_iff.1 played
    exact .frame (found ▸ driven_ready (ih reached) keys) returned

theorem ticks_of_frame (driven : first.Driven rate) (played : frame? rounds keys first n = some p) :
    p.update.ticks = 1 ∧ p.update.runner.tickDebt = Single.zero := by
  obtain ⟨r, reached, found, returned⟩ := frame_eq_some_iff.1 played
  have found' : p.runner.Driven rate := found ▸ driven_ready (driven_runnerAt driven reached) keys
  exact Runner.ticks_of_settled found'.settled returned

theorem counter_setKey (m : Machine) (key : Nibble) (pressed : Bool) (timer : Timer) :
    (m.setKey key pressed).counter timer = m.counter timer := by
  cases timer <;> rfl

theorem counter_ready (keys : List Nibble) (r : Runner) (timer : Timer) :
    (ready keys r).machine.counter timer = r.machine.counter timer := by
  unfold ready
  split
  · exact pressAnew_keeps (f := (Machine.counter · timer)) (fun m k p => counter_setKey m k p timer) ..
  · rfl

def Precedes (n j h k : Nat) : Prop := n < h ∨ n = h ∧ j < k

/-- No step between these two sets the timer. -/
def Unset (rounds : Nat) (keys : List Nibble) (first : Runner) (timer : Timer) (n j h k : Nat) :
    Prop :=
  ∀ g q i x, frame? rounds keys first g = some q → i < q.update.steps → Precedes n j g i →
    Precedes g i h k → (q.moment i).pending? ≠ some (timer.setter x)

theorem Frame.counter_moment (p : Frame) (later : j ≤ k)
    (unset : ∀ i, j ≤ i → i < k → ∀ x, (p.moment i).pending? ≠ some (timer.setter x)) :
    (p.moment k).counter timer = (p.moment j).counter timer := by
  induction later with
  | refl => rfl
  | @step k later ih =>
    rw [p.moment_succ, counter_step (unset k later (Nat.lt_succ_self k))]
    exact ih fun i from_ before => unset i from_ (Nat.lt_succ_of_lt before)

theorem machine_of_frame (played : frame? rounds keys first n = some p) :
    p.update.runner.machine = p.moment p.update.steps := by
  obtain ⟨r, -, -, returned⟩ := frame_eq_some_iff.1 played
  obtain ⟨s, -, covers, machine_eq, -⟩ := Runner.update_eq_some returned
  rw [machine_eq, covers.machine_eq, Frame.moment, Runner.moment_eq]

theorem counter_of_next (driven : first.Driven rate)
    (played : frame? rounds keys first n = some p)
    (played' : frame? rounds keys first (n + 1) = some q) (timer : Timer) :
    ((q.moment 0).counter timer).toNat = ((p.moment p.update.steps).counter timer).toNat - 1 := by
  obtain ⟨r, reached, found, -⟩ := frame_eq_some_iff.1 played'
  obtain ⟨p', before, -, left⟩ := runnerAt_succ.1 reached
  obtain rfl := Option.some.inj (played.symm.trans before)
  rw [q.moment_zero, (ticks_of_frame driven played').1, found, ← left, ← machine_of_frame played,
    ← counter_ready keys p.update.runner timer]
  exact (congrArg UInt8.toNat (counter_tick ..)).trans (toNat_countDown _)

theorem counter_since_set (driven : first.Driven rate)
    (played : frame? rounds keys first n = some p)
    (set : (p.moment j).pending? = some (timer.setter x)) (inside : j < p.update.steps) (d : Nat)
    (played' : frame? rounds keys first (n + d) = some q) (within : k ≤ q.update.steps)
    (later : Precedes n j (n + d) k) (unset : Unset rounds keys first timer n j (n + d) k) :
    ((q.moment k).counter timer).toNat = ((p.moment j).registers.get x).toNat - d := by
  induction d generalizing q k with
  | zero =>
    obtain rfl := Option.some.inj (played.symm.trans played')
    have after : j + 1 ≤ k := by
      unfold Precedes at later
      omega
    have still : (p.moment k).counter timer = (p.moment (j + 1)).counter timer := by
      refine p.counter_moment after fun i between before x => ?_
      exact unset n p i x played (Nat.lt_of_lt_of_le before within) (.inr ⟨rfl, between⟩)
        (.inr ⟨rfl, before⟩)
    rw [still, p.moment_succ, counter_step_set set, Nat.sub_zero]
  | succ d ih =>
    -- the frame before, at its last step, and the steps of this frame, which leave the timer alone
    have still : (q.moment k).counter timer = (q.moment 0).counter timer := by
      refine q.counter_moment (Nat.zero_le k) fun i _ before x => ?_
      exact unset (n + d + 1) q i x played' (Nat.lt_of_lt_of_le before within)
        (.inl (by omega)) (.inr ⟨rfl, before⟩)
    obtain ⟨r, reached, -⟩ := frame_eq_some_iff.1 played'
    obtain ⟨p', between, -⟩ := runnerAt_succ.1 reached
    have earlier : Precedes n j (n + d) p'.update.steps := by
      rcases Nat.eq_zero_or_pos d with rfl | positive
      · obtain rfl := Option.some.inj (played.symm.trans between)
        exact .inr ⟨rfl, inside⟩
      · exact .inl (by omega)
    have before := ih between (Nat.le_refl _) earlier fun g q i x played'' busy first last =>
      unset g q i x played'' busy first (by unfold Precedes at last ⊢; omega)
    rw [still, counter_of_next driven between played' timer, before, Nat.sub_sub]

/-- A frame ticks once, before its steps, and leaves no debt to the timers, whatever ends it. So the
timers of a session count its frames: one that a step of some frame sets, and that is not set again,
has lost as much as there are frames since, at each later step. -/
theorem frames_tick_once :
    (∀ rate r, Runner.Driven rate r → ∀ rounds u, r.update rounds framePeriod = some u →
      u.ticks = 1 ∧ u.runner.tickDebt = Single.zero ∧
        u.runner.machine = (r.machine.run (.tick :: List.replicate u.steps .step)).1) ∧
    (∀ rounds entropy o program, Runner.Admissible o.rate → program.size ≤ 3584 →
      let first := opening entropy o program
      (∀ v, (∃ ending, run rounds v entropy o (.ok program) = some ending) ↔
        ∀ n < o.frames, ∀ r, runnerAt? rounds o.heldKeys first n = some r →
          ∃ p, frame? rounds o.heldKeys first n = some p) ∧
      (∀ v ending, run rounds v entropy o (.ok program) = some ending →
        Ends rounds o.heldKeys first o.frames 0 ending.result) ∧
      (∀ n p, (frames rounds o.heldKeys o.frames first)[n]? = some p ↔
        n < o.frames ∧ frame? rounds o.heldKeys first n = some p) ∧
      (∀ n p, frame? rounds o.heldKeys first n = some p →
        p.update.ticks = 1 ∧ p.update.runner.tickDebt = Single.zero) ∧
      ∀ timer n p j x, frame? rounds o.heldKeys first n = some p → j < p.update.steps →
        (p.moment j).pending? = some (timer.setter x) →
        ∀ d q k, frame? rounds o.heldKeys first (n + d) = some q → k ≤ q.update.steps →
          Precedes n j (n + d) k → Unset rounds o.heldKeys first timer n j (n + d) k →
            ((q.moment k).counter timer).toNat = ((p.moment j).registers.get x).toNat - d) := by
  constructor
  · intro rate r driven rounds u returned
    obtain ⟨once, settled⟩ := Runner.ticks_of_settled driven.settled returned
    exact ⟨once, settled, Runner.machine_of_ticks returned once⟩
  · intro rounds entropy o program admissible fits first
    have accepted : Accepted o (.ok program) program := ⟨admissible, rfl, fits⟩
    have driven : first.Driven o.rate := .start _
    refine ⟨fun v => (returns_iff_of_accepted accepted).trans returns_iff,
      fun v ending => ends_of_run accepted, fun n p => getElem_frames_iff,
      fun n p => ticks_of_frame driven, ?_⟩
    intro timer n p j x played inside set d q k played' within later unset
    exact counter_since_set driven played set inside d played' within later unset

theorem frameFrom_at_timer_rate {next : Machine} {answer : Except Fault Outcome}
    (free : m.awaiting? = none) (answered : m.tick.step = (next, answer)) (keys : List Nibble) :
    frameFrom? 2 keys (atTimerRate m) =
      some ⟨atTimerRate m, ⟨atTimerRate next, 1, 1, Runner.verdict (some answer)⟩⟩ :=
  frameFrom_of_ready (ready_of_free free keys) answered

theorem frameFrom_of_jump_back {target : Address} (pending : m.pending? = some (.jump target))
    (back : target.toWord = m.pc) (keys : List Nibble) :
    frameFrom? 2 keys (atTimerRate m) =
      some ⟨atTimerRate m, ⟨atTimerRate m.tick, 1, 1, .ok .running⟩⟩ := by
  have free : m.awaiting? = none := (pending_eq_some_iff.1 pending).2.1
  have pending' : m.tick.pending? = some (.jump target) := (pending_tickTimes m 1).trans pending
  have stayed : m.tick.step = (m.tick, .ok .proceed) := by
    rw [step_jump pending', back]
    rfl
  exact frameFrom_at_timer_rate free stayed keys

def countdown : Array UInt8 := #[0x60, 0x05, 0xF0, 0x15, 0x12, 0x04]

theorem frames_of_countdown (memory : m.memory = Memory.image countdown) (pc : m.pc = 0x200)
    (running : m.halted = false) (free : m.awaiting? = none) :
    Returns 2 [] 4 (atTimerRate m) ∧ ∃ a p b q, frames 2 [] 4 (atTimerRate m) = [a, p, b, q] ∧
      (∀ f ∈ [a, p, b, q], f.update.result = .ok .running ∧ f.update.steps = 1) ∧
      (p.moment 0).pending? = some (.setDelay 0) ∧ (p.moment 0).registers.get 0 = 5 ∧
      Unset 2 [] (atTimerRate m) .delay 1 0 3 1 := by
  let filled := { m.tick with pc := m.pc + 2, registers := m.registers.set 0 5 }
  let counting := { filled.tick with pc := filled.pc + 2, delay := filled.registers.get 0 }
  let a : Frame := ⟨atTimerRate m, ⟨atTimerRate filled, 1, 1, .ok .running⟩⟩
  let p : Frame := ⟨atTimerRate filled, ⟨atTimerRate counting, 1, 1, .ok .running⟩⟩
  let b : Frame := ⟨atTimerRate counting, ⟨atTimerRate counting.tick, 1, 1, .ok .running⟩⟩
  let q : Frame := ⟨atTimerRate counting.tick, ⟨atTimerRate counting.tick.tick, 1, 1, .ok .running⟩⟩
  have fits : countdown.size ≤ Memory.programLimit := by decide
  have ahead : m.pc + 2 = 0x202 := by
    rw [pc]
    rfl
  have ahead' : filled.pc + 2 = 0x204 := congrArg (· + 2) ahead
  have fill : m.tick.pending? = some (.setByte 0 5) :=
    pending_of_image (k := 0) fits rfl rfl memory pc running free (by decide)
  have fill' : m.tick.step = (filled, .ok .proceed) := step_setByte fill
  have set : filled.tick.pending? = some (.setDelay 0) :=
    pending_of_image (k := 2) fits rfl rfl memory ahead running free (by decide)
  have set' : filled.tick.step = (counting, .ok .proceed) := step_setDelay set
  have around : counting.pending? = some (.jump 0x204) :=
    pending_of_image (k := 4) fits rfl rfl memory ahead' running free (by decide)
  have again : counting.tick.pending? = some (.jump 0x204) := (pending_tickTimes counting 1).trans around
  have first : frameFrom? 2 [] (atTimerRate m) = some a := frameFrom_at_timer_rate free fill' []
  have second : frameFrom? 2 [] a.update.runner = some p :=
    frameFrom_at_timer_rate (m := filled) free set' []
  have third : frameFrom? 2 [] p.update.runner = some b :=
    frameFrom_of_jump_back around ahead'.symm []
  have fourth : frameFrom? 2 [] b.update.runner = some q :=
    frameFrom_of_jump_back again ahead'.symm []
  have played : frames 2 [] 4 (atTimerRate m) = [a, p, b, q] := by
    rw [frames_of_running first rfl, frames_of_running second rfl, frames_of_running third rfl,
      frames_of_running fourth rfl]
    rfl
  have value : (p.moment 0).registers.get 0 = 5 := (Bank.get_set ..).trans (if_pos rfl)
  constructor
  · rw [returns_of_running first rfl, returns_of_running second rfl, returns_of_running third rfl]
    exact ⟨q, fourth, fun _ _ => trivial⟩
  · refine ⟨a, p, b, q, played, by simp [a, p, b, q], set, value, ?_⟩
    have numbered : ∀ n f, [a, p, b, q][n]? = some f → frame? 2 [] (atTimerRate m) n = some f :=
      fun n f found => (getElem_frames_iff.1 (played ▸ found)).2
    intro g f i x found busy later before
    have between : g = 1 ∧ 0 < i ∨ g = 2 ∨ g = 3 := by
      unfold Precedes at later before
      omega
    rcases between with ⟨rfl, late⟩ | rfl | rfl
    · obtain rfl := Option.some.inj ((numbered 1 p rfl).symm.trans found)
      exact absurd busy (Nat.not_lt_of_le late)
    · obtain rfl := Option.some.inj ((numbered 2 b rfl).symm.trans found)
      obtain rfl := Nat.lt_one_iff.1 busy
      exact fun other => nomatch again.symm.trans other
    · obtain rfl := Option.some.inj ((numbered 3 q rfl).symm.trans found)
      obtain rfl := Nat.lt_one_iff.1 busy
      have still : counting.tick.tick.pending? = some (.jump 0x204) :=
        (pending_tickTimes counting 2).trans around
      exact fun other => nomatch still.symm.trans other

theorem frames_tick_once_in_countdown :
    let o : Options := ⟨"countdown", timerRate, 4, some 0, [], .plain⟩
    let first := opening (.ofSeed 0) o countdown
    Runner.Admissible o.rate ∧ countdown.size ≤ 3584 ∧
      ∃ p q, frame? 2 [] first 1 = some p ∧ p.runner.Driven timerRate ∧ p.update.steps = 1 ∧
        p.update.runner.machine = (p.runner.machine.run [.tick, .step]).1 ∧
        (p.moment 0).pending? = some (.setDelay 0) ∧ frame? 2 [] first (1 + 2) = some q ∧
        q.update.steps = 1 ∧ Unset 2 [] first .delay 1 0 (1 + 2) 1 ∧
        ((q.moment 1).counter .delay).toNat = 3 ∧
        ∃ ending, run 2 none (.ofSeed 0) o (.ok countdown) = some ending ∧
          ending.result = .ok (q.moment 1) := by
  intro o first
  have admissible : Runner.Admissible o.rate := by decide +kernel
  have fits : countdown.size ≤ 3584 := by decide
  have opened : first = atTimerRate (loaded .plain (.ofSeed 0) countdown) := rfl
  obtain ⟨returns, a, p, b, q, played, running, set, value, unset⟩ :
      Returns 2 [] 4 first ∧ ∃ a p b q, frames 2 [] 4 first = [a, p, b, q] ∧
        (∀ f ∈ [a, p, b, q], f.update.result = .ok .running ∧ f.update.steps = 1) ∧
        (p.moment 0).pending? = some (.setDelay 0) ∧ (p.moment 0).registers.get 0 = 5 ∧
        Unset 2 [] first .delay 1 0 3 1 := by
    rw [opened]
    exact frames_of_countdown rfl rfl rfl rfl
  obtain ⟨ticking, session⟩ := frames_tick_once
  obtain ⟨ending_iff, ends, numbered, -, counts⟩ :=
    session 2 (.ofSeed 0) o countdown admissible fits
  have second := ((numbered 1 p).1 (congrArg (·[1]?) played)).2
  have fourth := ((numbered 3 q).1 (congrArg (·[3]?) played)).2
  have steps : p.update.steps = 1 := (running p (by simp)).2
  have steps' : q.update.steps = 1 := (running q (by simp)).2
  obtain ⟨r, reached, found, returned⟩ := frame_eq_some_iff.1 second
  have start : first.Driven timerRate := .start _
  have driven : p.runner.Driven timerRate :=
    found ▸ driven_ready (driven_runnerAt start reached) []
  obtain ⟨-, -, history⟩ := ticking timerRate p.runner driven 2 p.update returned
  rw [steps] at history
  have left := counts .delay 1 p 0 0 second (by omega) set 2 q 1 fourth (by omega)
    (.inl (by decide)) unset
  rw [value] at left
  obtain ⟨ending, ended⟩ := (ending_iff none).2 (returns_iff.1 returns)
  have result := (ends none ending ended).result_eq [a, p, b] played
    fun f member => (running f member).1
  have last : q.update.runner.machine = q.moment 1 := steps' ▸ machine_of_frame fourth
  exact ⟨admissible, fits, p, q, second, driven, steps, history, set, fourth, steps', unset, left,
    ending, ended, last ▸ result⟩

end Session

end Chip8
