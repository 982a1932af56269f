import Chip8.Proofs.Consistency
import Chip8.Proofs.Interleaving
import Chip8.Proofs.KeyWait
import Chip8.Proofs.PlayedFrames

/-! Keys that a session holds down. They are let go and pressed anew between the steps only, so that
every step finds them down, and the first of them answers every wait at the first step after the frame
in which it began. A session that holds no key never gets beyond a wait. -/

namespace Chip8

namespace Machine

variable {m n k : Machine} {x key : Nibble}

def UpToTimers (m n : Machine) : Prop := n = { m with delay := n.delay, sound := n.sound }

namespace UpToTimers

theorem refl (m : Machine) : m.UpToTimers m := rfl

theorem trans (h : m.UpToTimers n) (h' : n.UpToTimers k) : m.UpToTimers k := by
  unfold UpToTimers at h h' ⊢
  rw [h', h]

theorem upToInputs (h : m.UpToTimers n) : m.UpToInputs n := by
  unfold UpToInputs
  rw [h]

theorem tick (m : Machine) : m.UpToTimers m.tick := rfl

theorem tickTimes (m : Machine) (count : Nat) : m.UpToTimers (m.tickTimes count) := by
  induction count generalizing m with
  | zero => exact refl m
  | succ count ih => exact (tick m).trans (ih m.tick)

end UpToTimers

theorem setKey_latched (kept : m.latched? = some key) (other : Nibble) (pressed : Bool) :
    (m.setKey other pressed).latched? = some key := by
  simp [setKey, kept]

end Machine

namespace Session

open Machine CommandLine

variable {m : Machine} {keys : List Nibble} {key x : Nibble} {p : Frame} {rounds n : Nat}
  {first r : Runner}

theorem keypad_holdAll (m : Machine) (keys : List Nibble) (key : Nibble) :
    (holdAll m keys).keypad.get key = true ↔ m.keypad.get key = true ∨ key ∈ keys := by
  induction keys generalizing m with
  | nil => simp [holdAll]
  | cons k keys ih =>
    refine (ih (m.setKey k true)).trans ?_
    simp only [setKey, Bank.get_set, List.mem_cons, eq_comm (a := k)]
    by_cases same : key = k <;> simp [same]

theorem keypad_pressAnew (m : Machine) (keys : List Nibble) (key : Nibble) :
    (pressAnew m keys).keypad.get key = true ↔ m.keypad.get key = true ∨ key ∈ keys := by
  induction keys generalizing m with
  | nil => simp [pressAnew]
  | cons k keys ih =>
    refine (ih ((m.setKey k false).setKey k true)).trans ?_
    simp only [setKey, Bank.get_set, List.mem_cons, eq_comm (a := k)]
    by_cases same : key = k <;> simp [same]

theorem holdAll_keeps {α : Type} {f : Machine → α}
    (kept : ∀ m key pressed, f (Machine.setKey m key pressed) = f m) (m : Machine)
    (keys : List Nibble) : f (holdAll m keys) = f m := by
  induction keys generalizing m with
  | nil => rfl
  | cons k keys ih => exact (ih (m.setKey k true)).trans (kept m k true)

theorem pressAnew_keeps {α : Type} {f : Machine → α}
    (kept : ∀ m key pressed, f (Machine.setKey m key pressed) = f m) (m : Machine)
    (keys : List Nibble) : f (pressAnew m keys) = f m := by
  induction keys generalizing m with
  | nil => rfl
  | cons k keys ih =>
    refine (ih ((m.setKey k false).setKey k true)).trans ?_
    rw [kept, kept]

theorem awaiting_holdAll (m : Machine) (keys : List Nibble) :
    (holdAll m keys).awaiting? = m.awaiting? := holdAll_keeps (fun _ _ _ => rfl) m keys

theorem awaiting_pressAnew (m : Machine) (keys : List Nibble) :
    (pressAnew m keys).awaiting? = m.awaiting? := pressAnew_keeps (fun _ _ _ => rfl) m keys

theorem consistent_holdAll (consistent : m.Consistent) (keys : List Nibble) :
    (holdAll m keys).Consistent := by
  induction keys generalizing m with
  | nil => exact consistent
  | cons k keys ih => exact ih (consistent.setKey k true)

theorem consistent_pressAnew (consistent : m.Consistent) (keys : List Nibble) :
    (pressAnew m keys).Consistent := by
  induction keys generalizing m with
  | nil => exact consistent
  | cons k keys ih => exact ih ((consistent.setKey k false).setKey k true)

theorem latched_pressAnew_of_latched (kept : m.latched? = some key) (keys : List Nibble) :
    (pressAnew m keys).latched? = some key := by
  induction keys generalizing m with
  | nil => exact kept
  | cons k keys ih => exact ih (setKey_latched (setKey_latched kept k false) k true)

theorem halted_pressAnew (m : Machine) (keys : List Nibble) :
    (pressAnew m keys).halted = m.halted := pressAnew_keeps (fun _ _ _ => rfl) m keys

theorem latched_pressAnew (awaiting : m.awaiting?.isSome = true) (unlatched : m.latched? = none)
    (key : Nibble) (more : List Nibble) :
    (pressAnew m (key :: more)).latched? = some key := by
  refine latched_pressAnew_of_latched (m := (m.setKey key false).setKey key true) ?_ more
  simp [setKey, awaiting, unlatched]

theorem ready_of_free (free : r.machine.awaiting? = none) (keys : List Nibble) :
    ready keys r = r := by
  simp [ready, free]

theorem ready_of_waiting (awaiting : r.machine.awaiting? = some x) (keys : List Nibble) :
    ready keys r = { r with machine := pressAnew r.machine keys } := by
  simp [ready, awaiting]

theorem ready_nil (r : Runner) : ready [] r = r := by
  unfold ready
  split <;> rfl

structure Poised (keys : List Nibble) (m : Machine) : Prop where
  consistent : m.Consistent
  held : ∀ key, m.keypad.get key = true ↔ key ∈ keys

namespace Poised

theorem holdAll (consistent : m.Consistent) (released : ∀ key, m.keypad.get key = false)
    (keys : List Nibble) : Poised keys (holdAll m keys) where
  consistent := consistent_holdAll consistent keys
  held key := by simp [keypad_holdAll, released]

theorem pressAnew (h : Poised keys m) : Poised keys (pressAnew m keys) where
  consistent := consistent_pressAnew h.consistent keys
  held key := by rw [keypad_pressAnew, h.held, or_self_iff]

theorem ready (h : Poised keys r.machine) : Poised keys (ready keys r).machine := by
  unfold Session.ready
  split
  · exact h.pressAnew
  · exact h

theorem upToTimers {m' : Machine} (h : Poised keys m) (same : m.UpToTimers m') :
    Poised keys m' where
  consistent := by
    obtain ⟨stack_le, latched, exclusive, awaiting, halted⟩ := h.consistent
    rw [same]
    exact ⟨stack_le, latched, exclusive, awaiting, halted⟩
  held key := by
    rw [same]
    exact h.held key

theorem step (h : Poised keys m) : Poised keys m.step.1 where
  consistent := h.consistent.step
  held key := by rw [keypad_step, h.held]

theorem moment (h : Poised keys p.runner.machine) (j : Nat) : Poised keys (p.moment j) := by
  induction j with
  | zero =>
    rw [p.moment_zero]
    exact h.upToTimers (.tickTimes ..)
  | succ j ih =>
    rw [p.moment_succ]
    exact ih.step

end Poised

theorem poised_runnerAt (positive : first.stepPeriod.isPositive = true)
    (poised : Poised keys first.machine) (reached : runnerAt? rounds keys first n = some r) :
    Poised keys r.machine := by
  induction n generalizing r with
  | zero => exact Option.some.inj reached ▸ poised
  | succ n ih =>
    obtain ⟨p, played, -, rfl⟩ := runnerAt_succ.1 reached
    obtain ⟨r, reached, found, -⟩ := frame_eq_some_iff.1 played
    have earlier : Poised keys p.runner.machine := by
      rw [found]
      exact (ih reached).ready
    rw [(unfolds_of_frame positive played).machine_eq]
    exact earlier.moment p.update.steps

theorem poised_frame (positive : first.stepPeriod.isPositive = true)
    (poised : Poised keys first.machine) (played : frame? rounds keys first n = some p) :
    Poised keys p.runner.machine := by
  obtain ⟨r, reached, found, -⟩ := frame_eq_some_iff.1 played
  rw [found]
  exact (poised_runnerAt positive poised reached).ready

def Frame.Begins (p : Frame) (x : Nibble) : Prop :=
  ∃ j, p.update.steps = j + 1 ∧ (p.moment j).pending? = some (.waitKey x)

namespace Frame

variable {j k : Nat}

theorem found_upToTimers (p : Frame) : p.runner.machine.UpToTimers (p.moment 0) := by
  rw [p.moment_zero]
  exact .tickTimes ..

theorem last_of_waitKey (unfolds : p.update.Unfolds p.runner framePeriod) (inside : j < p.update.steps)
    (pending : (p.moment j).pending? = some (.waitKey x)) : j + 1 = p.update.steps :=
  unfolds.last j inside (.inr (.inl ⟨x, pending⟩))

theorem machine_of_last (unfolds : p.update.Unfolds p.runner framePeriod)
    (last : p.update.steps = j + 1) : p.update.runner.machine = (p.moment j).step.1 := by
  rw [← p.moment_succ, ← last]
  exact unfolds.machine_eq

theorem running_of_last {outcome : Outcome} (unfolds : p.update.Unfolds p.runner framePeriod)
    (last : p.update.steps = j + 1) (answer : (p.moment j).step.2 = .ok outcome)
    (goes : outcome ≠ .halted) : p.update.result = .ok .running := by
  refine unfolds.running.2 fun i same => ?_
  obtain rfl : i = j := by omega
  cases outcome with
  | proceed => exact .inl answer
  | endOfFrame => exact .inr answer
  | halted => exact absurd rfl goes

theorem free_or_begins (unfolds : p.update.Unfolds p.runner framePeriod)
    (free : (p.moment j).awaiting? = none) (later : j ≤ k) (inside : k ≤ p.update.steps) :
    (p.moment k).awaiting? = none ∨ k = p.update.steps ∧ ∃ x, p.Begins x := by
  induction later with
  | refl => exact .inl free
  | @step k _ ih =>
    rcases ih (Nat.le_of_lt inside) with free | ⟨ended, -⟩
    · by_cases begins : ∃ x, (p.moment k).pending? = some (.waitKey x)
      · obtain ⟨x, pending⟩ := begins
        have last := last_of_waitKey unfolds inside pending
        exact .inr ⟨last, x, k, last.symm, pending⟩
      · rw [p.moment_succ]
        exact .inl (awaiting_step free (not_exists.1 begins))
    · exact absurd ended (Nat.ne_of_lt inside)

theorem Begins.ending (begins : p.Begins x) (unfolds : p.update.Unfolds p.runner framePeriod) :
    p.update.runner.machine.awaiting? = some x ∧ p.update.runner.machine.latched? = none := by
  obtain ⟨j, last, pending⟩ := begins
  rw [machine_of_last unfolds last, step_waitKey pending]
  exact ⟨rfl, rfl⟩

end Frame

/-- The wait of frame `n` began in an earlier frame that kept no key. The frames since have all found
this key kept, which was therefore pressed after the wait began, and none but the last took a step. -/
def PressedSince (rounds : Nat) (keys : List Nibble) (first : Runner) (key x : Nibble) (n : Nat) :
    Prop :=
  ∃ k < n, ∃ q, frame? rounds keys first k = some q ∧ q.Begins x ∧
    q.update.runner.machine.latched? = none ∧
    ∀ h p, k < h → h ≤ n → frame? rounds keys first h = some p →
      p.runner.machine.latched? = some key ∧ (h < n → p.update.steps = 0)

section Held

variable {more : List Nibble}

theorem latched_of_pressedSince (since : PressedSince rounds keys first key x n)
    (played : frame? rounds keys first n = some p) : p.runner.machine.latched? = some key := by
  obtain ⟨k, before, -, -, -, -, kept⟩ := since
  exact (kept n p before (Nat.le_refl n) played).1

theorem pressedSince_of_begins {q : Frame} (unfolds : q.update.Unfolds q.runner framePeriod)
    (played : frame? rounds (key :: more) first n = some q) (begins : q.Begins x)
    (played' : frame? rounds (key :: more) first (n + 1) = some p)
    (found : p.runner = ready (key :: more) q.update.runner) :
    p.runner.machine.awaiting? = some x ∧
      PressedSince rounds (key :: more) first key x (n + 1) := by
  obtain ⟨awaiting, unlatched⟩ := begins.ending unfolds
  rw [ready_of_waiting awaiting] at found
  have latched : p.runner.machine.latched? = some key := by
    rw [found]
    exact latched_pressAnew (by rw [awaiting]; rfl) unlatched key more
  refine ⟨?_, n, Nat.lt_succ_self n, q, played, begins, unlatched, ?_⟩
  · rw [found]
    exact (awaiting_pressAnew ..).trans awaiting
  · intro h p' after before played''
    obtain rfl : h = n + 1 := Nat.le_antisymm before after
    obtain rfl := Option.some.inj (played'.symm.trans played'')
    exact ⟨latched, fun less => absurd less (Nat.lt_irrefl _)⟩

theorem pressedSince_succ {q : Frame} (unfolds : q.update.Unfolds q.runner framePeriod)
    (played : frame? rounds keys first n = some q) (idle : q.update.steps = 0)
    (awaiting : q.runner.machine.awaiting? = some x)
    (since : PressedSince rounds keys first key x n)
    (played' : frame? rounds keys first (n + 1) = some p)
    (found : p.runner = ready keys q.update.runner) :
    p.runner.machine.awaiting? = some x ∧ PressedSince rounds keys first key x (n + 1) := by
  have left : q.runner.machine.UpToTimers q.update.runner.machine := by
    rw [unfolds.machine_eq, idle]
    exact q.found_upToTimers
  have latched' : q.update.runner.machine.latched? = some key := by
    rw [left]
    exact latched_of_pressedSince since played
  have awaiting' : q.update.runner.machine.awaiting? = some x := by
    rw [left]
    exact awaiting
  rw [ready_of_waiting awaiting'] at found
  have latched : p.runner.machine.latched? = some key := by
    rw [found]
    exact latched_pressAnew_of_latched latched' keys
  obtain ⟨k, earlier, q', began, begins, unlatched, kept⟩ := since
  refine ⟨?_, k, Nat.lt_succ_of_lt earlier, q', began, begins, unlatched, ?_⟩
  · rw [found]
    exact (awaiting_pressAnew ..).trans awaiting'
  · intro h p' after before played''
    -- up to frame `n` this is what was known, and frame `n` itself took no step
    rcases Nat.lt_or_eq_of_le before with inside | rfl
    · obtain ⟨latched, still⟩ := kept h p' after (Nat.le_of_lt_succ inside) played''
      refine ⟨latched, fun _ => ?_⟩
      rcases Nat.lt_or_eq_of_le (Nat.le_of_lt_succ inside) with less | rfl
      · exact still less
      · obtain rfl := Option.some.inj (played.symm.trans played'')
        exact idle
    · obtain rfl := Option.some.inj (played'.symm.trans played'')
      exact ⟨latched, fun less => absurd less (Nat.lt_irrefl _)⟩

theorem step_of_kept (consistent : p.runner.machine.Consistent)
    (awaiting : p.runner.machine.awaiting? = some x) (latched : p.runner.machine.latched? = some key) :
    (p.moment 0).step = ({ p.moment 0 with
      registers := (p.moment 0).registers.set x key.toByte
      pc := (p.moment 0).pc + 2
      awaiting? := none
      latched? := none }, .ok .proceed) := by
  have same := p.found_upToTimers
  have running : p.runner.machine.halted = false := by
    have exclusive := consistent.exclusive
    simpa [awaiting] using exclusive
  refine step_of_latched ?_ ?_ ?_
  · rw [same]
    exact running
  · rw [same]
    exact awaiting
  · rw [same]
    exact latched

theorem waiting_frame (positive : first.stepPeriod.isPositive = true)
    (poised : Poised (key :: more) first.machine) (free : first.machine.awaiting? = none)
    (played : frame? rounds (key :: more) first n = some p) :
    p.runner.machine.awaiting? = none ∨ ∃ x, p.runner.machine.awaiting? = some x ∧
      PressedSince rounds (key :: more) first key x n := by
  induction n generalizing p with
  | zero =>
    obtain ⟨r, reached, found, -⟩ := frame_eq_some_iff.1 played
    obtain rfl := Option.some.inj reached
    rw [found, ready_of_free free]
    exact .inl free
  | succ n ih =>
    obtain ⟨r, reached, found, -⟩ := frame_eq_some_iff.1 played
    obtain ⟨q, earlier, running, rfl⟩ := runnerAt_succ.1 reached
    have unfolds := unfolds_of_frame positive earlier
    -- from a moment without a wait on, the frame before either begins one or leaves none
    have settled : ∀ j ≤ q.update.steps, (q.moment j).awaiting? = none →
        p.runner.machine.awaiting? = none ∨ ∃ x, p.runner.machine.awaiting? = some x ∧
          PressedSince rounds (key :: more) first key x (n + 1) := by
      intro j inside free
      rcases q.free_or_begins unfolds free inside (Nat.le_refl _) with free | ⟨-, x, begins⟩
      · have left : q.update.runner.machine.awaiting? = none := by
          rw [unfolds.machine_eq]
          exact free
        rw [found, ready_of_free left]
        exact .inl left
      · exact .inr ⟨x, pressedSince_of_begins unfolds earlier begins played found⟩
    have same := q.found_upToTimers
    -- the frame before found no wait, or took its key with the first step, or took no step
    rcases ih earlier with free | ⟨x, awaiting, since⟩
    · refine settled 0 (Nat.zero_le _) ?_
      rw [same]
      exact free
    · rcases Nat.eq_zero_or_pos q.update.steps with idle | busy
      · exact .inr ⟨x, pressedSince_succ unfolds earlier idle awaiting since played found⟩
      · have taken := step_of_kept (poised_frame positive poised earlier).consistent awaiting
          (latched_of_pressedSince since earlier)
        refine settled 1 busy ?_
        rw [q.moment_succ, taken]

theorem step_of_waiting (positive : first.stepPeriod.isPositive = true)
    (poised : Poised (key :: more) first.machine) (free : first.machine.awaiting? = none)
    (played : frame? rounds (key :: more) first n = some p) {j : Nat} (inside : j < p.update.steps)
    (awaiting : (p.moment j).awaiting? = some x) :
    (p.moment j).step = ({ p.moment j with
      registers := (p.moment j).registers.set x key.toByte
      pc := (p.moment j).pc + 2
      awaiting? := none
      latched? := none }, .ok .proceed) ∧ PressedSince rounds (key :: more) first key x n := by
  have unfolds := unfolds_of_frame positive played
  have same := p.found_upToTimers
  -- a moment without a wait, at or before this step, leaves none for it
  have never : ∀ i ≤ j, (p.moment i).awaiting? ≠ none := by
    intro i before free
    rcases p.free_or_begins unfolds free before (Nat.le_of_lt inside) with free | ⟨ended, -⟩
    · exact absurd (awaiting.symm.trans free) nofun
    · exact absurd ended (Nat.ne_of_lt inside)
  rcases waiting_frame positive poised free played with free | ⟨y, awaited, since⟩
  · refine absurd ?_ (never 0 (Nat.zero_le j))
    rw [same]
    exact free
  · have taken := step_of_kept (poised_frame positive poised played).consistent awaited
      (latched_of_pressedSince since played)
    cases j with
    | zero =>
      obtain rfl : x = y := by
        rw [same] at awaiting
        exact Option.some.inj (awaiting.symm.trans awaited)
      exact ⟨taken, since⟩
    | succ j =>
      refine absurd ?_ (never 1 (Nat.succ_le_succ (Nat.zero_le j)))
      rw [p.moment_succ, taken]

theorem stores_of_waiting (positive : first.stepPeriod.isPositive = true)
    (poised : Poised (key :: more) first.machine) (free : first.machine.awaiting? = none)
    (played : frame? rounds (key :: more) first n = some p) {j : Nat} (inside : j < p.update.steps)
    (awaiting : (p.moment j).awaiting? = some x) :
    let left := (p.moment j).step.1
    (p.moment j).step.2 = .ok .proceed ∧ left.registers.get x = key.toByte ∧
    (∀ y, y ≠ x → left.registers.get y = (p.moment j).registers.get y) ∧
    left = { p.moment j with
      registers := left.registers
      pc := (p.moment j).pc + 2
      awaiting? := none
      latched? := none } ∧
    PressedSince rounds (key :: more) first key x n := by
  intro left
  obtain ⟨taken, since⟩ := step_of_waiting positive poised free played inside awaiting
  have left_eq : left = _ := congrArg Prod.fst taken
  have stored : ∀ y, left.registers.get y =
      if x = y then key.toByte else (p.moment j).registers.get y := by
    intro y
    rw [left_eq]
    exact Bank.get_set ..
  refine ⟨congrArg Prod.snd taken, (stored x).trans (if_pos rfl), ?_, ?_, since⟩
  · exact fun y other => (stored y).trans (if_neg (Ne.symm other))
  · rw [left_eq]

end Held

section Unheld

variable {asleep : Machine}

theorem Frame.moment_upToTimers (waiting : asleep.Waiting x)
    (found : asleep.UpToTimers p.runner.machine) (j : Nat) : asleep.UpToTimers (p.moment j) := by
  induction j with
  | zero => exact found.trans p.found_upToTimers
  | succ j ih =>
    rw [p.moment_succ, (waiting.upToInputs ih.upToInputs).step]
    exact ih

theorem Frame.running_of_waiting (unfolds : p.update.Unfolds p.runner framePeriod)
    (waiting : asleep.Waiting x) (found : asleep.UpToTimers p.runner.machine) :
    p.update.result = .ok .running := by
  refine unfolds.running.2 fun j _ => .inr ?_
  have still : (p.moment j).Waiting x :=
    waiting.upToInputs (Frame.moment_upToTimers waiting found j).upToInputs
  exact congrArg Prod.snd still.step

theorem runnerAt_upToTimers (positive : first.stepPeriod.isPositive = true)
    (waiting : asleep.Waiting x) (played : frame? rounds [] first n = some p)
    (left : p.update.runner.machine = asleep) {k : Nat} (later : n < k)
    (reached : runnerAt? rounds [] first k = some r) : asleep.UpToTimers r.machine := by
  induction later generalizing r with
  | refl =>
    obtain ⟨q, played', -, rfl⟩ := runnerAt_succ.1 reached
    obtain rfl := Option.some.inj (played.symm.trans played')
    exact left ▸ UpToTimers.refl _
  | @step k _ ih =>
    obtain ⟨q, played', -, rfl⟩ := runnerAt_succ.1 reached
    obtain ⟨r, reached', found, -⟩ := frame_eq_some_iff.1 played'
    have unfolds := unfolds_of_frame positive played'
    rw [ready_nil] at found
    rw [unfolds.machine_eq]
    exact Frame.moment_upToTimers waiting (found ▸ ih reached') _

theorem frame_upToTimers (positive : first.stepPeriod.isPositive = true)
    (waiting : asleep.Waiting x) (played : frame? rounds [] first n = some p)
    (left : p.update.runner.machine = asleep) {k : Nat} {q : Frame} (later : n < k)
    (played' : frame? rounds [] first k = some q) :
    q.update.result = .ok .running ∧ ∀ j, asleep.UpToTimers (q.moment j) := by
  obtain ⟨r, reached, found, -⟩ := frame_eq_some_iff.1 played'
  rw [ready_nil] at found
  have same : asleep.UpToTimers q.runner.machine :=
    found ▸ runnerAt_upToTimers positive waiting played left later reached
  exact ⟨Frame.running_of_waiting (unfolds_of_frame positive played') waiting same,
    Frame.moment_upToTimers waiting same⟩

theorem Frame.asleep_of_waitKey {j : Nat} (unfolds : p.update.Unfolds p.runner framePeriod)
    (inside : j < p.update.steps) (pending : (p.moment j).pending? = some (.waitKey x)) :
    p.update.result = .ok .running ∧
      p.update.runner.machine = { p.moment j with awaiting? := some x, latched? := none } ∧
      p.update.runner.machine.Waiting x := by
  have last := Frame.last_of_waitKey unfolds inside pending
  have begun := step_waitKey pending
  have answer : (p.moment j).step.2 = .ok .endOfFrame := congrArg Prod.snd begun
  have machine := Frame.machine_of_last unfolds last.symm
  rw [begun] at machine
  refine ⟨Frame.running_of_last unfolds last.symm answer nofun, machine, ?_⟩
  rw [machine]
  exact ⟨(pending_eq_some_iff.1 pending).1, rfl, rfl⟩

theorem ends_asleep {left number : Nat} {result : Except Failure Machine}
    (positive : first.stepPeriod.isPositive = true) (waiting : asleep.Waiting x)
    (played : frame? rounds [] first n = some p) (goes : p.update.result = .ok .running)
    (machine : p.update.runner.machine = asleep) (inside : n < left)
    (ends : Ends rounds [] first left number result) :
    ∃ m, result = .ok m ∧ asleep.UpToTimers m := by
  have running : ∀ k q, frame? rounds [] first k = some q → q.update.result = .ok .running := by
    intro k q played'
    rcases Nat.lt_trichotomy k n with before | rfl | after
    · obtain ⟨r, reached, -⟩ := frame_eq_some_iff.1 played
      exact running_of_later before reached played'
    · obtain rfl := Option.some.inj (played.symm.trans played')
      exact goes
    · exact (frame_upToTimers positive waiting played machine after played').1
  obtain ⟨r, reached, rfl⟩ := ends.reached fun k q _ => running k q
  exact ⟨r.machine, rfl, runnerAt_upToTimers positive waiting played machine inside reached⟩

end Unheld

theorem poised_opening (entropy : Random.Key) (o : Options) (program : Array UInt8) :
    Poised o.heldKeys (opening entropy o program).machine :=
  .holdAll (.of_idle (Nat.zero_le _) rfl rfl rfl) (fun _ => Bank.get_fill ..) o.heldKeys

theorem awaiting_opening (entropy : Random.Key) (o : Options) (program : Array UInt8) :
    (opening entropy o program).machine.awaiting? = none :=
  awaiting_holdAll ..

/-- A session plays its frames, and each of their steps finds exactly the held keys down. If there are
any, a step that finds the machine waiting takes the first of them, which was pressed since the frame in
which the wait began: it stores that key in the register that waits, and goes on behind the wait. If
there are none, a wait that has begun lasts to the end of the session, which does not fail, and nothing
but the timers changes any more. -/
theorem held_keys_answer_waits (rounds : Nat) (entropy : Random.Key) (o : Options)
    (program : Array UInt8) (admissible : Runner.Admissible o.rate) (fits : program.size ≤ 3584) :
    let first := opening entropy o program
    (∀ v, (∃ ending, run rounds v entropy o (.ok program) = some ending) ↔
      ∀ n < o.frames, ∀ r, runnerAt? rounds o.heldKeys first n = some r →
        ∃ p, frame? rounds o.heldKeys first n = some p) ∧
    (∀ v ending, run rounds v entropy o (.ok program) = some ending →
      Ends rounds o.heldKeys first o.frames 0 ending.result) ∧
    (∀ n p, (frames rounds o.heldKeys o.frames first)[n]? = some p ↔
      n < o.frames ∧ frame? rounds o.heldKeys first n = some p) ∧
    (∀ n p, frame? rounds o.heldKeys first n = some p → ∀ j ≤ p.update.steps, ∀ key,
      ((p.moment j).keypad.get key = true ↔ key ∈ o.heldKeys)) ∧
    (∀ key more, o.heldKeys = key :: more →
      ∀ n p, frame? rounds o.heldKeys first n = some p → ∀ j < p.update.steps, ∀ x,
        (p.moment j).awaiting? = some x →
          let left := (p.moment j).step.1
          (p.moment j).step.2 = .ok .proceed ∧ left.registers.get x = key.toByte ∧
          (∀ y, y ≠ x → left.registers.get y = (p.moment j).registers.get y) ∧
          left = { p.moment j with
            registers := left.registers
            pc := (p.moment j).pc + 2
            awaiting? := none
            latched? := none } ∧
          PressedSince rounds o.heldKeys first key x n) ∧
    (o.heldKeys = [] →
      ∀ n p, frame? rounds o.heldKeys first n = some p → ∀ j < p.update.steps, ∀ x,
        (p.moment j).pending? = some (.waitKey x) →
          let asleep := { p.moment j with awaiting? := some x, latched? := none }
          p.update.result = .ok .running ∧ p.update.runner.machine = asleep ∧
          (∀ k q, n < k → frame? rounds o.heldKeys first k = some q →
            q.update.result = .ok .running ∧ ∀ i, asleep.UpToTimers (q.moment i)) ∧
          ∀ v ending, n < o.frames → run rounds v entropy o (.ok program) = some ending →
            ∃ m, ending.result = .ok m ∧ asleep.UpToTimers m) := by
  intro first
  have accepted : Accepted o (.ok program) program := ⟨admissible, rfl, fits⟩
  have positive : first.stepPeriod.isPositive = true := opening_positive admissible
  have poised : Poised o.heldKeys first.machine := poised_opening entropy o program
  refine ⟨fun v => (returns_iff_of_accepted accepted).trans returns_iff,
    fun v ending => ends_of_run accepted, fun n p => getElem_frames_iff, ?_, ?_, ?_⟩
  · intro n p played j _ key
    exact ((poised_frame positive poised played).moment j).held key
  · intro key more keys n p played j inside x awaiting
    rw [keys] at poised played ⊢
    exact stores_of_waiting positive poised (awaiting_opening ..) played inside awaiting
  · intro keys n p played j inside x pending asleep
    obtain ⟨goes, machine, waiting⟩ :=
      Frame.asleep_of_waitKey (unfolds_of_frame positive played) inside pending
    rw [machine] at waiting
    rw [keys] at played
    refine ⟨goes, machine, ?_, ?_⟩
    · intro k q later played'
      rw [keys] at played'
      exact frame_upToTimers positive waiting played machine later played'
    · intro v ending inside ended
      have ends := ends_of_run accepted ended
      rw [keys] at ends
      exact ends_asleep positive waiting played goes machine inside ends

def atTimerRate (m : Machine) : Runner := ⟨m, tickPeriod, Single.zero, Single.zero⟩

theorem update_at_timer_rate {next : Machine} {answer : Except Fault Outcome}
    (answered : m.tick.step = (next, answer)) :
    (atTimerRate m).update 2 framePeriod =
      some ⟨atTimerRate next, 1, 1, Runner.verdict (some answer)⟩ := by
  have owes : Single.zero + framePeriod = tickPeriod := by decide +kernel
  have fits : tickPeriod ≤ tickPeriod := by decide +kernel
  have rest : tickPeriod - tickPeriod = Single.zero := by decide +kernel
  have done : ¬tickPeriod ≤ Single.zero := Single.not_le_zero Runner.tickPeriod_positive
  have ticked : Runner.payOff tickPeriod 2 tickPeriod 0 = some (1, Single.zero) := by
    simp only [Runner.payOff, if_pos fits, rest, if_neg done]
  have stepped : Runner.stepOff tickPeriod 2 m.tick tickPeriod 0 =
      some ⟨next, Single.zero, 1, Runner.verdict (some answer)⟩ := by
    rcases answer with fault | outcome
    · simp only [Runner.stepOff, if_pos fits, answered, rest, Runner.verdict]
    · cases outcome with
      | proceed => simp only [Runner.stepOff, if_pos fits, answered, rest, if_neg done, Runner.verdict]
      | endOfFrame => simp only [Runner.stepOff, if_pos fits, answered, Runner.verdict]
      | halted => simp only [Runner.stepOff, if_pos fits, answered, Runner.verdict]
  simp only [Runner.update, atTimerRate, owes, ticked, tickTimes, stepped]

theorem frameFrom_of_ready {found next : Machine} {answer : Except Fault Outcome}
    (readied : ready keys (atTimerRate m) = atTimerRate found)
    (answered : found.tick.step = (next, answer)) :
    frameFrom? 2 keys (atTimerRate m) =
      some ⟨atTimerRate found, ⟨atTimerRate next, 1, 1, Runner.verdict (some answer)⟩⟩ :=
  frameFrom_eq_some_iff.2 ⟨readied.symm, readied ▸ update_at_timer_rate answered⟩

theorem frames_of_wait {next : Machine} {outcome : Outcome}
    (pending : m.pending? = some (.waitKey x)) (free : m.awaiting? = none)
    (answered : (pressAnew { m.tick with awaiting? := some x, latched? := none } keys).tick.step =
      (next, .ok outcome)) (goes : outcome ≠ .halted) :
    Returns 2 keys 2 (atTimerRate m) ∧ ∃ p q, frames 2 keys 2 (atTimerRate m) = [p, q] ∧
      (∀ f ∈ [p, q], f.update.result = .ok .running ∧ f.update.steps = 1) ∧
      (p.moment 0).pending? = some (.waitKey x) ∧ (q.moment 0).awaiting? = some x := by
  let asleep := { m.tick with awaiting? := some x, latched? := none }
  let woken := pressAnew asleep keys
  let p : Frame := ⟨atTimerRate m, ⟨atTimerRate asleep, 1, 1, .ok .running⟩⟩
  let q : Frame := ⟨atTimerRate woken, ⟨atTimerRate next, 1, 1, .ok .running⟩⟩
  have pending' : m.tick.pending? = some (.waitKey x) := (pending_tickTimes m 1).trans pending
  have verdict : Runner.verdict (some (.ok outcome)) = .ok .running := by
    cases outcome with
    | halted => exact absurd rfl goes
    | _ => rfl
  have first : frameFrom? 2 keys (atTimerRate m) = some p :=
    frameFrom_of_ready (ready_of_free free keys) (step_waitKey pending')
  have second : frameFrom? 2 keys p.update.runner = some q := by
    rw [frameFrom_of_ready (ready_of_waiting (r := atTimerRate asleep) rfl keys) answered, verdict]
    rfl
  have waiting : woken.awaiting? = some x := awaiting_pressAnew asleep keys
  constructor
  · rw [returns_of_running first rfl]
    exact ⟨q, second, fun _ _ => trivial⟩
  · refine ⟨p, q, ?_, by simp [p, q], pending', waiting⟩
    rw [frames_of_running first rfl, frames_of_running second rfl]
    rfl

theorem held_keys_answer_waits_twice :
    let program : Array UInt8 := #[0xF3, 0x0A]
    let o : Options := ⟨"wait", timerRate, 2, some 0, [5, 2, 5], .plain⟩
    let bare := { o with heldKeys := [] }
    let entropy : Random.Key := .ofSeed 0
    Runner.Admissible o.rate ∧ program.size ≤ 3584 ∧
      (∃ p q ending left, frames 2 o.heldKeys 2 (opening entropy o program) = [p, q] ∧
        q.update.steps = 1 ∧ (q.moment 0).awaiting? = some 3 ∧
        (q.moment 0).keypad.get 2 = true ∧ (q.moment 0).keypad.get 7 = false ∧
        (q.moment 0).step = (left, .ok .proceed) ∧ left.registers.get 3 = 5 ∧
        left = { q.moment 0 with
          registers := left.registers
          pc := (q.moment 0).pc + 2
          awaiting? := none
          latched? := none } ∧
        PressedSince 2 o.heldKeys (opening entropy o program) 5 3 1 ∧
        run 2 none entropy o (.ok program) = some ending ∧ ending.result = .ok left) ∧
      ∃ p q ending m, frames 2 bare.heldKeys 2 (opening entropy bare program) = [p, q] ∧
        p.update.steps = 1 ∧ (p.moment 0).pending? = some (.waitKey 3) ∧
        p.update.runner.machine = { p.moment 0 with awaiting? := some 3, latched? := none } ∧
        run 2 none entropy bare (.ok program) = some ending ∧ ending.result = .ok m ∧
        p.update.runner.machine.UpToTimers m := by
  intro program o bare entropy
  have admissible : Runner.Admissible o.rate := by decide +kernel
  have fits : program.size ≤ 3584 := by decide
  refine ⟨admissible, fits, ?_, ?_⟩
  · let m := (opening entropy o program).machine
    have pending : m.pending? = some (.waitKey 3) :=
      pending_of_image (k := 0) fits rfl rfl rfl rfl rfl rfl (by decide)
    have answered := step_of_latched
      (m := (pressAnew { m.tick with awaiting? := some 3, latched? := none } o.heldKeys).tick)
      (halted_pressAnew ..) (awaiting_pressAnew ..) (latched_pressAnew rfl rfl 5 [2, 5])
    obtain ⟨returns, p, q, played, running, -, waits⟩ :=
      frames_of_wait pending (awaiting_opening ..) answered nofun
    obtain ⟨ending_iff, ends, numbered, held, answers, -⟩ :=
      held_keys_answer_waits 2 entropy o program admissible fits
    have second := ((numbered 1 q).1 (congrArg (·[1]?) played)).2
    have steps : q.update.steps = 1 := (running q (by simp)).2
    have down := held 1 q second 0 (Nat.zero_le _)
    have up : (q.moment 0).keypad.get 7 = false :=
      Bool.eq_false_iff.2 fun pressed => absurd ((down 7).1 pressed) (by decide)
    obtain ⟨answer, stored, -, left, since⟩ :=
      answers 5 [2, 5] rfl 1 q second 0 (by omega) 3 waits
    have last := Frame.machine_of_last (unfolds_of_frame (opening_positive admissible) second) steps
    obtain ⟨ending, ended⟩ := (ending_iff none).2 (returns_iff.1 returns)
    have result := (ends none ending ended).result_eq [p] played
      fun f member => (running f member).1
    exact ⟨p, q, ending, (q.moment 0).step.1, played, steps, waits, (down 2).2 (by decide), up,
      Prod.ext rfl answer, stored, left, since, ended, last ▸ result⟩
  · let m := (opening entropy bare program).machine
    have pending : m.pending? = some (.waitKey 3) :=
      pending_of_image (k := 0) fits rfl rfl rfl rfl rfl rfl (by decide)
    have answered := step_of_unlatched
      (m := (pressAnew { m.tick with awaiting? := some 3, latched? := none } bare.heldKeys).tick)
      rfl rfl rfl
    obtain ⟨returns, p, q, played, running, waits, -⟩ :=
      frames_of_wait pending (awaiting_opening ..) answered nofun
    obtain ⟨ending_iff, -, numbered, -, -, lasting⟩ :=
      held_keys_answer_waits 2 entropy bare program admissible fits
    have first := ((numbered 0 p).1 (congrArg (·[0]?) played)).2
    have steps : p.update.steps = 1 := (running p (by simp)).2
    obtain ⟨-, left, -, asleep⟩ := lasting rfl 0 p first 0 (by omega) 3 waits
    obtain ⟨ending, ended⟩ := (ending_iff none).2 (returns_iff.1 returns)
    obtain ⟨final, result, same⟩ := asleep none ending (by decide) ended
    exact ⟨p, q, ending, final, played, steps, waits, left, ended, result, left ▸ same⟩

end Session

end Chip8
