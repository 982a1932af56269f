import Chip8.Proofs.Payment
import Chip8.Session

/-! The frames of a session. A frame begins with the runner that the frame before has left, presses the
held keys anew if the machine waits, and lets a sixtieth of a second pass. A session that ends has
played all its frames, or it has come to one that halted or failed. -/

namespace Chip8.Session

open CommandLine

structure Frame where
  runner : Runner
  update : Runner.Update

/-- The machine of a frame after all its ticks and some of its steps. -/
def Frame.moment (p : Frame) (steps : Nat) : Machine := p.runner.moment p.update.ticks steps

def frameFrom? (rounds : Nat) (keys : List Nibble) (r : Runner) : Option Frame :=
  ((ready keys r).update rounds framePeriod).map fun u => ⟨ready keys r, u⟩

def Frame.next? (p : Frame) : Option Runner :=
  match p.update.result with
  | .ok .running => some p.update.runner
  | _ => none

def runnerAt? (rounds : Nat) (keys : List Nibble) (first : Runner) : (n : Nat) → Option Runner
  | 0 => some first
  | n + 1 => ((runnerAt? rounds keys first n).bind (frameFrom? rounds keys)).bind Frame.next?

/-- Frame number `n`. There is none after a frame that halted or failed. -/
def frame? (rounds : Nat) (keys : List Nibble) (first : Runner) (n : Nat) : Option Frame :=
  (runnerAt? rounds keys first n).bind (frameFrom? rounds keys)

variable {rounds n left number : Nat} {keys : List Nibble} {first r : Runner} {p : Frame}
  {v : Verbosity} {sounding : Bool} {log : Array Entry} {ending : Ending}

theorem frameFrom_eq_some_iff : frameFrom? rounds keys r = some p ↔
    p.runner = ready keys r ∧ p.runner.update rounds framePeriod = some p.update := by
  obtain ⟨found, u⟩ := p
  rw [frameFrom?, Option.map_eq_some_iff]
  constructor
  · rintro ⟨u', returned, same⟩
    obtain ⟨rfl, rfl⟩ := Frame.mk.inj same
    exact ⟨rfl, returned⟩
  · rintro ⟨rfl, returned⟩
    exact ⟨u, returned, rfl⟩

theorem next_eq_some_iff :
    p.next? = some r ↔ p.update.result = .ok .running ∧ p.update.runner = r := by
  unfold Frame.next?
  rcases p.update.result with fault | status
  · simp
  · cases status <;> simp

theorem runnerAt_succ : runnerAt? rounds keys first (n + 1) = some r ↔
    ∃ p, frame? rounds keys first n = some p ∧ p.update.result = .ok .running ∧
      p.update.runner = r := by
  show (frame? rounds keys first n).bind Frame.next? = some r ↔ _
  rw [Option.bind_eq_some_iff]
  exact exists_congr fun p => and_congr_right fun _ => next_eq_some_iff

theorem frame_eq_some_iff : frame? rounds keys first n = some p ↔
    ∃ r, runnerAt? rounds keys first n = some r ∧ p.runner = ready keys r ∧
      p.runner.update rounds framePeriod = some p.update := by
  rw [frame?, Option.bind_eq_some_iff]
  exact exists_congr fun r => and_congr_right fun _ => frameFrom_eq_some_iff

theorem frame_zero : frame? rounds keys first 0 = frameFrom? rounds keys first := rfl

theorem runnerAt_later (n : Nat) : runnerAt? rounds keys first (n + 1) =
    ((frameFrom? rounds keys first).bind Frame.next?).bind (runnerAt? rounds keys · n) := by
  induction n with
  | zero => exact (Option.bind_fun_some _).symm
  | succ n ih =>
    rw [runnerAt?, ih]
    simp only [Option.bind_assoc, runnerAt?]

theorem frame_later (n : Nat) : frame? rounds keys first (n + 1) =
    ((frameFrom? rounds keys first).bind Frame.next?).bind (frame? rounds keys · n) := by
  rw [frame?, runnerAt_later, Option.bind_assoc]
  rfl

theorem runnerAt_from (played : frameFrom? rounds keys first = some p)
    (running : p.update.result = .ok .running) (n : Nat) :
    runnerAt? rounds keys p.update.runner n = runnerAt? rounds keys first (n + 1) := by
  rw [runnerAt_later, played, Option.bind_some, next_eq_some_iff.2 ⟨running, rfl⟩, Option.bind_some]

theorem frame_from (played : frameFrom? rounds keys first = some p)
    (running : p.update.result = .ok .running) (n : Nat) :
    frame? rounds keys p.update.runner n = frame? rounds keys first (n + 1) := by
  rw [frame?, frame?, runnerAt_from played running]

theorem running_of_later {q : Frame} {k : Nat} (earlier : k < n)
    (reached : runnerAt? rounds keys first n = some r) (played : frame? rounds keys first k = some q) :
    q.update.result = .ok .running := by
  induction n generalizing r with
  | zero => cases earlier
  | succ n ih =>
    obtain ⟨p, last, running, -⟩ := runnerAt_succ.1 reached
    rcases Nat.lt_or_eq_of_le (Nat.le_of_lt_succ earlier) with before | rfl
    · obtain ⟨r', reached', -⟩ := frame_eq_some_iff.1 last
      exact ih before reached'
    · obtain rfl := Option.some.inj (played.symm.trans last)
      exact running

theorem stepPeriod_ready (keys : List Nibble) (r : Runner) :
    (ready keys r).stepPeriod = r.stepPeriod := by
  unfold ready
  split <;> rfl

theorem stepPeriod_runnerAt (reached : runnerAt? rounds keys first n = some r) :
    r.stepPeriod = first.stepPeriod := by
  induction n generalizing r with
  | zero => rw [Option.some.inj reached]
  | succ n ih =>
    obtain ⟨p, played, -, rfl⟩ := runnerAt_succ.1 reached
    obtain ⟨r, reached, found, returned⟩ := frame_eq_some_iff.1 played
    obtain ⟨s, -, -, -, period_eq, -⟩ := Runner.update_eq_some returned
    rw [period_eq, found, stepPeriod_ready, ih reached]

theorem unfolds_of_frame (positive : first.stepPeriod.isPositive = true)
    (played : frame? rounds keys first n = some p) : p.update.Unfolds p.runner framePeriod := by
  obtain ⟨r, reached, found, returned⟩ := frame_eq_some_iff.1 played
  refine (Runner.update_unfolds p.runner ?_ returned).1
  rw [found, stepPeriod_ready, stepPeriod_runnerAt reached]
  exact positive

namespace Frame

theorem moment_zero (p : Frame) : p.moment 0 = p.runner.machine.tickTimes p.update.ticks :=
  Runner.moment_eq ..

theorem moment_succ (p : Frame) (j : Nat) : p.moment (j + 1) = (p.moment j).step.1 := by
  rw [moment, Runner.moment, List.replicate_succ', ← List.append_assoc, Machine.run_append_fst,
    Machine.run_single, Machine.act_step]
  rfl

end Frame

/-- Some frames go on. Then either there are no more to be played, or the next one halts or fails. -/
inductive Ends (rounds : Nat) (keys : List Nibble) (first : Runner) (left number : Nat) :
    Except Failure Machine → Prop
  | through {r : Runner} (reached : runnerAt? rounds keys first left = some r) :
      Ends rounds keys first left number (.ok r.machine)
  | halted {n : Nat} {p : Frame} (inside : n < left) (played : frame? rounds keys first n = some p)
      (halted : p.update.result = .ok .halted) :
      Ends rounds keys first left number (.ok p.update.runner.machine)
  | crashed {n : Nat} {p : Frame} {fault : Fault} (inside : n < left)
      (played : frame? rounds keys first n = some p) (failed : p.update.result = .error fault) :
      Ends rounds keys first left number (.error (.crashed (number + n) fault))

theorem Ends.cons {result : Except Failure Machine} (played : frameFrom? rounds keys first = some p)
    (running : p.update.result = .ok .running)
    (later : Ends rounds keys p.update.runner left (number + 1) result) :
    Ends rounds keys first (left + 1) number result := by
  cases later with
  | through reached =>
    rw [runnerAt_from played running] at reached
    exact .through reached
  | halted inside played' halted =>
    rw [frame_from played running] at played'
    exact .halted (Nat.succ_lt_succ inside) played' halted
  | @crashed n _ _ inside played' failed =>
    rw [frame_from played running] at played'
    rw [Nat.add_assoc, Nat.add_comm 1 n]
    exact .crashed (Nat.succ_lt_succ inside) played' failed

theorem Ends.reached {result : Except Failure Machine}
    (ends : Ends rounds keys first left number result)
    (running : ∀ n p, n < left → frame? rounds keys first n = some p →
      p.update.result = .ok .running) :
    ∃ r, runnerAt? rounds keys first left = some r ∧ result = .ok r.machine := by
  cases ends with
  | @through r reached => exact ⟨r, reached, rfl⟩
  | halted inside played halted => cases (running _ _ inside played).symm.trans halted
  | crashed inside played failed => cases (running _ _ inside played).symm.trans failed

theorem ends_of_play (ended : play rounds v keys left number first sounding log = some ending) :
    Ends rounds keys first left number ending.result := by
  induction left generalizing number first sounding log with
  | zero =>
    obtain rfl := Option.some.inj ended
    exact .through rfl
  | succ left ih =>
    rw [play] at ended
    cases returned : (ready keys first).update rounds framePeriod with
    | none =>
      simp only [returned] at ended
      cases ended
    | some u =>
      have played : frameFrom? rounds keys first = some ⟨ready keys first, u⟩ :=
        frameFrom_eq_some_iff.2 ⟨rfl, returned⟩
      simp only [returned] at ended
      rcases result : u.result with fault | status
      · simp only [result] at ended
        obtain rfl := Option.some.inj ended
        exact .crashed (Nat.succ_pos left) played result
      · simp only [result] at ended
        cases status with
        | halted =>
          obtain rfl := Option.some.inj ended
          exact .halted (Nat.succ_pos left) played result
        | running => exact (ih ended).cons played result

def opening (entropy : Random.Key) (o : Options) (program : Array UInt8) : Runner :=
  let source := match o.seed with
    | some seed => Random.Source.ofSeed seed
    | none => Random.Source.ofKey entropy
  Runner.start (holdAll (Machine.loaded o.dialect source program) o.heldKeys) o.rate

theorem opening_positive {entropy : Random.Key} {o : Options} {program : Array UInt8}
    (admissible : Runner.Admissible o.rate) :
    (opening entropy o program).stepPeriod.isPositive = true :=
  Single.reciprocal_positive admissible.1 admissible.2

end Chip8.Session
