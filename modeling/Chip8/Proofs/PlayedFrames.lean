import Chip8.Proofs.Frames

/-! The frames that a session plays, as a list. All but the last go on. The list tells which updates
must return for the session to end, and what one frame adds to the log. -/

namespace Chip8.Session

open CommandLine

def frames (rounds : Nat) (keys : List Nibble) : (left : Nat) → Runner → List Frame
  | 0, _ => []
  | left + 1, r =>
    match frameFrom? rounds keys r with
    | none => []
    | some p =>
      match p.next? with
      | none => [p]
      | some next => p :: frames rounds keys left next

/-- Every update returns of a session that may play so many frames. -/
def Returns (rounds : Nat) (keys : List Nibble) : (left : Nat) → Runner → Prop
  | 0, _ => True
  | left + 1, r => ∃ p, frameFrom? rounds keys r = some p ∧
      ∀ next, p.next? = some next → Returns rounds keys left next

def Frame.Fails (p : Frame) (fault : Fault) : Prop :=
  ∃ j < p.update.steps, (p.moment j).step.2 = .error fault

/-- What a frame adds to a log: the events of its machine, and behind them the notices, if no step has
failed. -/
def Frame.entries (p : Frame) (v : Verbosity) (number : Nat) (sounding : Bool) : List Entry :=
  updateEntries v p.runner p.update ++
    match p.update.result with
    | .error _ => []
    | .ok status =>
      kept v ((frameNotices number sounding p.update.runner.machine.beeping status).map .notice)

inductive Turn (rounds : Nat) (v : Verbosity) (keys : List Nibble) (left number : Nat) (first : Runner)
    (sounding : Bool) (log : Array Entry) (ending : Ending) : Prop
  | failed {p : Frame} {fault : Fault} (played : frameFrom? rounds keys first = some p)
      (result : p.update.result = .error fault)
      (ended : ending = ⟨.error (.crashed number fault), log ++ p.entries v number sounding⟩)
  | halted {p : Frame} (played : frameFrom? rounds keys first = some p)
      (result : p.update.result = .ok .halted)
      (ended : ending = ⟨.ok p.update.runner.machine, log ++ p.entries v number sounding⟩)
  | running {p : Frame} (played : frameFrom? rounds keys first = some p)
      (result : p.update.result = .ok .running)
      (ended : play rounds v keys left (number + 1) p.update.runner
        p.update.runner.machine.beeping (log ++ p.entries v number sounding) = some ending)

variable {rounds left number n : Nat} {keys : List Nibble} {first : Runner} {p : Frame}
  {v : Verbosity} {sounding : Bool} {log : Array Entry} {ending : Ending} {fault : Fault}

theorem next_eq_none (stopped : p.update.result ≠ .ok .running) : p.next? = none :=
  Option.eq_none_iff_forall_ne_some.2 fun _ next => stopped (next_eq_some_iff.1 next).1

theorem frames_of_running (played : frameFrom? rounds keys first = some p)
    (running : p.update.result = .ok .running) (left : Nat) :
    frames rounds keys (left + 1) first = p :: frames rounds keys left p.update.runner := by
  simp only [frames, played, next_eq_some_iff.2 ⟨running, rfl⟩]

theorem frames_of_stopped (played : frameFrom? rounds keys first = some p)
    (stopped : p.update.result ≠ .ok .running) (left : Nat) :
    frames rounds keys (left + 1) first = [p] := by
  simp only [frames, played, next_eq_none stopped]

theorem returns_of_running (played : frameFrom? rounds keys first = some p)
    (running : p.update.result = .ok .running) :
    Returns rounds keys (left + 1) first ↔ Returns rounds keys left p.update.runner := by
  simp only [Returns, played, Option.some.injEq, exists_eq_left', next_eq_some_iff, running,
    true_and, forall_eq']

theorem returns_of_stopped (played : frameFrom? rounds keys first = some p)
    (stopped : p.update.result ≠ .ok .running) : Returns rounds keys (left + 1) first := by
  refine ⟨p, played, fun next goesOn => ?_⟩
  rw [next_eq_none stopped] at goesOn
  cases goesOn

/-- The frames that are to be played stand in the list by their numbers. -/
theorem getElem_frames_iff : (frames rounds keys left first)[n]? = some p ↔
    n < left ∧ frame? rounds keys first n = some p := by
  induction left generalizing first n with
  | zero => simp [frames]
  | succ left ih =>
    cases played : frameFrom? rounds keys first with
    | none => cases n <;> simp [frames, frame_zero, frame_later, played]
    | some q =>
      by_cases running : q.update.result = .ok .running
      · rw [frames_of_running played running]
        cases n with
        | zero => simp [frame_zero, played]
        | succ n => rw [List.getElem?_cons_succ, ih, frame_from played running, Nat.succ_lt_succ_iff]
      · rw [frames_of_stopped played running]
        cases n <;> simp [frame_zero, frame_later, played, next_eq_none running]

/-- Whatever frame begins, its update returns. -/
theorem returns_iff : Returns rounds keys left first ↔
    ∀ n < left, ∀ r, runnerAt? rounds keys first n = some r →
      ∃ p, frame? rounds keys first n = some p := by
  induction left generalizing first with
  | zero => exact iff_of_true trivial fun n inside => absurd inside (Nat.not_lt_zero n)
  | succ left ih =>
    cases played : frameFrom? rounds keys first with
    | none =>
      refine iff_of_false (fun ⟨p, played', _⟩ => nomatch played.symm.trans played') fun all => ?_
      obtain ⟨p, played'⟩ := all 0 (Nat.succ_pos left) first rfl
      exact nomatch played.symm.trans played'
    | some p =>
      by_cases running : p.update.result = .ok .running
      · simp only [returns_of_running played running, ih, runnerAt_from played running,
          frame_from played running]
        constructor
        · intro all n inside r reached
          cases n with
          | zero => exact ⟨p, played⟩
          | succ n => exact all n (Nat.lt_of_succ_lt_succ inside) r reached
        · exact fun all n inside => all (n + 1) (Nat.succ_lt_succ inside)
      · refine iff_of_true (returns_of_stopped played running) fun n _ r reached => ?_
        cases n with
        | zero => exact ⟨p, played⟩
        | succ n =>
          rw [runnerAt_later, played, Option.bind_some, next_eq_none running] at reached
          cases reached

theorem unfolds_of_mem (positive : first.stepPeriod.isPositive = true)
    (member : p ∈ frames rounds keys left first) : p.update.Unfolds p.runner framePeriod := by
  obtain ⟨n, found⟩ := List.mem_iff_getElem?.1 member
  exact unfolds_of_frame positive (getElem_frames_iff.1 found).2

theorem fails_iff (unfolds : p.update.Unfolds p.runner framePeriod) :
    p.update.result = .error fault ↔ p.Fails fault := by
  rw [unfolds.failed]
  constructor
  · rintro ⟨j, last, failed⟩
    exact ⟨j, by omega, failed⟩
  · rintro ⟨j, inside, failed⟩
    refine ⟨j, ?_, failed⟩
    rcases Nat.lt_or_eq_of_le (Nat.succ_le_of_lt inside) with early | last
    · cases failed.symm.trans (unfolds.proceeds j early)
    · exact last.symm

theorem append_append (log : Array Entry) (xs ys : List Entry) :
    log ++ xs ++ ys = log ++ (xs ++ ys) := by
  simp [← Array.toList_inj]

theorem play_succ (played : frameFrom? rounds keys first = some p) :
    play rounds v keys (left + 1) number first sounding log =
      match p.update.result with
      | .error fault => some ⟨.error (.crashed number fault), log ++ p.entries v number sounding⟩
      | .ok .halted => some ⟨.ok p.update.runner.machine, log ++ p.entries v number sounding⟩
      | .ok .running =>
        play rounds v keys left (number + 1) p.update.runner p.update.runner.machine.beeping
          (log ++ p.entries v number sounding) := by
  obtain ⟨found, returned⟩ := frameFrom_eq_some_iff.1 played
  obtain ⟨r, u⟩ := p
  obtain rfl : r = ready keys first := found
  rw [play]
  simp only [returned, Frame.entries]
  rcases u.result with fault | status
  · simp
  · cases status <;> simp [append_append]

theorem play_none (unplayed : frameFrom? rounds keys first = none) :
    play rounds v keys (left + 1) number first sounding log = none := by
  have stuck : (ready keys first).update rounds framePeriod = none :=
    Option.map_eq_none_iff.1 unplayed
  simp only [play, stuck]

theorem turn_of_play
    (ended : play rounds v keys (left + 1) number first sounding log = some ending) :
    Turn rounds v keys left number first sounding log ending := by
  cases played : frameFrom? rounds keys first with
  | none =>
    rw [play_none played] at ended
    cases ended
  | some p =>
    rw [play_succ played] at ended
    rcases result : p.update.result with fault | status
    · rw [result] at ended
      exact .failed played result (Option.some.inj ended).symm
    · rw [result] at ended
      cases status with
      | halted => exact .halted played result (Option.some.inj ended).symm
      | running => exact .running played result ended

theorem play_returns_iff :
    (∃ ending, play rounds v keys left number first sounding log = some ending) ↔
      Returns rounds keys left first := by
  induction left generalizing number first sounding log with
  | zero => exact ⟨fun _ => trivial, fun _ => ⟨_, rfl⟩⟩
  | succ left ih =>
    cases played : frameFrom? rounds keys first with
    | none => simp [play_none played, Returns, played]
    | some p =>
      rw [play_succ played]
      by_cases running : p.update.result = .ok .running
      · rw [running, returns_of_running played running]
        exact ih
      · refine iff_of_true ?_ (returns_of_stopped played running)
        rcases result : p.update.result with fault | status
        · exact ⟨_, rfl⟩
        · cases status with
          | halted => exact ⟨_, rfl⟩
          | running => exact absurd result running

theorem Ends.result_eq {result : Except Failure Machine} (earlier : List Frame)
    (ends : Ends rounds keys first (earlier.length + 1) number result)
    (played : frames rounds keys (earlier.length + 1) first = earlier ++ [p])
    (running : ∀ q ∈ earlier ++ [p], q.update.result = .ok .running) :
    result = .ok p.update.runner.machine := by
  obtain ⟨r, reached, rfl⟩ := ends.reached fun n q inside found =>
    running q (played ▸ List.mem_of_getElem? (getElem_frames_iff.2 ⟨inside, found⟩))
  obtain ⟨q, last, -, rfl⟩ := runnerAt_succ.1 reached
  have found : (frames rounds keys (earlier.length + 1) first)[earlier.length]? = some p := by
    rw [played, List.getElem?_concat_length]
  obtain rfl := Option.some.inj (last.symm.trans (getElem_frames_iff.1 found).2)
  rfl

structure Accepted (o : Options) (file : Except FileProblem (Array UInt8)) (program : Array UInt8) :
    Prop where
  admissible : Runner.Admissible o.rate
  read : file = .ok program
  fits : program.size ≤ 3584

def header (v : Verbosity) (o : Options) (program : Array UInt8) : List Entry :=
  kept v (.event (.loaded program.size) ::
    (.running o.program o.dialect :: o.heldKeys.map .holding).map .notice)

section Run

variable {entropy : Random.Key} {o : Options} {file : Except FileProblem (Array UInt8)}
  {program program' : Array UInt8}

theorem Accepted.unique (accepted : Accepted o file program)
    (accepted' : Accepted o file program') : program = program' :=
  Except.ok.inj (accepted.read.symm.trans accepted'.read)

theorem run_of_accepted (accepted : Accepted o file program) :
    run rounds v entropy o file = play rounds v o.heldKeys o.frames 0 (opening entropy o program)
      false (header v o program).toArray := by
  obtain ⟨admissible, rfl, fits⟩ := accepted
  simp only [run, admissible, not_true_eq_false, if_false, Machine.reset_of_fits fits]
  rfl

theorem run_of_refused (refused : ∀ program, ¬Accepted o file program) :
    ∃ f, run rounds v entropy o file = some ⟨.error f, #[]⟩ := by
  by_cases admissible : Runner.Admissible o.rate
  · cases file with
    | error problem =>
      simp only [run, admissible, not_true_eq_false, if_false]
      exact ⟨_, rfl⟩
    | ok program =>
      have beyond : Memory.programLimit < program.size :=
        Nat.lt_of_not_le fun fits => refused program ⟨admissible, rfl, fits⟩
      simp only [run, admissible, not_true_eq_false, if_false, Machine.reset_of_large beyond]
      exact ⟨_, rfl⟩
  · simp only [run, admissible, not_false_eq_true, if_true]
    exact ⟨_, rfl⟩

theorem returns_iff_of_accepted (accepted : Accepted o file program) :
    (∃ ending, run rounds v entropy o file = some ending) ↔
      Returns rounds o.heldKeys o.frames (opening entropy o program) := by
  rw [run_of_accepted accepted]
  exact play_returns_iff

theorem ends_of_run (accepted : Accepted o file program)
    (ended : run rounds v entropy o file = some ending) :
    Ends rounds o.heldKeys (opening entropy o program) o.frames 0 ending.result := by
  rw [run_of_accepted accepted] at ended
  exact ends_of_play ended

theorem run_returns_iff : (∃ ending, run rounds v entropy o file = some ending) ↔
    ∀ program, Accepted o file program →
      Returns rounds o.heldKeys o.frames (opening entropy o program) := by
  by_cases refused : ∀ program, ¬Accepted o file program
  · obtain ⟨f, ended⟩ : ∃ f, run rounds v entropy o file = some ⟨.error f, #[]⟩ :=
      run_of_refused refused
    exact iff_of_true ⟨_, ended⟩ fun program accepted => absurd accepted (refused program)
  · obtain ⟨program, accepted⟩ := Classical.not_forall_not.1 refused
    rw [returns_iff_of_accepted accepted]
    refine ⟨fun returns program' accepted' => ?_, fun returns => returns program accepted⟩
    obtain rfl := accepted.unique accepted'
    exact returns

end Run

end Chip8.Session
