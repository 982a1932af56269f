import Chip8.Proofs.Rendering
import Chip8.Proofs.SoundNotices

/-! How a session ends. If a step fails, it is in the last frame, and the session shows no screen but
says in which frame and why. Otherwise it shows the screen after the last frame, which its text tells
in full. -/

namespace Chip8.Session

open Machine CommandLine

def lastMachine (first : Runner) : List Frame → Machine
  | [] => first.machine
  | p :: rest => lastMachine p.update.runner rest

/-- How a session ends that was to play so many frames and has played these. -/
inductive Concludes (count number : Nat) (first : Runner) (played : List Frame) (ending : Ending) :
    Prop
  | through (all : played.length = count)
      (running : ∀ p ∈ played, p.update.result = .ok .running)
      (shown : ending.output = (lastMachine first played).display.render)
  | halted {earlier : List Frame} {p : Frame} (inside : earlier.length < count)
      (split : played = earlier ++ [p]) (running : ∀ q ∈ earlier, q.update.result = .ok .running)
      (halts : p.update.result = .ok .halted)
      (shown : ending.output = p.update.runner.machine.display.render)
  | failed {earlier : List Frame} {p : Frame} {fault : Fault} (inside : earlier.length < count)
      (split : played = earlier ++ [p]) (running : ∀ q ∈ earlier, q.update.result = .ok .running)
      (fails : p.update.result = .error fault) (silent : ending.output = "")
      (blames : ending.complaint =
        "Error: " ++ ("CHIP-8 execution error in frame " ++ (number + earlier.length).repr) ++ "\n" ++
          ("\nCaused by:\n    " ++ fault.message ++ "\n"))

variable {rounds left number count : Nat} {keys : List Nibble} {first : Runner} {p : Frame}
  {played rest : List Frame} {v : Verbosity} {sounding : Bool} {log : Array Entry} {ending : Ending}
  {entropy : Random.Key} {o : Options} {file : Except FileProblem (Array UInt8)}
  {program program' : Array UInt8}

theorem Concludes.cons (running : p.update.result = .ok .running)
    (later : Concludes count (number + 1) p.update.runner rest ending) :
    Concludes (count + 1) number first (p :: rest) ending := by
  cases later with
  | through all running' shown =>
    exact .through (congrArg (· + 1) all) (List.forall_mem_cons.2 ⟨running, running'⟩) shown
  | @halted earlier _ inside split running' halts shown =>
    have inside' : (p :: earlier).length < count + 1 := Nat.succ_lt_succ inside
    exact .halted inside' (congrArg (p :: ·) split)
      (List.forall_mem_cons.2 ⟨running, running'⟩) halts shown
  | @failed earlier _ _ inside split running' fails silent blames =>
    have inside' : (p :: earlier).length < count + 1 := Nat.succ_lt_succ inside
    refine .failed inside' (congrArg (p :: ·) split)
      (List.forall_mem_cons.2 ⟨running, running'⟩) fails silent ?_
    rw [blames, List.length_cons, Nat.add_assoc, Nat.add_comm 1]

theorem concludes_of_play
    (ended : play rounds v keys left number first sounding log = some ending) :
    Concludes left number first (frames rounds keys left first) ending := by
  induction left generalizing number first sounding log with
  | zero =>
    obtain rfl := Option.some.inj ended
    exact .through rfl (List.forall_mem_nil _) rfl
  | succ left ih =>
    have alone : ([] : List Frame).length < left + 1 := Nat.succ_pos left
    cases turn_of_play ended with
    | @failed p _ played result ended =>
      have stopped : p.update.result ≠ .ok .running := by simp [result]
      rw [frames_of_stopped played stopped, ended]
      exact .failed alone rfl (List.forall_mem_nil _) result rfl rfl
    | @halted p played result ended =>
      have stopped : p.update.result ≠ .ok .running := by simp [result]
      rw [frames_of_stopped played stopped, ended]
      exact .halted alone rfl (List.forall_mem_nil _) result rfl
    | running played result ended =>
      rw [frames_of_running played result]
      exact (ih ended).cons result

theorem soundings_header (v : Verbosity) (o : Options) (program : Array UInt8) :
    soundings (header v o program) = [] := by
  refine List.filterMap_eq_nil_iff.2 fun e member => ?_
  have member := (List.mem_filter.1 member).1
  simp only [List.mem_cons, List.map_cons, List.map_map, List.mem_map] at member
  obtain rfl | rfl | ⟨key, -, rfl⟩ := member <;> rfl

theorem display_opening (entropy : Random.Key) (o : Options) (program : Array UInt8) :
    (opening entropy o program).machine.display = Display.blank :=
  holdAll_keeps (f := Machine.display) (fun _ _ _ => rfl) ..

theorem beeping_opening (entropy : Random.Key) (o : Options) (program : Array UInt8) :
    (opening entropy o program).machine.beeping = false :=
  holdAll_keeps (f := Machine.beeping) (fun _ _ _ => rfl) ..

theorem accepted_or_refused (ended : run rounds v entropy o file = some ending) :
    (∃ program, Accepted o file program) ∨
      (∀ program, ¬Accepted o file program) ∧ ∃ f, ending = ⟨.error f, #[]⟩ := by
  by_cases accepted : ∃ program, Accepted o file program
  · exact .inl accepted
  · have refused := not_exists.1 accepted
    obtain ⟨f, ended'⟩ : ∃ f, run rounds v entropy o file = some ⟨.error f, #[]⟩ :=
      run_of_refused refused
    exact .inr ⟨refused, f, Option.some.inj (ended.symm.trans ended')⟩

theorem render_ne_empty (d : Display) : d.render ≠ "" := by
  intro empty
  have length := d.shows_render.length
  rw [empty] at length
  cases length

theorem Concludes.shows_iff (concludes : Concludes count number first played ending) :
    ending.output ≠ "" ↔ ∀ p ∈ played, ∀ fault, p.update.result ≠ .error fault := by
  cases concludes with
  | through all running shown =>
    rw [shown]
    refine iff_of_true (render_ne_empty _) fun p member fault => ?_
    rw [running p member]
    nofun
  | @halted earlier p inside split running halts shown =>
    rw [shown, split, List.forall_mem_append, List.forall_mem_singleton, halts]
    refine iff_of_true (render_ne_empty _) ⟨fun q member fault => ?_, nofun⟩
    rw [running q member]
    nofun
  | @failed earlier p fault inside split running fails silent blames =>
    refine iff_of_false (not_not_intro silent) fun none => ?_
    exact none p (by simp [split]) fault fails

theorem concludes_of_run (accepted : Accepted o file program)
    (ended : run rounds v entropy o file = some ending) :
    let first := opening entropy o program
    Concludes o.frames 0 first (frames rounds o.heldKeys o.frames first) ending := by
  rw [run_of_accepted accepted] at ended
  exact concludes_of_play ended

theorem soundings_of_run (accepted : Accepted o file program)
    (ended : run rounds v entropy o file = some ending) :
    soundings ending.log.toList = if v.keeps .info then
      changes 0 (frames rounds o.heldKeys o.frames (opening entropy o program)) else [] := by
  rw [run_of_accepted accepted] at ended
  rw [soundings_of_play (beeping_opening entropy o program) ended, soundings_header,
    List.nil_append]

theorem fails_iff_of_accepted (accepted : Accepted o file program)
    (member : p ∈ frames rounds o.heldKeys o.frames (opening entropy o program)) (fault : Fault) :
    p.update.result = .error fault ↔ p.Fails fault :=
  fails_iff (unfolds_of_mem (opening_positive accepted.admissible) member)

theorem shows_iff_of_run (ended : run rounds v entropy o file = some ending) :
    ending.output ≠ "" ↔ ∃ program, Accepted o file program ∧
      ∀ p ∈ frames rounds o.heldKeys o.frames (opening entropy o program),
        ∀ fault, ¬p.Fails fault := by
  rcases accepted_or_refused ended with ⟨program, accepted⟩ | ⟨refused, f, rfl⟩
  · rw [(concludes_of_run accepted ended).shows_iff]
    constructor
    · intro fine
      exact ⟨program, accepted, fun p member fault fails =>
        fine p member fault ((fails_iff_of_accepted accepted member fault).2 fails)⟩
    · rintro ⟨program', accepted', fine⟩ p member fault failed
      obtain rfl := accepted.unique accepted'
      exact fine p member fault ((fails_iff_of_accepted accepted member fault).1 failed)
  · refine iff_of_false (not_not_intro rfl) ?_
    rintro ⟨program, accepted, -⟩
    exact refused program accepted

theorem alternates_of_run (ended : run rounds v entropy o file = some ending) :
    Alternates false 0 (soundings ending.log.toList) := by
  rcases accepted_or_refused ended with ⟨program, accepted⟩ | ⟨-, f, rfl⟩
  · rw [soundings_of_run accepted ended]
    split
    · rw [← beeping_opening entropy o program]
      exact alternates_changes
    · trivial
  · trivial

/-- A session that is to play so many frames plays them all, or it plays as many as it takes until one
halts or fails. It shows a screen unless its rate, its program or a step is refused: the blank one that
the program found, if there is no frame, and else the one after the last frame, which can be told from
the text. If a step fails, nothing is shown but the number of the frame, which is that of the frames
before it, and the fault. The sound is said to begin and to end in turns, with every frame without a
fault after which it has changed. -/
theorem run_concludes :
    (∀ d : Display, d.Shows d.render ∧ Display.readBack d.render = d) ∧
    (∀ d e : Display, d.render = e.render ↔ d = e) ∧
    ∀ rounds v entropy o file,
      ((∃ ending, run rounds v entropy o file = some ending) ↔ ∀ program, Accepted o file program →
        Returns rounds o.heldKeys o.frames (opening entropy o program)) ∧
      ∀ ending, run rounds v entropy o file = some ending →
        (ending.output ≠ "" ↔ ∃ program, Accepted o file program ∧
          ∀ p ∈ frames rounds o.heldKeys o.frames (opening entropy o program),
            ∀ fault, ¬p.Fails fault) ∧
        Alternates false 0 (soundings ending.log.toList) ∧
        ∀ program, Accepted o file program →
          let first := opening entropy o program
          let played := frames rounds o.heldKeys o.frames first
          first.machine.display = Display.blank ∧ Concludes o.frames 0 first played ending ∧
            (∀ p ∈ played, ∀ fault, p.update.result = .error fault ↔ p.Fails fault) ∧
            (v.keeps .info = true → ∀ on n, (on, n) ∈ soundings ending.log.toList ↔
              ∃ p, played[n]? = some p ∧ p.Sounds on) := by
  refine ⟨fun d => ⟨d.shows_render, d.shows_render.readBack⟩, fun d e => Display.render_inj, ?_⟩
  intro rounds v entropy o file
  refine ⟨run_returns_iff, fun ending ended => ?_⟩
  refine ⟨shows_iff_of_run ended, alternates_of_run ended, fun program accepted => ?_⟩
  refine ⟨display_opening .., concludes_of_run accepted ended, ?_, fun kept on n => ?_⟩
  · exact fun p member fault => fails_iff_of_accepted accepted member fault
  · rw [soundings_of_run accepted ended, if_pos kept, mem_changes]
    simp only [Nat.zero_add]
    constructor
    · rintro ⟨k, p, found, rfl, sounded⟩
      exact ⟨p, found, sounded⟩
    · rintro ⟨p, found, sounded⟩
      exact ⟨n, p, found, rfl, sounded⟩

def beep : Array UInt8 := #[0x60, 0x01, 0xF0, 0x18, 0x00, 0xFD]

theorem frames_of_beep {m : Machine} (memory : m.memory = Memory.image beep) (pc : m.pc = 0x200)
    (running : m.halted = false) (free : m.awaiting? = none) (silent : m.sound = 0) :
    Returns 2 [] 5 (atTimerRate m) ∧ ∃ p q s, frames 2 [] 5 (atTimerRate m) = [p, q, s] ∧
      p.update.result = .ok .running ∧ q.Sounds true ∧ s.Sounds false := by
  let filled := { m.tick with pc := m.pc + 2, registers := m.registers.set 0 1 }
  let sounding := { filled.tick with pc := filled.pc + 2, sound := filled.registers.get 0 }
  let ended := { sounding.tick with pc := sounding.pc + 2, halted := true }
  have fits : beep.size ≤ Memory.programLimit := by decide
  have ahead : filled.pc = 0x202 := by
    show m.pc + 2 = 0x202
    rw [pc]
    rfl
  have ahead' : sounding.pc = 0x204 := congrArg (· + 2) ahead
  have fill : m.tick.pending? = some (.setByte 0 1) :=
    pending_of_image (k := 0) fits rfl rfl memory pc running free (by decide)
  have set : filled.tick.pending? = some (.setSound 0) :=
    pending_of_image (k := 2) fits rfl rfl memory ahead running free (by decide)
  have exit : sounding.tick.pending? = some .exit :=
    pending_of_image (k := 4) fits rfl rfl memory ahead' running free (by decide)
  have fill' : m.tick.step = (filled, .ok .proceed) := step_setByte fill
  have set' : filled.tick.step = (sounding, .ok .proceed) := step_setSound set
  have exit' : sounding.tick.step = (ended, .ok .halted) := step_of_pending exit rfl
  let p : Frame := ⟨atTimerRate m, ⟨atTimerRate filled, 1, 1, .ok .running⟩⟩
  let q : Frame := ⟨atTimerRate filled, ⟨atTimerRate sounding, 1, 1, .ok .running⟩⟩
  let s : Frame := ⟨atTimerRate sounding, ⟨atTimerRate ended, 1, 1, .ok .halted⟩⟩
  have free' : filled.awaiting? = none := free
  have free'' : sounding.awaiting? = none := free
  have first : frameFrom? 2 [] (atTimerRate m) = some p := frameFrom_at_timer_rate free fill' []
  have second : frameFrom? 2 [] p.update.runner = some q := frameFrom_at_timer_rate free' set' []
  have third : frameFrom? 2 [] q.update.runner = some s := frameFrom_at_timer_rate free'' exit' []
  have halts : s.update.result ≠ .ok .running := nofun
  have value : filled.registers.get 0 = 1 := (Bank.get_set ..).trans (if_pos rfl)
  have quiet : filled.beeping = false := by
    show decide (0 < countDown m.sound) = false
    rw [silent]
    rfl
  have loud : sounding.beeping = true := by
    show decide (0 < filled.registers.get 0) = true
    rw [value]
    rfl
  have muted : ended.beeping = false := by
    show decide (0 < countDown (filled.registers.get 0)) = false
    rw [value]
    rfl
  constructor
  · rw [returns_of_running first rfl, returns_of_running second rfl]
    exact returns_of_stopped third halts
  · refine ⟨p, q, s, ?_, rfl, ⟨⟨_, rfl⟩, quiet, loud⟩, ⟨⟨_, rfl⟩, loud, muted⟩⟩
    rw [frames_of_running first rfl, frames_of_running second rfl, frames_of_stopped third halts]

theorem run_concludes_after_beep :
    let o : Options := ⟨"beep", timerRate, 5, some 0, [], .plain⟩
    let first := opening (.ofSeed 0) o beep
    Accepted o (.ok beep) beep ∧ Returns 2 [] 5 first ∧
      ∃ ending, run 2 (some .info) (.ofSeed 0) o (.ok beep) = some ending ∧ ending.output ≠ "" ∧
        (frames 2 [] 5 first).length = 3 ∧ Concludes 5 0 first (frames 2 [] 5 first) ending ∧
        Verbosity.keeps (some .info) .info = true ∧ (true, 1) ∈ soundings ending.log.toList ∧
        (false, 2) ∈ soundings ending.log.toList := by
  intro o first
  have accepted : Accepted o (.ok beep) beep := ⟨by decide +kernel, rfl, by decide⟩
  have opened : first = atTimerRate (loaded .plain (.ofSeed 0) beep) := rfl
  obtain ⟨returns, p, q, s, played, running, begins, ends⟩ :
      Returns 2 [] 5 first ∧ ∃ p q s, frames 2 [] 5 first = [p, q, s] ∧
        p.update.result = .ok .running ∧ q.Sounds true ∧ s.Sounds false := by
    rw [opened]
    exact frames_of_beep rfl rfl rfl rfl rfl
  obtain ⟨-, -, session⟩ := run_concludes
  obtain ⟨returns_iff, concluding⟩ := session 2 (some .info) (.ofSeed 0) o (.ok beep)
  obtain ⟨ending, ended⟩ := returns_iff.2 fun program accepted' =>
    accepted.unique accepted' ▸ returns
  obtain ⟨shows, -, rest⟩ := concluding ending ended
  obtain ⟨-, concludes, failing, sounds⟩ := rest beep accepted
  have played' : frames 2 o.heldKeys o.frames first = [p, q, s] := played
  have fine : ∀ p ∈ frames 2 o.heldKeys o.frames first, ∀ fault, ¬p.Fails fault := by
    intro p member fault fails
    have failed := (failing p member fault).2 fails
    obtain ⟨status, fine⟩ : ∃ status, p.update.result = .ok status := by
      rw [played'] at member
      simp only [List.mem_cons, List.not_mem_nil, or_false] at member
      obtain rfl | rfl | rfl := member
      · exact ⟨_, running⟩
      · exact begins.1
      · exact ends.1
    cases failed.symm.trans fine
  refine ⟨accepted, returns, ending, ended, shows.2 ⟨beep, accepted, fine⟩, ?_, concludes, rfl, ?_, ?_⟩
  · rw [played]
    rfl
  · exact (sounds rfl true 1).2 ⟨q, by rw [played']; rfl, begins⟩
  · exact (sounds rfl false 2).2 ⟨s, by rw [played']; rfl, ends⟩

end Chip8.Session
