import Chip8.Proofs.FrameTimers
import Chip8.Proofs.PlayedFrames

/-! What a session says about the sound. Each frame that does not fail is compared with the one before
it, so that the log tells every change, in turns. -/

namespace Chip8.Session

open CommandLine

def Entry.sounding? : Entry → Option (Bool × Nat)
  | .notice (.sound on frame) => some (on, frame)
  | _ => none

def soundings (log : List Entry) : List (Bool × Nat) := log.filterMap Entry.sounding?

def Frame.Sounds (p : Frame) (on : Bool) : Prop :=
  (∃ status, p.update.result = .ok status) ∧ p.runner.machine.beeping = !on ∧
    p.update.runner.machine.beeping = on

/-- On and off in turns, beginning with the other of the two, and later each time. -/
def Alternates (sounding : Bool) (number : Nat) : List (Bool × Nat) → Prop
  | [] => True
  | (on, frame) :: rest => on = !sounding ∧ number ≤ frame ∧ Alternates on (frame + 1) rest

def Frame.change (p : Frame) (number : Nat) : List (Bool × Nat) :=
  match p.update.result with
  | .error _ => []
  | .ok _ =>
    if p.update.runner.machine.beeping = p.runner.machine.beeping then []
    else [(p.update.runner.machine.beeping, number)]

def changes (number : Nat) : List Frame → List (Bool × Nat)
  | [] => []
  | p :: rest => p.change number ++ changes (number + 1) rest

variable {rounds left number n : Nat} {keys : List Nibble} {first : Runner} {p : Frame}
  {played : List Frame} {said : List (Bool × Nat)} {v : Verbosity} {sounding on : Bool}
  {log : Array Entry} {ending : Ending}

theorem mem_change : (on, n) ∈ p.change number ↔ n = number ∧ p.Sounds on := by
  unfold Frame.change Frame.Sounds
  rcases p.update.result with fault | status
  · simp
  · cases p.update.runner.machine.beeping <;> cases p.runner.machine.beeping <;> cases on <;> simp

theorem mem_changes :
    (on, n) ∈ changes number played ↔ ∃ k p, played[k]? = some p ∧ n = number + k ∧ p.Sounds on := by
  induction played generalizing number with
  | nil => simp [changes]
  | cons p rest ih =>
    rw [changes, List.mem_append, mem_change, ih]
    constructor
    · rintro (⟨rfl, sounds⟩ | ⟨k, q, found, rfl, sounds⟩)
      · exact ⟨0, p, rfl, rfl, sounds⟩
      · exact ⟨k + 1, q, found, by omega, sounds⟩
    · rintro ⟨k, q, found, rfl, sounds⟩
      cases k with
      | zero =>
        obtain rfl := Option.some.inj found
        exact .inl ⟨rfl, sounds⟩
      | succ k => exact .inr ⟨k, q, found, by omega, sounds⟩

theorem Alternates.of_later (later : Alternates sounding (number + 1) said) :
    Alternates sounding number said := by
  cases said with
  | nil => trivial
  | cons next rest =>
    obtain ⟨other, after, alternates⟩ := later
    exact ⟨other, Nat.le_of_succ_le after, alternates⟩

theorem Alternates.change_append
    (later : Alternates p.update.runner.machine.beeping (number + 1) said) (status : Status)
    (fine : p.update.result = .ok status) :
    Alternates p.runner.machine.beeping number (p.change number ++ said) := by
  simp only [Frame.change, fine]
  by_cases same : p.update.runner.machine.beeping = p.runner.machine.beeping
  · rw [if_pos same]
    exact (same ▸ later).of_later
  · rw [if_neg same]
    exact ⟨Bool.eq_not.2 same, Nat.le_refl number, later⟩

theorem beeping_ready (keys : List Nibble) (r : Runner) :
    (ready keys r).machine.beeping = r.machine.beeping :=
  congrArg (fun left : UInt8 => decide (0 < left)) (counter_ready keys r .sound)

theorem beeping_of_frameFrom (played : frameFrom? rounds keys first = some p) :
    p.runner.machine.beeping = first.machine.beeping := by
  rw [(frameFrom_eq_some_iff.1 played).1, beeping_ready]

/-- Each frame finds the sound as the one before has left it, so the changes are in turns. -/
theorem alternates_changes : Alternates first.machine.beeping number
    (changes number (frames rounds keys left first)) := by
  induction left generalizing number first with
  | zero => trivial
  | succ left ih =>
    cases played : frameFrom? rounds keys first with
    | none =>
      simp only [frames, played]
      trivial
    | some p =>
      rw [← beeping_of_frameFrom played]
      by_cases running : p.update.result = .ok .running
      · rw [frames_of_running played running]
        exact ih.change_append _ running
      · rw [frames_of_stopped played running, changes]
        rcases result : p.update.result with fault | status
        · simp only [Frame.change, result]
          trivial
        · exact Alternates.change_append trivial status result

theorem soundings_append (xs ys : List Entry) :
    soundings (xs ++ ys) = soundings xs ++ soundings ys := List.filterMap_append

theorem soundings_kept_events (v : Verbosity) (events : List Event) :
    soundings (kept v (events.map .event)) = [] := by
  refine List.filterMap_eq_nil_iff.2 fun e member => ?_
  obtain ⟨event, -, rfl⟩ := List.mem_map.1 (List.mem_filter.1 member).1
  rfl

theorem soundings_updateEntries (v : Verbosity) (r : Runner) (u : Runner.Update) :
    soundings (updateEntries v r u) = [] := by
  unfold updateEntries
  split
  · rfl
  · exact soundings_kept_events ..

theorem kept_notices (v : Verbosity) (notices : List Notice) :
    kept v (notices.map .notice) = if v.keeps .info then notices.map .notice else [] := by
  split
  · refine List.filter_eq_self.2 fun e member => ?_
    obtain ⟨notice, -, rfl⟩ := List.mem_map.1 member
    assumption
  · refine List.filter_eq_nil_iff.2 fun e member => ?_
    obtain ⟨notice, -, rfl⟩ := List.mem_map.1 member
    assumption

theorem soundings_frameNotices (number : Nat) (before after : Bool) (status : Status) :
    soundings ((frameNotices number before after status).map .notice) =
      if after = before then [] else [(after, number)] := by
  unfold frameNotices
  by_cases same : after = before <;> cases status <;> simp [same, soundings, Entry.sounding?]

theorem soundings_entries (p : Frame) (v : Verbosity) (number : Nat) :
    soundings (p.entries v number p.runner.machine.beeping) =
      if v.keeps .info then p.change number else [] := by
  rw [Frame.entries, soundings_append, soundings_updateEntries, Frame.change]
  rcases p.update.result with fault | status
  · simp [soundings]
  · simp only [kept_notices, List.nil_append]
    split
    · exact soundings_frameNotices ..
    · rfl

theorem soundings_of_play (same : first.machine.beeping = sounding)
    (ended : play rounds v keys left number first sounding log = some ending) :
    soundings ending.log.toList = soundings log.toList ++
      if v.keeps .info then changes number (frames rounds keys left first) else [] := by
  induction left generalizing number first sounding log with
  | zero =>
    obtain rfl := Option.some.inj ended
    simp [frames, changes]
  | succ left ih =>
    have entered : ∀ p, frameFrom? rounds keys first = some p →
        soundings (log ++ p.entries v number sounding).toList =
          soundings log.toList ++ if v.keeps .info then p.change number else [] := by
      intro p played
      rw [← same, ← beeping_of_frameFrom played, Array.toList_appendList, soundings_append,
        soundings_entries]
    cases turn_of_play ended with
    | @failed p _ played result ended =>
      have stopped : p.update.result ≠ .ok .running := by simp [result]
      rw [ended, entered p played, frames_of_stopped played stopped, changes, changes,
        List.append_nil]
    | @halted p played result ended =>
      have stopped : p.update.result ≠ .ok .running := by simp [result]
      rw [ended, entered p played, frames_of_stopped played stopped, changes, changes,
        List.append_nil]
    | @running p played result ended =>
      rw [ih rfl ended, entered p played, frames_of_running played result, changes]
      split <;> simp

end Chip8.Session
