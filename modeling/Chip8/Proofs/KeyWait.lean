import Chip8.Proofs.Histories

/-! The wait for a key. A machine that waits stands still until a key goes down that was up, and
takes that key with its next step, whatever the keys do in between. -/

namespace Chip8.Machine

variable {m n : Machine} {x key : Nibble} {history : List Action}

/-- Every key that is pressed in a history is down already. -/
def Quiet (pad : Keypad) (history : List Action) : Prop :=
  ∀ before key after, history = before ++ .key key true :: after →
    Bank.get (pad.follow before) key = true

theorem Quiet.head {pad : Keypad} (quiet : Quiet pad (.key key true :: history)) :
    pad.get key = true :=
  quiet [] key history rfl

theorem Quiet.tail {pad : Keypad} {a : Action} (quiet : Quiet pad (a :: history)) :
    Quiet (pad.after a) history := by
  intro before key after split
  exact quiet (a :: before) key after (by rw [split, List.cons_append])

theorem released_of_follow {pad : Keypad} (held : pad.get key = true)
    (interactive : ∀ a ∈ history, a.Interactive) (up : Bank.get (pad.follow history) key = false) :
    .key key false ∈ history := by
  induction history generalizing pad with
  | nil => exact absurd (held.symm.trans up) (by decide)
  | cons a rest ih =>
    have later : ∀ b ∈ rest, b.Interactive := fun b hb => interactive b (List.mem_cons_of_mem a hb)
    -- the key is let go either by a later action or by this one
    by_cases still : Bank.get (pad.after a) key = true
    · exact List.mem_cons_of_mem a (ih still later up)
    · cases a with
      | reset program => exact absurd (interactive _ List.mem_cons_self) id
      | step => exact absurd held still
      | tick => exact absurd held still
      | key other pressed =>
        rw [Keypad.after, Bank.get_set] at still
        by_cases same : other = key
        · rw [if_pos same, Bool.not_eq_true] at still
          rw [same, still]
          exact List.mem_cons_self
        · rw [if_neg same] at still
          exact absurd held still

/-- A machine that waits and has heard of no key yet. -/
structure Waiting (m : Machine) (x : Nibble) : Prop where
  running : m.halted = false
  awaiting : m.awaiting? = some x
  unlatched : m.latched? = none

namespace Waiting

theorem step (w : m.Waiting x) : m.step = (m, .ok .endOfFrame) :=
  step_of_unlatched w.running w.awaiting w.unlatched

theorem upToInputs (w : m.Waiting x) (h : m.UpToInputs n) : n.Waiting x := by
  rw [h]
  exact ⟨w.running, w.awaiting, w.unlatched⟩

theorem act (w : m.Waiting x) {a : Action} (interactive : a.Interactive)
    (heldDown : ∀ key, a = .key key true → m.keypad.get key = true) :
    m.UpToInputs (m.act a).1 := by
  cases a with
  | reset program => exact absurd interactive id
  | step =>
    rw [act_step, w.step]
    exact .refl m
  | tick => exact (UpToInputs.refl m).tick
  | key key pressed =>
    refine (UpToInputs.refl m).setKey ?_
    cases pressed with
    | false => rfl
    | true => rw [heldDown key rfl]; rfl

theorem run (w : m.Waiting x) (interactive : ∀ a ∈ history, a.Interactive)
    (quiet : Quiet m.keypad history) : m.UpToInputs (m.run history).1 := by
  induction history generalizing m with
  | nil => exact .refl m
  | cons a rest ih =>
    have first : m.UpToInputs (m.act a).1 := by
      refine w.act (interactive a List.mem_cons_self) ?_
      intro key pressed
      rw [pressed] at quiet
      exact quiet.head
    have later : Quiet (m.act a).1.keypad rest := by
      rw [keypad_act]
      exact quiet.tail
    rw [run_cons]
    exact first.trans
      (ih (w.upToInputs first) (fun b hb => interactive b (List.mem_cons_of_mem a hb)) later)

end Waiting

theorem Waiting.latched_run (w : m.Waiting x) (up : m.keypad.get key = false)
    (external : ∀ a ∈ history, a.External) :
    { m with latched? := some key }.UpToInputs (m.run (.key key true :: history)).1 := by
  have heard : (m.act (.key key true)).1 =
      { m with keypad := m.keypad.set key true, latched? := some key } := by
    simp only [Machine.act, setKey, up, w.awaiting, w.unlatched]
    rfl
  rw [run_cons, heard]
  refine run_invariant rfl ?_
  intro n a ha h
  have kept : n.latched? = some key := by rw [h]
  cases a with
  | reset program => exact absurd (external _ ha) id
  | step => exact absurd (external _ ha) id
  | tick => exact h.tick
  | key other pressed => exact h.setKey (by rw [kept]; simp)

theorem Waiting.step_of_latched (w : m.Waiting x)
    (h : { m with latched? := some key }.UpToInputs n) :
    n.step = ({ n with
      registers := n.registers.set x key.toByte
      pc := m.pc + 2
      awaiting? := none
      latched? := none }, .ok .proceed) := by
  have running : n.halted = false := by rw [h]; exact w.running
  have awaiting : n.awaiting? = some x := by rw [h]; exact w.awaiting
  have latched : n.latched? = some key := by rw [h]
  have here : n.pc = m.pc := by rw [h]
  rw [Machine.step_of_latched running awaiting latched, ← here]
  rfl

theorem step_waitKey (entry : m.pending? = some (.waitKey x)) :
    m.step = ({ m with awaiting? := some x, latched? := none }, .ok .endOfFrame) := by
  obtain ⟨running, free, decoded⟩ := pending_eq_some_iff.1 entry
  have accepted : m.fault? = none := by rw [fault_running running free, decoded]; rfl
  rw [step_of_decode running free decoded accepted, execute_waitKey]
  rfl

/-- A step that begins to wait leaves a machine whose steps change nothing up to the first press of
a key that is up. The step after that press takes the key, and a key that was down from the start
has been let go before it counts. -/
theorem wait_takes_first_press (m : Machine) (x : Nibble) (entry : m.pending? = some (.waitKey x)) :
    m.step = ({ m with awaiting? := some x, latched? := none }, .ok .endOfFrame) ∧
    ∀ before : List Action, (∀ a ∈ before, a.Interactive) → Quiet m.keypad before →
      (let n := (m.run (.step :: before)).1
       n.step = (n, .ok .endOfFrame)) ∧
      ∀ key, Bank.get (m.keypad.follow before) key = false →
        (m.keypad.get key = true → .key key false ∈ before) ∧
        ∀ between : List Action, (∀ a ∈ between, a.External) →
          let n := (m.run (.step :: before ++ .key key true :: between)).1
          n.step = ({ n with
            registers := n.registers.set x key.toByte
            pc := m.pc + 2
            awaiting? := none
            latched? := none }, .ok .proceed) := by
  have begun := step_waitKey entry
  have running : m.halted = false := (pending_eq_some_iff.1 entry).1
  have entered : (m.act .step).1 = { m with awaiting? := some x, latched? := none } :=
    congrArg Prod.fst begun
  have w : { m with awaiting? := some x, latched? := none }.Waiting x := ⟨running, rfl, rfl⟩
  refine ⟨begun, fun before interactive quiet => ?_⟩
  -- what has changed since the wait began are the timers and the keypad
  have still : { m with awaiting? := some x, latched? := none }.UpToInputs
      (m.run (.step :: before)).1 := by
    rw [run_cons, entered]
    exact w.run interactive quiet
  have waiting : (m.run (.step :: before)).1.Waiting x := w.upToInputs still
  refine ⟨waiting.step, fun key up => ⟨fun held => released_of_follow held interactive up, ?_⟩⟩
  intro between external
  have up' : (m.run (.step :: before)).1.keypad.get key = false := by
    rw [keypad_run]
    exact up
  have here : (m.run (.step :: before)).1.pc = m.pc := by rw [still]
  rw [run_append_fst, ← here]
  exact waiting.step_of_latched (waiting.latched_run up' external)

theorem wait_ends_after_release :
    let m := (loaded .plain (.ofSeed 0) #[0xF3, 0x0A]).setKey 5 true
    m.pending? = some (.waitKey 3) ∧ m.keypad.get 5 = true ∧
    let n := (m.run (.step :: [.step, .key 5 false, .step] ++
      .key 5 true :: [.key 7 true, .key 5 false, .tick])).1
    n.step = ({ n with
      registers := n.registers.set 3 (Nibble.toByte 5)
      pc := m.pc + 2
      awaiting? := none
      latched? := none }, .ok .proceed) := by
  intro m
  have word : m.fetch = 0xF30A :=
    (fetch_loaded .plain (.ofSeed 0) #[0xF3, 0x0A] (by decide) (by decide)).trans (by decide)
  have entry : m.pending? = some (.waitKey 3) :=
    pending_eq_some_iff.2 ⟨rfl, rfl, by rw [word]; decide⟩
  refine ⟨entry, rfl, ?_⟩
  refine (((wait_takes_first_press m 3 entry).2 [.step, .key 5 false, .step] ?_ ?_).2 5 ?_).2 _ ?_
  · simp [Action.Interactive]
  · intro before key after split
    have pressed : .key key true ∈ [.step, .key 5 false, Action.step] := by
      rw [split]
      exact List.mem_append_right before List.mem_cons_self
    simp at pressed
  · rfl
  · simp [Action.External]

end Chip8.Machine
