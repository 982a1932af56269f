import Mathlib.Data.List.Induction
import Chip8.Proofs.Refusal

/-! Calls and returns. A history leaves a trace of the calls and returns that were carried out. A return
answers the call from which it is separated by a balanced part of the trace. The stack holds what the
calls without an answer have left on it, and nothing else. -/

namespace Chip8

inductive Transfer
  | call (origin : UInt16)
  | ret
deriving DecidableEq

namespace Transfer

/-- The traces in which every call is answered and every return answers a call. -/
inductive Balanced : List Transfer → Prop
  | nil : Balanced []
  | nest {origin : UInt16} {inner after : List Transfer} (body : Balanced inner)
      (tail : Balanced after) : Balanced (call origin :: inner ++ ret :: after)

/-- What follows a call holds the return that answers it. -/
def Answered (rest : List Transfer) : Prop :=
  ∃ inner after, Balanced inner ∧ rest = inner ++ ret :: after

def closes : (depth : Nat) → List Transfer → Bool
  | _, [] => false
  | depth, call _ :: rest => closes (depth + 1) rest
  | 0, ret :: _ => true
  | depth + 1, ret :: rest => closes depth rest

variable {trace rest inner : List Transfer} {depth : Nat}

theorem closes_balanced (balanced : Balanced inner) (depth : Nat) (rest : List Transfer) :
    closes depth (inner ++ rest) = closes depth rest := by
  induction balanced generalizing depth rest with
  | nil => rfl
  | nest body tail ihBody ihTail =>
    simp only [List.cons_append, List.append_assoc, closes, ihBody, ihTail]

theorem split_of_closes (h : closes depth trace = true) :
    ∃ inner after, Balanced inner ∧ trace = inner ++ ret :: after ∧
      ∀ d, depth = d + 1 → closes d after = true := by
  induction hn : trace.length using Nat.strongRecOn generalizing depth trace with
  | ind n ih =>
    cases trace with
    | nil => cases h
    | cons t rest =>
      cases t with
      | ret =>
        refine ⟨[], rest, .nil, rfl, ?_⟩
        rintro d rfl
        exact h
      | call origin =>
        have shorter : rest.length < n := hn ▸ Nat.lt_succ_self _
        have deeper : closes (depth + 1) rest = true := h
        obtain ⟨inner, after, body, rfl, later⟩ := ih _ shorter deeper rfl
        have shortest : after.length < n := by
          simp only [List.length_append, List.length_cons] at shorter
          omega
        obtain ⟨inner', after', body', rfl, later'⟩ := ih _ shortest (later depth rfl) rfl
        refine ⟨call origin :: inner ++ ret :: inner', after', .nest body body', ?_, later'⟩
        simp only [List.cons_append, List.append_assoc]

theorem closes_iff_answered : closes 0 rest = true ↔ Answered rest := by
  constructor
  · intro h
    obtain ⟨inner, after, body, split, -⟩ := split_of_closes h
    exact ⟨inner, after, body, split⟩
  · rintro ⟨inner, after, body, rfl⟩
    rw [closes_balanced body]
    rfl

instance : DecidablePred Answered := fun _ => decidable_of_iff _ closes_iff_answered

/-- The origins of the calls without an answer, the oldest first. -/
def openCalls : List Transfer → List UInt16
  | [] => []
  | call origin :: rest => if Answered rest then openCalls rest else origin :: openCalls rest
  | ret :: rest => openCalls rest

theorem answered_concat {t : Transfer} :
    Answered (rest ++ [t]) ↔ Answered rest ∨ Balanced rest ∧ t = ret := by
  constructor
  · rintro ⟨inner, after, body, split⟩
    rcases List.eq_nil_or_concat after with rfl | ⟨after, last, rfl⟩
    · obtain ⟨rfl, ht⟩ := List.append_inj' split rfl
      exact .inr ⟨body, List.singleton_inj.1 ht⟩
    · have regrouped : rest ++ [t] = (inner ++ ret :: after) ++ [last] := by
        simp only [split, List.append_assoc, List.cons_append, List.concat_eq_append]
      exact .inl ⟨inner, after, body, (List.append_inj' regrouped rfl).1⟩
  · rintro (⟨inner, after, body, rfl⟩ | ⟨balanced, rfl⟩)
    · exact ⟨inner, after ++ [t], body, by simp only [List.append_assoc, List.cons_append]⟩
    · exact ⟨rest, [], balanced, rfl⟩

theorem openCalls_balanced (balanced : Balanced inner) (rest : List Transfer) :
    openCalls (inner ++ rest) = openCalls rest := by
  induction balanced generalizing rest with
  | nil => rfl
  | nest body tail ihBody ihTail =>
    rename_i origin inner after
    have answered : Answered (inner ++ ret :: (after ++ rest)) := ⟨inner, _, body, rfl⟩
    simp only [List.cons_append, List.append_assoc, openCalls, if_pos answered, ihBody, ihTail]

theorem balanced_of_openCalls (unanswered : ¬Answered trace) (closed : openCalls trace = []) :
    Balanced trace := by
  induction hn : trace.length using Nat.strongRecOn generalizing trace with
  | ind n ih =>
    cases trace with
    | nil => exact .nil
    | cons t rest =>
      cases t with
      | ret => exact absurd ⟨[], rest, .nil, rfl⟩ unanswered
      | call origin =>
        rw [openCalls] at closed
        split at closed
        · rename_i answered
          obtain ⟨inner, after, body, rfl⟩ := answered
          rw [openCalls_balanced body] at closed
          have later : ¬Answered after := by
            rintro ⟨inner', after', body', rfl⟩
            refine unanswered ⟨call origin :: inner ++ ret :: inner', after', .nest body body', ?_⟩
            simp only [List.cons_append, List.append_assoc]
          have shorter : after.length < n := by
            simp only [← hn, List.length_cons, List.length_append]
            omega
          exact .nest body (ih _ shorter later closed rfl)
        · cases closed

theorem openCalls_concat_call (trace : List Transfer) (origin : UInt16) :
    openCalls (trace ++ [call origin]) = openCalls trace ++ [origin] := by
  induction trace with
  | nil => rfl
  | cons t rest ih =>
    cases t with
    | ret => exact ih
    | call earlier =>
      have same : Answered (rest ++ [call origin]) ↔ Answered rest := by simp [answered_concat]
      simp only [List.cons_append, openCalls, same, ih]
      split <;> rfl

theorem openCalls_concat_ret (trace : List Transfer) :
    openCalls (trace ++ [ret]) = (openCalls trace).dropLast := by
  induction trace with
  | nil => rfl
  | cons t rest ih =>
    cases t with
    | ret => exact ih
    | call origin =>
      rw [List.cons_append, openCalls, openCalls, ih]
      by_cases answered : Answered rest
      · rw [if_pos (answered_concat.2 (.inl answered)), if_pos answered]
      · rw [if_neg answered]
        by_cases balanced : Balanced rest
        · have closed : openCalls rest = [] := by
            simpa [openCalls] using openCalls_balanced balanced []
          rw [if_pos (answered_concat.2 (.inr ⟨balanced, rfl⟩)), closed]
          rfl
        · have pending : openCalls rest ≠ [] := fun closed =>
            balanced (balanced_of_openCalls answered closed)
          have still : ¬Answered (rest ++ [ret]) := by simp [answered_concat, answered, balanced]
          rw [if_neg still, List.dropLast_cons_of_ne_nil pending]

example : openCalls [.call 0x200, .call 0x300, .call 0x400, .ret, .ret] = [0x200] := by decide

def onStack (stack : List UInt16) : Transfer → List UInt16
  | call origin => (origin + 2) :: stack
  | ret => stack.tail

theorem onStack_balanced (balanced : Balanced trace) (stack : List UInt16) :
    trace.foldl onStack stack = stack := by
  induction balanced generalizing stack with
  | nil => rfl
  | nest body tail ihBody ihTail =>
    simp only [List.cons_append, List.foldl_cons, List.foldl_append, ihBody, ihTail, onStack,
      List.tail_cons]

theorem onStack_nil (trace : List Transfer) :
    (trace.foldl onStack []).reverse = (openCalls trace).map (· + 2) := by
  induction trace using List.reverseRecOn with
  | nil => rfl
  | append_singleton trace t ih =>
    rw [List.foldl_append, List.foldl_cons, List.foldl_nil]
    cases t with
    | call origin => rw [onStack, List.reverse_cons, ih, openCalls_concat_call, List.map_append]; rfl
    | ret => rw [onStack, ← List.dropLast_reverse, ih, openCalls_concat_ret, List.map_dropLast]

end Transfer

def Instruction.transfer? (origin : UInt16) : Instruction → Option Transfer
  | call _ => some (.call origin)
  | ret => some .ret
  | _ => none

namespace Machine

open Transfer

variable {m : Machine} {origin : UInt16} {i : Instruction} {target : Address} {history : List Action}

def transfer? (m : Machine) : Option Transfer :=
  if m.step.2.isOk then m.pending?.bind (Instruction.transfer? m.pc) else none

def transfers (m : Machine) : List Action → List Transfer
  | [] => []
  | .step :: rest => m.transfer?.toList ++ m.step.1.transfers rest
  | a :: rest => (m.act a).1.transfers rest

theorem step_call (pending : m.pending? = some (.call target))
    (room : m.stack.length < stackLimit) :
    m.step = ({ m with pc := target.toWord, stack := (m.pc + 2) :: m.stack }, .ok .proceed) := by
  have accepted : m.refusal? m.pc (.call target) = none := by rw [refusal_call, if_pos room]
  rw [step_of_pending pending accepted, execute, carryOut_call (m := m.advance) room]
  rfl

theorem step_call_refused (pending : m.pending? = some (.call target))
    (full : ¬m.stack.length < stackLimit) :
    m.step = (m, .error (.stackOverflow m.pc stackLimit)) :=
  step_of_pending_refused pending (by rw [refusal_call, if_neg full])

theorem transfer_call (pending : m.pending? = some (.call target))
    (room : m.stack.length < stackLimit) : m.transfer? = some (.call m.pc) := by
  rw [transfer?, step_call pending room, pending]
  rfl

theorem step_ret {a : UInt16} {rest : List UInt16} (pending : m.pending? = some .ret)
    (stack : m.stack = a :: rest) :
    m.step = ({ m with pc := a, stack := rest }, .ok .proceed) := by
  have accepted : m.refusal? m.pc .ret = none := by
    rw [refusal_ret, stack, if_neg (List.cons_ne_nil a rest)]
  rw [step_of_pending pending accepted, execute, carryOut_ret (m := m.advance) stack]
  rfl

theorem step_ret_refused (pending : m.pending? = some .ret) (empty : m.stack = []) :
    m.step = (m, .error (.stackUnderflow m.pc)) :=
  step_of_pending_refused pending (by rw [refusal_ret, if_pos empty])

theorem stack_execute (accepted : m.refusal? m.pc i = none) :
    (m.execute i).1.stack = (i.transfer? m.pc).toList.foldl onStack m.stack := by
  cases i with
  | call target =>
    rw [refusal_call] at accepted
    split at accepted
    · rw [execute, carryOut_call (m := m.advance) ‹_›]
      rfl
    · cases accepted
  | ret =>
    rw [refusal_ret] at accepted
    cases hs : m.stack with
    | nil => simp only [if_pos hs, reduceCtorEq] at accepted
    | cons a rest =>
      rw [execute, carryOut_ret (m := m.advance) hs]
      rfl
  | skipEqualByte | skipNotEqualByte | skipEqual | skipNotEqual | skipPressed | skipNotPressed =>
    simp only [execute, carryOut, skipIf_eq, proceed]
    rfl
  | _ => rfl

theorem stack_step (m : Machine) : m.step.1.stack = m.transfer?.toList.foldl onStack m.stack := by
  cases m.move with
  | rest halted hs =>
    have idle : m.pending? = none := by simp [pending?, halted]
    simp [transfer?, hs, idle]
  | wait running x awaiting unlatched hs =>
    have idle : m.pending? = none := by simp [pending?, awaiting]
    simp [transfer?, hs, idle]
  | receive running x key awaiting latched hs =>
    have idle : m.pending? = none := by simp [pending?, awaiting]
    simp only [transfer?, idle, hs]
    rfl
  | refuse running free fault refused hs =>
    rw [transfer?, hs]
    rfl
  | perform running free i decoded accepted hs =>
    have pending : m.pending? = some i := pending_eq_some_iff.2 ⟨running, free, decoded⟩
    rw [fault_running running free, decoded] at accepted
    rw [transfer?, hs, pending]
    exact stack_execute accepted

theorem stack_run (interactive : ∀ a ∈ history, a.Interactive) :
    (m.run history).1.stack = (m.transfers history).foldl onStack m.stack := by
  induction history generalizing m with
  | nil => rfl
  | cons a rest ih =>
    have later : ∀ b ∈ rest, b.Interactive := fun b hb => interactive b (List.mem_cons_of_mem a hb)
    rw [run_cons, ih later]
    cases a with
    | reset program => exact absurd (interactive _ List.mem_cons_self) id
    | step => rw [transfers, List.foldl_append, ← stack_step]; rfl
    | tick => rfl
    | key key pressed => rfl

/-- What the calls without an answer determine: the stack, which calls and returns are refused, and
where a return leads. -/
structure KeepsCalls (m : Machine) (opened : List UInt16) : Prop where
  stack_eq : m.stack.reverse = opened.map (· + 2)
  call_refused : ∀ target, m.pending? = some (.call target) →
    ((∃ fault, m.step.2 = .error fault) ↔ opened.length = 16)
  ret_refused : m.pending? = some .ret → ((∃ fault, m.step.2 = .error fault) ↔ opened = [])
  ret_leads : ∀ outcome, m.pending? = some .ret → m.step.2 = .ok outcome →
    ∃ older newest, opened = older ++ [newest] ∧ m.step.1.pc = newest + 2 ∧
      m.step.1.stack.reverse = older.map (· + 2)
  call_restored : ∀ target outcome between, m.pending? = some (.call target) →
    m.step.2 = .ok outcome → (∀ a ∈ between, a.Interactive) →
      Balanced (m.step.1.transfers between) →
        let n := (m.step.1.run between).1
        n.pending? = some .ret →
          n.step.2 = .ok .proceed ∧ n.step.1.pc = m.pc + 2 ∧ n.step.1.stack = m.stack

theorem call_refused_iff (pending : m.pending? = some (.call target)) :
    (∃ fault, m.step.2 = .error fault) ↔ ¬m.stack.length < stackLimit := by
  constructor
  · rintro ⟨fault, failed⟩ room
    rw [step_call pending room] at failed
    cases failed
  · intro full
    rw [step_call_refused pending full]
    exact ⟨_, rfl⟩

theorem ret_refused_iff (pending : m.pending? = some .ret) :
    (∃ fault, m.step.2 = .error fault) ↔ m.stack = [] := by
  constructor
  · rintro ⟨fault, failed⟩
    cases hs : m.stack with
    | nil => rfl
    | cons a rest =>
      rw [step_ret pending hs] at failed
      cases failed
  · intro empty
    rw [step_ret_refused pending empty]
    exact ⟨_, rfl⟩

theorem step_ret_of_balanced {outcome : Outcome} {between : List Action}
    (pending : m.pending? = some (.call target)) (called : m.step.2 = .ok outcome)
    (interactive : ∀ a ∈ between, a.Interactive) (balanced : Balanced (m.step.1.transfers between))
    (returns : (m.step.1.run between).1.pending? = some .ret) :
    (m.step.1.run between).1.step =
      ({ (m.step.1.run between).1 with pc := m.pc + 2, stack := m.stack }, .ok .proceed) := by
  have room : m.stack.length < stackLimit := by
    by_contra full
    obtain ⟨fault, failed⟩ := (call_refused_iff pending).2 full
    cases failed.symm.trans called
  refine step_ret returns ?_
  rw [stack_run interactive, onStack_balanced balanced, step_call pending room]

theorem KeepsCalls.of_stack {opened : List UInt16} (stack : m.stack.reverse = opened.map (· + 2))
    (bounded : m.stack.length ≤ stackLimit) : m.KeepsCalls opened := by
  have length : m.stack.length = opened.length := by
    rw [← List.length_reverse, stack, List.length_map]
  refine ⟨stack, ?_, ?_, ?_, ?_⟩
  · intro target pending
    rw [call_refused_iff pending, ← length, Nat.not_lt]
    exact ⟨fun full => Nat.le_antisymm bounded full, fun full => Nat.le_of_eq full.symm⟩
  · intro pending
    rw [ret_refused_iff pending, ← List.length_eq_zero_iff, length, List.length_eq_zero_iff]
  · intro outcome pending answer
    rcases List.eq_nil_or_concat opened with rfl | ⟨older, newest, rfl⟩
    · have empty : m.stack = [] := List.length_eq_zero_iff.1 length
      obtain ⟨fault, failed⟩ := (ret_refused_iff pending).2 empty
      cases failed.symm.trans answer
    · -- the newest return address comes first on the stack
      have top : m.stack = (newest + 2) :: (older.map (· + 2)).reverse := by
        rw [← List.reverse_inj, stack]
        simp
      rw [step_ret pending top]
      exact ⟨older, newest, List.concat_eq_append .., rfl, List.reverse_reverse _⟩
  · intro target outcome between pending called interactive balanced n returns
    rw [step_ret_of_balanced pending called interactive balanced returns]
    exact ⟨rfl, rfl, rfl⟩

theorem KeepsCalls.run_loaded (dialect : Dialect) (random : Random.Source) (program : Array UInt8)
    (interactive : ∀ a ∈ history, a.Interactive) :
    ((loaded dialect random program).run history).1.KeepsCalls
      (openCalls ((loaded dialect random program).transfers history)) := by
  have consistent : (loaded dialect random program).Consistent :=
    .of_idle (Nat.zero_le _) rfl rfl rfl
  refine .of_stack ?_ (consistent.run history).stack_le
  rw [stack_run interactive]
  exact onStack_nil _

/-- Since the program was loaded, the stack holds the address behind each call that no return has
answered, so that a return leads behind the newest of them. -/
theorem stack_holds_open_calls (m : Machine) (program : Array UInt8)
    (fits : program.size ≤ Memory.programLimit) (history : List Action)
    (interactive : ∀ a ∈ history, a.Interactive) :
    let entered := (m.act (.reset program)).1
    (entered.run history).1.KeepsCalls (openCalls (entered.transfers history)) := by
  rw [act_reset_fst fits]
  exact .run_loaded m.dialect m.random program interactive

theorem stack_holds_open_call :
    let entered := ((start .plain (.ofSeed 0)).act (.reset #[0x22, 0x04])).1
    let history := [.step, .tick, .key 7 true]
    entered.pending? = some (.call 0x204) ∧
      (entered.run history).1.KeepsCalls (openCalls (entered.transfers history)) ∧
      entered.transfers history = [.call 0x200] := by
  have fits : (#[0x22, 0x04] : Array UInt8).size ≤ Memory.programLimit := by decide
  have word : (loaded .plain (.ofSeed 0) #[0x22, 0x04]).fetch = 0x2204 :=
    (fetch_loaded _ _ _ fits (by decide)).trans (by decide)
  have kept := stack_holds_open_calls (.start .plain (.ofSeed 0)) #[0x22, 0x04] fits
    [.step, .tick, .key 7 true] (by simp [Action.Interactive])
  have entered : ((start .plain (.ofSeed 0)).act (.reset #[0x22, 0x04])).1 =
      loaded .plain (.ofSeed 0) #[0x22, 0x04] := act_reset_fst fits
  rw [entered] at kept ⊢
  have pending : (loaded .plain (.ofSeed 0) #[0x22, 0x04]).pending? = some (.call 0x204) :=
    pending_eq_some_iff.2 ⟨rfl, rfl, by rw [word]; decide⟩
  refine ⟨pending, kept, ?_⟩
  rw [transfers, transfer_call pending (by decide)]
  rfl

end Machine

end Chip8
