import Chip8.Machine.Action
import Chip8.Proofs.CheckedInstructions

/-! Checked runs. The requests to a machine are served with a check at each plain operation. All checks
pass, so that a run goes as it does without them and fails only with the faults that the machine itself
reports. -/

namespace Chip8.Checked

def fetch (m : Machine) : Checked UInt16 := do
  let high ← readByte m.memory m.pc
  let low ← readByte m.memory (m.pc + 1)
  return UInt16.ofNat (high.toNat * 256 + low.toNat)

def receiveKey (m : Machine) (x key : Nibble) : Checked Machine := do
  return { (← setRegister m x key.toByte) with awaiting? := none, latched? := none }.advance

def pollKey (m : Machine) (x : Nibble) : Checked (Machine × Except Fault Outcome) := do
  match m.latched? with
  | none => return (m, .ok .endOfFrame)
  | some key => return (← receiveKey m x key).proceed

def cycle (m : Machine) : Checked (Machine × Except Fault Outcome) := do
  let word ← fetch m
  match ← decode word with
  | some i => carryOut m.advance m.pc i
  | none => return (m, .error (.unknownInstruction word m.pc))

def step (m : Machine) : Checked (Machine × Except Fault Outcome) := do
  if m.halted then return (m, .ok .halted)
  else
    match m.awaiting? with
    | some x => pollKey m x
    | none => return Machine.rollBack m.pc (← cycle m)

def reset (m : Machine) (program : Array UInt8) : Checked (Except Fault Machine) := do
  if Memory.programLimit < program.size then
    return .error (.programTooLarge program.size Memory.programLimit)
  else
    let memory ← overlay Memory.blank Font.base
      (← add countWidth Font.base Font.bytes.size) Font.bytes
    let memory ← overlay memory Memory.programStart
      (← add countWidth Memory.programStart program.size) program
    return .ok { m with
      memory
      display := Display.blank
      pc := UInt16.ofNat Memory.programStart
      index := 0
      registers := Bank.fill 0
      stack := []
      delay := 0
      sound := 0
      keypad := Bank.fill false
      awaiting? := none
      latched? := none
      halted := false }

def setKey (m : Machine) (key : Nibble) (pressed : Bool) : Checked Machine := do
  let before ← cell m.keypad key
  let keypad ← setCell m.keypad key pressed
  let latched? :=
    if pressed && !before && m.awaiting?.isSome && m.latched?.isNone then some key else m.latched?
  return { m with keypad, latched? }

def act (m : Machine) : Machine.Action → Checked (Machine × Except Fault Machine.Reply)
  | .reset program => do
    match ← reset m program with
    | .ok next => return (next, .ok .done)
    | .error fault => return (m, .error fault)
  | .step => do
    let (next, answer) ← step m
    return (next, answer.map .stepped)
  | .tick => return (m.tick, .ok .done)
  | .key key pressed => return (← setKey m key pressed, .ok .done)

def run (m : Machine) : List Machine.Action →
    Checked (Machine × List (Except Fault Machine.Reply))
  | [] => return (m, [])
  | a :: rest => do
    let (next, reply) ← act m a
    let (last, replies) ← run next rest
    return (last, reply :: replies)

@[simp] theorem fetch_eq (m : Machine) : fetch m = .ok m.fetch := by
  simp [fetch, Machine.fetch, Memory.readWord]

@[simp] theorem pollKey_eq (m : Machine) (x : Nibble) : pollKey m x = .ok (m.pollKey x) := by
  cases latched : m.latched? <;>
    simp [pollKey, Machine.pollKey, latched, receiveKey, Machine.receiveKey]

@[simp] theorem cycle_eq (m : Machine) : cycle m = .ok m.cycle := by
  cases found : Instruction.decode m.fetch <;>
    simp [cycle, Machine.cycle, decode_eq, found, carryOut_eq, Machine.execute]

@[simp] theorem step_eq (m : Machine) : step m = .ok m.step := by
  unfold step Machine.step
  split
  · rfl
  · cases m.awaiting? <;> simp

@[simp] theorem reset_eq (m : Machine) (program : Array UInt8) :
    reset m program = .ok (m.reset program) := by
  unfold reset Machine.reset
  by_cases fits : program.size ≤ Memory.programLimit
  · have limit : program.size ≤ 3584 := fits
    have first : add countWidth Font.base Font.bytes.size = .ok (Font.base + Font.bytes.size) :=
      add_count (by rw [Font.size_bytes]; decide)
    have second : add countWidth Memory.programStart program.size =
        .ok (Memory.programStart + program.size) := add_count (by simp only [Memory.programStart]; omega)
    rw [if_neg (Nat.not_lt.2 fits), if_pos fits, first, bind_ok,
      overlay_eq _ (by rw [Font.size_bytes]; decide), bind_ok, second, bind_ok,
      overlay_eq _ (by simp only [Memory.programStart, Memory.size]; omega)]
    rfl
  · rw [if_pos (Nat.not_le.1 fits), if_neg fits]
    rfl

@[simp] theorem setKey_eq (m : Machine) (key : Nibble) (pressed : Bool) :
    setKey m key pressed = .ok (m.setKey key pressed) := by
  simp [setKey, Machine.setKey]

theorem act_eq (m : Machine) (a : Machine.Action) : act m a = .ok (m.act a) := by
  cases a with
  | reset program =>
    cases loaded : m.reset program <;> simp [act, Machine.act, loaded]
  | step => simp [act, Machine.act]
  | tick => rfl
  | key key pressed => simp [act, Machine.act]

theorem run_eq (m : Machine) (history : List Machine.Action) : run m history = .ok (m.run history) := by
  induction history generalizing m with
  | nil => rfl
  | cons a rest ih => simp only [run, act_eq, ih, bind_ok, pure_eq, Machine.run]

/-- Whatever is asked of a fresh machine, no operation on the way breaks down, and each request that
fails does so with a fault. The same holds of each of its parts in any machine: a word is taken apart, a
sprite stays on the screen, wrapped or clipped, and what is fetched, moved or loaded stays in memory. -/
theorem every_check_passes :
    (∀ dialect seed history, run (Machine.start dialect (.ofSeed seed)) history =
      .ok ((Machine.start dialect (.ofSeed seed)).run history)) ∧
    (∀ w, decode w = .ok (Instruction.decode w)) ∧
    (∀ m x y height, draw m x y height = .ok (m.draw (m.spriteCells x y height))) ∧
    (∀ m, fetch m = .ok m.fetch) ∧
    (∀ m b, storeDecimal m b = .ok (m.storeDecimal b)) ∧
    (∀ m last, storeRegisters m last = .ok (m.storeRegisters last)) ∧
    (∀ m last, loadRegisters m last = .ok (m.loadRegisters last)) ∧
    ∀ m program, reset m program = .ok (m.reset program) :=
  ⟨fun _ _ => run_eq _, decode_eq, draw_eq, fetch_eq, storeDecimal_eq, storeRegisters_eq,
    loadRegisters_eq, reset_eq⟩

end Chip8.Checked
