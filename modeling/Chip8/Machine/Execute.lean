import Chip8.Display.Sprite
import Chip8.Machine.Arithmetic

/-! The effect of one instruction. The program counter moves past the instruction before anything
else happens. Only calls and returns can fail, and they do so before they touch the stack. -/

namespace Chip8

inductive Outcome
  | proceed
  | endOfFrame
  | halted
deriving DecidableEq

namespace Machine

def advance (m : Machine) : Machine := { m with pc := m.pc + 2 }

def proceed (m : Machine) : Machine × Except Fault Outcome := (m, .ok .proceed)

def skipIf (m : Machine) (condition : Bool) : Machine := if condition then m.advance else m

def setRegister (m : Machine) (x : Nibble) (b : UInt8) : Machine :=
  { m with registers := m.registers.set x b }

def keyDown (m : Machine) (x : Nibble) : Bool := m.keypad.get (Nibble.low (m.registers.get x))

def jumpDistance (m : Machine) (base : Address) : UInt16 :=
  if m.dialect.offsetReadsNamed then (m.registers.get base.register).toUInt16
  else (m.registers.get 0).toUInt16

/-- The cells that a sprite drawn now would cover. The corner is taken from two registers, modulo
the size of the screen, and the rows from memory at the index register. -/
def spriteCells (m : Machine) (x y height : Nibble) : List Display.Cell :=
  Sprite.cells m.dialect.wrapSprites (Sprite.row (m.registers.get y))
    (Sprite.column (m.registers.get x)) (m.memory.readFrom m.index height.val)

def draw (m : Machine) (cells : List Display.Cell) : Machine :=
  let drawn := m.display.strike false cells
  { m with
    display := drawn.1
    registers := m.registers.set flagRegister (flagByte drawn.2) }

def addIndex (m : Machine) (b : UInt8) : Machine :=
  { m with
    index := m.index + b.toUInt16
    registers := Registers.setFlag m.registers
      (if m.dialect.indexOverflowSetsFlag then some (0xFFF < m.index + b.toUInt16) else none) }

def indexAfter (m : Machine) (last : Nibble) : UInt16 :=
  if m.dialect.transferMovesIndex then m.index + UInt16.ofNat (last.val + 1) else m.index

def takeRandom (m : Machine) (x : Nibble) (mask : UInt8) : Machine :=
  { m.setRegister x (m.random.next &&& mask) with random := m.random.skip }

def combine (m : Machine) (op : Operation) (x y : Nibble) : Machine :=
  { m with registers := Registers.combine m.registers m.dialect op x y }

def storeDecimal (m : Machine) (b : UInt8) : Machine :=
  { m with memory := m.memory.writeFrom m.index (decimalDigits b) }

def storeRegisters (m : Machine) (last : Nibble) : Machine :=
  { m with
    memory := m.memory.writeFrom m.index (Registers.upTo m.registers last)
    index := m.indexAfter last }

def loadRegisters (m : Machine) (last : Nibble) : Machine :=
  { m with
    registers := Registers.load m.registers m.memory m.index last
    index := m.indexAfter last }

/-- Begin to wait for a key, with the program counter back on the instruction. -/
def beginWait (m : Machine) (x : Nibble) : Machine :=
  { m with pc := m.pc - 2, awaiting? := some x, latched? := none }

def call (m : Machine) (origin : UInt16) (target : Address) : Machine × Except Fault Outcome :=
  if m.stack.length < stackLimit then
    { m with pc := target.toWord, stack := m.pc :: m.stack }.proceed
  else
    (m, .error (.stackOverflow origin stackLimit))

def ret (m : Machine) (origin : UInt16) : Machine × Except Fault Outcome :=
  match m.stack with
  | [] => (m, .error (.stackUnderflow origin))
  | a :: rest => { m with pc := a, stack := rest }.proceed

/-- Carry out an instruction that stands at `origin` and that the program counter has passed. -/
def carryOut (m : Machine) (origin : UInt16) : Instruction → Machine × Except Fault Outcome
  | .clearDisplay => { m with display := Display.blank }.proceed
  | .ret => m.ret origin
  | .exit => ({ m with halted := true }, .ok .halted)
  | .jump target => { m with pc := target.toWord }.proceed
  | .call target => m.call origin target
  | .skipEqualByte x b => (m.skipIf (m.registers.get x = b)).proceed
  | .skipNotEqualByte x b => (m.skipIf (m.registers.get x ≠ b)).proceed
  | .skipEqual x y => (m.skipIf (m.registers.get x = m.registers.get y)).proceed
  | .setByte x b => (m.setRegister x b).proceed
  | .addByte x b => (m.setRegister x (m.registers.get x + b)).proceed
  | .combine op x y => (m.combine op x y).proceed
  | .skipNotEqual x y => (m.skipIf (m.registers.get x ≠ m.registers.get y)).proceed
  | .setIndex target => { m with index := target.toWord }.proceed
  | .jumpOffset base => { m with pc := base.toWord + m.jumpDistance base }.proceed
  | .random x mask => (m.takeRandom x mask).proceed
  | .draw x y height => (m.draw (m.spriteCells x y height), .ok .endOfFrame)
  | .skipPressed x => (m.skipIf (m.keyDown x)).proceed
  | .skipNotPressed x => (m.skipIf (!m.keyDown x)).proceed
  | .readDelay x => (m.setRegister x m.delay).proceed
  | .waitKey x => (m.beginWait x, .ok .endOfFrame)
  | .setDelay x => { m with delay := m.registers.get x }.proceed
  | .setSound x => { m with sound := m.registers.get x }.proceed
  | .addIndex x => (m.addIndex (m.registers.get x)).proceed
  | .pointGlyph x => { m with index := Font.address (Nibble.low (m.registers.get x)) }.proceed
  | .storeDecimal x => (m.storeDecimal (m.registers.get x)).proceed
  | .storeRegisters last => (m.storeRegisters last).proceed
  | .loadRegisters last => (m.loadRegisters last).proceed

def execute (m : Machine) (i : Instruction) : Machine × Except Fault Outcome :=
  m.advance.carryOut m.pc i

end Machine

end Chip8
