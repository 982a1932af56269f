import Chip8.Bank
import Chip8.Dialect
import Chip8.Display
import Chip8.Fault
import Chip8.Memory
import Chip8.Random.Source

/-! The machine and what its owner can do to it between instructions: load a program, let the
timers count and press keys. -/

namespace Chip8

abbrev Registers := Bank UInt8

abbrev Keypad := Bank Bool

def flagRegister : Nibble := 15

def flagByte (on : Bool) : UInt8 := if on then 1 else 0

/-- Return addresses are kept with the newest first. -/
structure Machine where
  memory : Memory
  display : Display
  pc : UInt16
  index : UInt16
  registers : Registers
  stack : List UInt16
  delay : UInt8
  sound : UInt8
  keypad : Keypad
  awaiting? : Option Nibble
  /-- The first key pressed since the wait began. -/
  latched? : Option Nibble
  halted : Bool
  dialect : Dialect
  random : Random.Source
deriving DecidableEq

namespace Machine

def stackLimit : Nat := 16

def start (dialect : Dialect) (random : Random.Source) : Machine where
  memory := Memory.blank
  display := Display.blank
  pc := UInt16.ofNat Memory.programStart
  index := 0
  registers := Bank.fill 0
  stack := []
  delay := 0
  sound := 0
  keypad := Bank.fill false
  awaiting? := none
  latched? := none
  halted := false
  dialect := dialect
  random := random

/-- Load a program. Only the dialect and the random bytes go on as they are. -/
def reset (m : Machine) (program : Array UInt8) : Except Fault Machine :=
  if program.size ≤ Memory.programLimit then
    .ok { m with
      memory := Memory.image program
      display := Display.blank
      pc := UInt16.ofNat Memory.programStart
      index := 0
      registers := Bank.fill 0
      stack := []
      delay := 0
      sound := 0
      keypad := Bank.fill false
      awaiting? := none
      latched? := none
      halted := false }
  else
    .error (.programTooLarge program.size Memory.programLimit)

def countDown (t : UInt8) : UInt8 := if t = 0 then 0 else t - 1

def tick (m : Machine) : Machine :=
  { m with delay := countDown m.delay, sound := countDown m.sound }

def tickTimes (m : Machine) : Nat → Machine
  | 0 => m
  | n + 1 => m.tick.tickTimes n

/-- A key that goes down while the machine waits is kept for the next step, unless another one was
faster. -/
def setKey (m : Machine) (key : Nibble) (pressed : Bool) : Machine :=
  { m with
    keypad := m.keypad.set key pressed
    latched? :=
      if pressed && !m.keypad.get key && m.awaiting?.isSome && m.latched?.isNone then some key
      else m.latched? }

def beeping (m : Machine) : Bool := 0 < m.sound

def pixel (m : Machine) (row : Fin 32) (column : Fin 64) : Bool := m.display.isOn (row, column)

end Machine

end Chip8
