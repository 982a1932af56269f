import Chip8.Fault
import Chip8.Instruction.Listing

/-! What a machine reports while it works, and how a log says it. A log keeps the reports up to a
chosen level. -/

namespace Chip8

inductive Level
  | error
  | warn
  | info
  | debug
  | trace
deriving DecidableEq

namespace Level

def rank : Level → Nat
  | error => 1
  | warn => 2
  | info => 3
  | debug => 4
  | trace => 5

def name : Level → String
  | error => "ERROR"
  | warn => "WARN"
  | info => "INFO"
  | debug => "DEBUG"
  | trace => "TRACE"

end Level

def logLine (level : Level) (text : String) : String := level.name ++ " " ++ text

/-- The most talkative level that a log keeps. A log without a level keeps nothing. -/
abbrev Verbosity := Option Level

def Verbosity.keeps (v : Verbosity) (l : Level) : Bool :=
  match v with
  | none => false
  | some most => l.rank ≤ most.rank

inductive Event
  | loaded (size : Nat)
  | executed (pc word : UInt16) (instruction : Instruction)
  | failed (fault : Fault)
deriving DecidableEq

namespace Event

def level : Event → Level
  | loaded _ => .debug
  | executed .. => .trace
  | failed _ => .warn

def text : Event → String
  | loaded size => "Loaded ROM of " ++ size.repr ++ " bytes"
  | executed pc word instruction =>
    addressText pc ++ ": " ++ Hex.paddedText 4 word.toNat ++ " " ++ instruction.listing
  | failed fault => fault.message

end Event

end Chip8
