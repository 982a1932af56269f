import Chip8.Dialect
import Chip8.Nibble
import Chip8.Single.Basic

/-! What can be said on the command line. Settings take a value, switches take none. -/

namespace Chip8.CommandLine

inductive Setting
  | program
  | rate
  | frames
  | seed
  | heldKey
deriving DecidableEq

inductive Switch
  | cosmacVip
  | indexOverflowSetsFlag
  | wrapSprites
  | shiftReadsSecond
  | logicClearsFlag
  | transferMovesIndex
  | offsetReadsNamed
deriving DecidableEq

inductive Name
  | setting (setting : Setting)
  | switch (switch : Switch)
  | help
deriving DecidableEq

def names : List (String × Name) :=
  [("rom", .setting .program), ("cpu-hz", .setting .rate), ("frames", .setting .frames),
    ("seed", .setting .seed), ("hold-key", .setting .heldKey),
    ("cosmac-vip", .switch .cosmacVip),
    ("index-overflow-sets-vf", .switch .indexOverflowSetsFlag),
    ("wrap-sprites", .switch .wrapSprites), ("shift-uses-vy", .switch .shiftReadsSecond),
    ("logic-resets-vf", .switch .logicClearsFlag),
    ("load-store-increments-index", .switch .transferMovesIndex),
    ("jump-with-offset-uses-vx", .switch .offsetReadsNamed), ("help", .help)]

def Name.ofText? (text : String) : Option Name := names.lookup text

def Switch.dialect : Switch → Dialect
  | cosmacVip => Dialect.cosmacVip
  | indexOverflowSetsFlag => { Dialect.plain with indexOverflowSetsFlag := true }
  | wrapSprites => { Dialect.plain with wrapSprites := true }
  | shiftReadsSecond => { Dialect.plain with shiftReadsSecond := true }
  | logicClearsFlag => { Dialect.plain with logicClearsFlag := true }
  | transferMovesIndex => { Dialect.plain with transferMovesIndex := true }
  | offsetReadsNamed => { Dialect.plain with offsetReadsNamed := true }

structure Options where
  program : String
  rate : Single
  frames : Nat
  seed : Option UInt64
  heldKeys : List Nibble
  dialect : Dialect

end Chip8.CommandLine
