/-! The points on which interpreters disagree. A dialect settles each of them, and the plain
dialect has every answer set to no. -/

namespace Chip8

structure Dialect where
  /-- Adding to the index register sets VF when the sum leaves the address space. -/
  indexOverflowSetsFlag : Bool
  wrapSprites : Bool
  shiftReadsSecond : Bool
  logicClearsFlag : Bool
  transferMovesIndex : Bool
  /-- A jump with offset adds the register named by its highest digit and not V0. -/
  offsetReadsNamed : Bool
deriving DecidableEq

namespace Dialect

def plain : Dialect := ⟨false, false, false, false, false, false⟩

def cosmacVip : Dialect :=
  { plain with shiftReadsSecond := true, logicClearsFlag := true, transferMovesIndex := true }

def join (a b : Dialect) : Dialect where
  indexOverflowSetsFlag := a.indexOverflowSetsFlag || b.indexOverflowSetsFlag
  wrapSprites := a.wrapSprites || b.wrapSprites
  shiftReadsSecond := a.shiftReadsSecond || b.shiftReadsSecond
  logicClearsFlag := a.logicClearsFlag || b.logicClearsFlag
  transferMovesIndex := a.transferMovesIndex || b.transferMovesIndex
  offsetReadsNamed := a.offsetReadsNamed || b.offsetReadsNamed

def settings (d : Dialect) : List (String × Bool) :=
  [("index_overflow_sets_vf", d.indexOverflowSetsFlag), ("wrap_sprites", d.wrapSprites),
    ("shift_uses_vy", d.shiftReadsSecond), ("logic_resets_vf", d.logicClearsFlag),
    ("load_store_increments_index", d.transferMovesIndex),
    ("jump_with_offset_uses_vx", d.offsetReadsNamed)]

def settingText : String × Bool → String
  | (name, true) => name ++ ": true"
  | (name, false) => name ++ ": false"

def listing (d : Dialect) : String :=
  "Quirks \x7b " ++ ", ".intercalate (d.settings.map settingText) ++ " \x7d"

end Dialect

end Chip8
