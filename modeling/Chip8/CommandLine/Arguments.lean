import Chip8.CommandLine.Key
import Chip8.CommandLine.Options
import Chip8.Runner
import Chip8.Single.Decimal

/-! Reading the command line. Arguments are taken from the left and the first misuse ends the
reading. A setting's value follows an equals sign or is the next argument. In the second case the
value is looked at only when the setting is settled, that is by the next option or at the end. -/

namespace Chip8.CommandLine

inductive Usage
  | helpWanted
  | programMissing
  | unknownArgument
  | valueMissing
  | valueInvalid
  | repeated
  | valueUnwanted
deriving DecidableEq

def Usage.status : Usage → Nat
  | helpWanted => 0
  | _ => 2

inductive Shape
  | long (name : String) (value : Option String)
  | short (letter : Char)
  | plain

def Shape.ofText (text : String) : Shape :=
  match text.toList with
  | '-' :: '-' :: rest =>
    match rest.span (· ≠ '=') with
    | (name, '=' :: value) => .long (String.ofList name) (some (String.ofList value))
    | (name, _) => .long (String.ofList name) none
  | '-' :: letter :: _ => .short letter
  | _ => .plain

structure Draft where
  program : Option String
  rate : Option Single
  frames : Option Nat
  seed : Option UInt64
  heldKeys : List Nibble
  switches : List Switch
  pending : Option (Setting × Option String)

namespace Draft

def empty : Draft := ⟨none, none, none, none, [], [], none⟩

def fill {α β : Type} (place : Option α) (value : Option β) : Except Usage β :=
  match place, value with
  | some _, _ => .error .repeated
  | none, some a => .ok a
  | none, none => .error .valueInvalid

/-- The path of a program. A path is never empty, and an empty one counts as missing. -/
def storeProgram (d : Draft) (value : String) : Except Usage Draft :=
  if value.isEmpty ∧ d.program.isNone then .error .valueMissing
  else (fill d.program (some value)).map fun path => { d with program := some path }

def store (d : Draft) (setting : Setting) (value : String) : Except Usage Draft :=
  match setting with
  | .program => d.storeProgram value
  | .rate =>
    (fill d.rate (Single.read? value.toList)).map fun rate => { d with rate := some rate }
  | .frames =>
    (fill d.frames (Numeral.readCount 4294967295 value.toList).toOption).map fun n =>
      { d with frames := some n }
  | .seed =>
    (fill d.seed (Numeral.read 10 18446744073709551615 value.toList).toOption).map fun n =>
      { d with seed := some (UInt64.ofNat n) }
  | .heldKey =>
    match readKey value.toList with
    | .ok key => .ok { d with heldKeys := d.heldKeys ++ [key] }
    | .error _ => .error .valueInvalid

def settle (d : Draft) : Except Usage Draft :=
  match d.pending with
  | none => .ok d
  | some (_, none) => .error .valueMissing
  | some (setting, some value) => { d with pending := none }.store setting value

def turnOn (d : Draft) (switch : Switch) : Except Usage Draft :=
  if switch ∈ d.switches then .error .repeated
  else .ok { d with switches := d.switches ++ [switch] }

def acceptNamed (d : Draft) : Name → Option String → Except Usage Draft
  | .setting setting, some value => d.settle.bind (·.store setting value)
  | .setting setting, none =>
    d.settle.map fun settled => { settled with pending := some (setting, none) }
  | _, some _ => .error .valueUnwanted
  | .switch switch, none => d.settle.bind (·.turnOn switch)
  | .help, none => d.settle.bind fun _ => .error .helpWanted

def accept (d : Draft) (argument : String) : Except Usage Draft :=
  match Shape.ofText argument with
  | .long name value =>
    match Name.ofText? name with
    | none => .error .unknownArgument
    | some known => d.acceptNamed known value
  | .short letter =>
    if letter = 'h' then d.acceptNamed .help none else .error .unknownArgument
  | .plain =>
    match d.pending with
    | some (setting, none) => .ok { d with pending := some (setting, some argument) }
    | _ => .error .unknownArgument

def finish (d : Draft) : Except Usage Options :=
  match d.program with
  | none => .error .programMissing
  | some program =>
    .ok {
      program
      rate := d.rate.getD defaultRate
      frames := d.frames.getD 600
      seed := d.seed
      heldKeys := d.heldKeys
      dialect := (d.switches.map Switch.dialect).foldl Dialect.join Dialect.plain }

def read (d : Draft) : List String → Except Usage Options
  | [] => d.settle.bind finish
  | argument :: rest =>
    if argument = "--" then
      if rest.isEmpty then d.settle.bind finish else .error .unknownArgument
    else
      (d.accept argument).bind (·.read rest)

end Draft

def readArguments (arguments : List String) : Except Usage Options := Draft.empty.read arguments

end Chip8.CommandLine
