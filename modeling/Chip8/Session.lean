import Chip8.CommandLine.Options
import Chip8.Folder
import Chip8.Runner
import Chip8.Single.Shortest

/-! Sessions. A session loads a program, lets it run for a number of frames with some keys held
down, and shows the screen at the end. Keys are let go and pressed anew before each frame in which
the machine waits for one. -/

namespace Chip8.Session

open CommandLine

inductive Failure
  | badRate (rate : Single)
  | unreadable (path : String) (problem : FileProblem)
  | rejected (fault : Fault)
  | crashed (frame : Nat) (fault : Fault)

namespace Failure

def headline : Failure → String
  | badRate rate => "--cpu-hz must be a finite positive rate, got " ++ rate.text
  | unreadable path _ => "Failed to read ROM file " ++ path
  | rejected _ => "Failed to load ROM into CHIP-8 memory"
  | crashed frame _ => "CHIP-8 execution error in frame " ++ frame.repr

def cause? : Failure → Option String
  | badRate _ => none
  | unreadable _ problem => some problem.message
  | rejected fault => some fault.message
  | crashed _ fault => some fault.message

def report (f : Failure) : String :=
  "Error: " ++ f.headline ++ "\n" ++
    match f.cause? with
    | none => ""
    | some cause => "\nCaused by:\n    " ++ cause ++ "\n"

end Failure

def framePeriod : Single := tickPeriod

def holdAll (m : Machine) (keys : List Nibble) : Machine :=
  keys.foldl (fun m key => m.setKey key true) m

def pressAnew (m : Machine) (keys : List Nibble) : Machine :=
  keys.foldl (fun m key => (m.setKey key false).setKey key true) m

def ready (keys : List Nibble) (r : Runner) : Runner :=
  if r.machine.awaiting?.isSome then { r with machine := pressAnew r.machine keys } else r

inductive Notice
  | running (program : String) (dialect : Dialect)
  | holding (key : Nibble)
  | sound (on : Bool) (frame : Nat)
  | exited (frame : Nat)
deriving DecidableEq

def Notice.text : Notice → String
  | running program dialect => "Running " ++ program ++ " with " ++ dialect.listing
  | holding key => "Holding key " ++ Hex.text key.val
  | sound on frame => "Sound " ++ (if on then "on" else "off") ++ " at frame " ++ frame.repr
  | exited frame => "Program exited at frame " ++ frame.repr

inductive Entry
  | event (event : Event)
  | notice (notice : Notice)
deriving DecidableEq

namespace Entry

def level : Entry → Level
  | event e => e.level
  | notice _ => .info

def text : Entry → String
  | event e => e.text
  | notice n => n.text

def line (e : Entry) : String := logLine e.level e.text

end Entry

def kept (v : Verbosity) (entries : List Entry) : List Entry :=
  entries.filter fun e => v.keeps e.level

structure Ending where
  result : Except Failure Machine
  log : Array Entry

namespace Ending

def status (e : Ending) : Nat :=
  match e.result with
  | .ok _ => 0
  | .error _ => 1

def output (e : Ending) : String :=
  match e.result with
  | .ok m => m.display.render
  | .error _ => ""

def complaint (e : Ending) : String :=
  match e.result with
  | .ok _ => ""
  | .error f => f.report

end Ending

def frameNotices (frame : Nat) (wasSounding sounding : Bool) (status : Status) : List Notice :=
  (if sounding = wasSounding then [] else [.sound sounding frame]) ++
    (if status = .halted then [.exited frame] else [])

/-- What the machine adds to a log during an update. Only a log that keeps something needs it
worked out. -/
def updateEntries (v : Verbosity) (r : Runner) (u : Runner.Update) : List Entry :=
  if v.isNone then [] else kept v ((r.updateJournal u).map .event)

def play (rounds : Nat) (v : Verbosity) (keys : List Nibble) : (left frame : Nat) → Runner →
    (sounding : Bool) → (log : Array Entry) → Option Ending
  | 0, _, r, _, log => some ⟨.ok r.machine, log⟩
  | left + 1, frame, r, wasSounding, log =>
    let before := ready keys r
    match before.update rounds framePeriod with
    | none => none
    | some u =>
      let log := log ++ updateEntries v before u
      match u.result with
      | .error fault => some ⟨.error (.crashed frame fault), log⟩
      | .ok status =>
        let sounding := u.runner.machine.beeping
        let notices := frameNotices frame wasSounding sounding status
        let log := log ++ kept v (notices.map .notice)
        match status with
        | .halted => some ⟨.ok u.runner.machine, log⟩
        | .running => play rounds v keys left (frame + 1) u.runner sounding log

/-- Run a session. The random bytes come from the seed of the options or from a key of the
caller's. There is no ending when an update needs more rounds than are allowed. -/
def run (rounds : Nat) (v : Verbosity) (entropy : Random.Key) (o : Options)
    (file : Except FileProblem (Array UInt8)) : Option Ending :=
  if ¬ Runner.Admissible o.rate then some ⟨.error (.badRate o.rate), #[]⟩
  else
    match file with
    | .error problem => some ⟨.error (.unreadable o.program problem), #[]⟩
    | .ok program =>
      let source := match o.seed with
        | some seed => Random.Source.ofSeed seed
        | none => Random.Source.ofKey entropy
      match (Machine.start o.dialect source).reset program with
      | .error fault => some ⟨.error (.rejected fault), #[]⟩
      | .ok machine =>
        let notices := .running o.program o.dialect :: o.heldKeys.map .holding
        let log := kept v (.event (.loaded program.size) :: notices.map .notice)
        play rounds v o.heldKeys o.frames 0
          (Runner.start (holdAll machine o.heldKeys) o.rate) false log.toArray

end Chip8.Session
