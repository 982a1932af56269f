import Chip8.CommandLine.Arguments
import Chip8.Session

/-! The program: runs a session as the command line says, with its log and complaints on the
standard error stream and the screen on the standard output. `CHIP8_LOG` names the level of the
log. -/

open Chip8

namespace Chip8.Program

def usage : String :=
  "Usage: chip8 --rom <PATH> [--cpu-hz <HZ>] [--frames <COUNT>] [--seed <SEED>]\n" ++
  "             [--hold-key <KEY>]... [--cosmac-vip] [--index-overflow-sets-vf]\n" ++
  "             [--wrap-sprites] [--shift-uses-vy] [--logic-resets-vf]\n" ++
  "             [--load-store-increments-index] [--jump-with-offset-uses-vx]\n"

def complaint : CommandLine.Usage → String
  | .helpWanted => ""
  | .programMissing => "error: the option --rom is required\n\n"
  | .unknownArgument => "error: an argument is not known\n\n"
  | .valueMissing => "error: an option lacks its value\n\n"
  | .valueInvalid => "error: the value of an option is not valid\n\n"
  | .repeated => "error: an option stands twice\n\n"
  | .valueUnwanted => "error: an option takes no value\n\n"

def verbosity : Option String → Verbosity
  | none => some .warn
  | some name =>
    [Level.error, .warn, .info, .debug, .trace].find? fun l => l.name = name.toUpper

def readFile (path : String) : IO (Except FileProblem (Array UInt8)) := do
  try
    return .ok (← IO.FS.readBinFile path).data
  catch
    | .noFileOrDirectory .. => return .error .missing
    | .inappropriateType _ code _ =>
      return .error (if code = 21 then .isFolder else .notFolder)
    | problem => return .error (.other problem.toString)

def word (bytes : ByteArray) (k : Nat) : UInt32 :=
  UInt32.ofNat ((List.range 4).foldr (fun i n => n * 256 + (bytes.data.getD (4 * k + i) 0).toNat) 0)

def randomKey : IO Random.Key := do
  let w := word (← IO.getRandomBytes 32)
  return ⟨⟨w 0, w 1, w 2, w 3⟩, ⟨w 4, w 5, w 6, w 7⟩⟩

/-- No update that ends takes more rounds than this. -/
def rounds : Nat := 4611686018427387904

def runSession (o : CommandLine.Options) : IO UInt32 := do
  let level := verbosity (← IO.getEnv "CHIP8_LOG")
  match Session.run rounds level (← randomKey) o (← readFile o.program) with
  | none => return 1
  | some ending =>
    for entry in ending.log do
      IO.eprintln entry.line
    IO.eprint ending.complaint
    IO.print ending.output
    return UInt32.ofNat ending.status

end Chip8.Program

def main (arguments : List String) : IO UInt32 := do
  match CommandLine.readArguments arguments with
  | .ok o => Program.runSession o
  | .error problem =>
    if problem = .helpWanted then IO.print Program.usage
    else IO.eprint (Program.complaint problem ++ Program.usage)
    return UInt32.ofNat problem.status
