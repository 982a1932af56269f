import Chip8.Address
import Chip8.Bank
import Chip8.CommandLine.Arguments
import Chip8.CommandLine.Key
import Chip8.CommandLine.Options
import Chip8.Dialect
import Chip8.Display
import Chip8.Display.Sprite
import Chip8.Fault
import Chip8.Folder
import Chip8.Font
import Chip8.Hex
import Chip8.Instruction.Basic
import Chip8.Instruction.Listing
import Chip8.Instruction.Word
import Chip8.Journal
import Chip8.Machine.Action
import Chip8.Machine.Arithmetic
import Chip8.Machine.Basic
import Chip8.Machine.Execute
import Chip8.Machine.Step
import Chip8.Main
import Chip8.Memory
import Chip8.Nibble
import Chip8.Numeral
import Chip8.Random.KeyStream
import Chip8.Random.Source
import Chip8.Runner
import Chip8.Session
import Chip8.Single.Basic
import Chip8.Single.Bits
import Chip8.Single.Decimal
import Chip8.Single.Rounding
import Chip8.Single.Shortest
import Chip8.Proofs.Moves
import Chip8.Proofs.Histories
import Chip8.Proofs.KeyWait
import Chip8.Proofs.Consistency
import Chip8.Proofs.Refusal
import Chip8.Proofs.Pacing
import Chip8.Proofs.CallStack
import Chip8.Proofs.Congruence
import Chip8.Proofs.IndexOverflow
import Chip8.Proofs.Absorption
import Chip8.Proofs.Payment
import Chip8.Proofs.Compositing
import Chip8.Proofs.Restart
import Chip8.Proofs.Footprint
import Chip8.Proofs.Provenance
import Chip8.Proofs.Unread
import Chip8.Proofs.Entitlement
import Chip8.Proofs.Alteration
import Chip8.Proofs.Dialects
import Chip8.Proofs.Interleaving
import Chip8.Proofs.RandomBytes
import Chip8.Proofs.Countdown
import Chip8.Proofs.Assembly
import Chip8.Proofs.Frames
import Chip8.Proofs.HeldKeys
import Chip8.Proofs.Checks
import Chip8.Proofs.CheckedScreen
import Chip8.Proofs.CheckedInstructions
import Chip8.Proofs.CheckedRuns
import Chip8.Proofs.ExactArithmetic
import Chip8.Proofs.SpriteMask
import Chip8.Proofs.FrameTimers
import Chip8.Proofs.Rendering
import Chip8.Proofs.PlayedFrames
import Chip8.Proofs.SoundNotices
import Chip8.Proofs.Outcomes
import Chip8.Proofs.BlockTransfers
import Chip8.Proofs.KeyNumerals
