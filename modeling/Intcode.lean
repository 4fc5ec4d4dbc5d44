import Intcode.Main
import Intcode.Machine.Program
import Intcode.Proofs.Run
import Intcode.Proofs.Failure
import Intcode.Proofs.History
import Intcode.Proofs.Padding
import Intcode.Proofs.ProgramText
import Intcode.Proofs.Registers
import Intcode.Proofs.Counter
import Intcode.Proofs.Grammar
import Intcode.Proofs.CommandLine
import Intcode.Proofs.Confirmation
import Intcode.Proofs.Termination
import Intcode.Proofs.Footprint
import Intcode.Proofs.Replay
import Intcode.Proofs.Answers
import Intcode.Proofs.SavedMemory
import Intcode.Proofs.LogLevel
import Intcode.Proofs.IgnoredDigits
import Intcode.Proofs.EditedText
import Intcode.Proofs.PackedWord
import Intcode.Proofs.RegisterHistory
import Intcode.Proofs.SearchLog
import Intcode.Proofs.JoinedText
import Intcode.Proofs.OperandCells
import Intcode.Proofs.MemoryHistory
import Intcode.Proofs.Samples
