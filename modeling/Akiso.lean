import Akiso.Shared.Transition
import Akiso.Shared.Escape
import Akiso.Shared.EscapeAppend
import Akiso.Shared.Descriptors
import Akiso.Shared.LinkedList
import Akiso.Shared.ListChanges
import Akiso.Shared.Base64
import Akiso.Shared.Padding
import Akiso.Shared.MachineCode
import Akiso.Shared.Subroutines
import Akiso.Shared.FileTree
import Akiso.Shared.Executions
import Akiso.Shared.WideWords
import Akiso.Shared.I386Calls
import Akiso.Shell.Line
import Akiso.Shell.LineIndices
import Akiso.Shell.ReadLine
import Akiso.Shell.Quoting
import Akiso.Shell.QuotingLaw
import Akiso.Shell.Tokenizer
import Akiso.Shell.StringArea
import Akiso.Shell.Redirects
import Akiso.Shell.Numbers
import Akiso.Shell.Grammar
import Akiso.Shell.JobShape
import Akiso.Shell.Reporting
import Akiso.Shell.Blocks
import Akiso.Shell.Surrounding
import Akiso.Shell.JobControl
import Akiso.Shell.Ledger
import Akiso.Shell.Consistency
import Akiso.Shell.HandlerSteps
import Akiso.Shell.MainSteps
import Akiso.Shell.Accounting
import Akiso.Shell.Liveness
import Akiso.Shell.Handles
import Akiso.Shell.HandleLists
import Akiso.Shell.HandleRuns
import Akiso.Shell.HandleReturns
import Akiso.Shell.Pipes
import Akiso.Shell.StageEnds
import Akiso.Shell.Wiring
import Akiso.Shell.Closings
import Akiso.Shell.FirstStage
import Akiso.Shell.LaterStages
import Akiso.Shell.Leaks
import Akiso.Shell.ErrorPipe
import Akiso.Shell.Conservation
import Akiso.Shell.JobReports
import Akiso.Shell.ForegroundStop
import Akiso.Shell.Selection
import Akiso.Shell.FailedFg
import Akiso.Shell.Signals
import Akiso.Shell.Cleanup
import Akiso.Shell.Terminal
import Akiso.Minitalk.ReadLine
import Akiso.Minitalk.Framing
import Akiso.Minitalk.Server
import Akiso.Minitalk.Routed
import Akiso.Minitalk.Routing
import Akiso.Minitalk.Relay
import Akiso.Minitalk.SelectBound
import Akiso.Minitalk.Retained
import Akiso.Minitalk.Writes
import Akiso.Minitalk.UserLines
import Akiso.Minitalk.Prompting
import Akiso.Minitalk.PromptBuffer
import Akiso.Minitalk.TargetSelection
import Akiso.Minitalk.ReceiveLoop
import Akiso.Minitalk.Clients
import Akiso.Minitalk.Reads
import Akiso.Minitalk.Streaming
import Akiso.Minitalk.Conversation
import Akiso.Minitalk.Unblocked
import Akiso.Fuse.Crypt
import Akiso.Fuse.FileIO
import Akiso.Fuse.Records
import Akiso.Fuse.Streams
import Akiso.Fuse.Path
import Akiso.Fuse.Directory
import Akiso.Fuse.Listing
import Akiso.Fuse.PathImage
import Akiso.Fuse.PathBounds
import Akiso.Fuse.Mounted
import Akiso.Asm.Sweet16
import Akiso.Asm.Indirect
import Akiso.Asm.Routines
import Akiso.Asm.OriginalRuns
import Akiso.Asm.FixRuns
import Akiso.Asm.Agreement
import Akiso.Asm.BranchRuns
import Akiso.Asm.Instructions
import Akiso.Asm.Interpreter
import Akiso.Asm.Dispatch
import Akiso.Asm.Rounds
import Akiso.Asm.Calls
import Akiso.Asm.Programs
import Akiso.Asm.Shifting
import Akiso.Asm.Primes
import Akiso.Asm.PrimeRuns
import Akiso.Asm.PrimeMain
import Akiso.Asm.Gcd
import Akiso.F2b
