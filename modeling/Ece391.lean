import Ece391.Lib.Transition
import Ece391.Lib.PointerChain
import Ece391.Lib.DisjointStacks
import Ece391.Lib.TextScreen
import Ece391.ContextSwitch
import Ece391.FileReads
import Ece391.VideoRouting
import Ece391.ThreeScreens
import Ece391.InputLines
import Ece391.EnterDelivery
import Ece391.InterruptMasks
import Ece391.RtcTimer
import Ece391.RtcRates
import Ece391.Arguments
import Ece391.MapUpdates
import Ece391.LineReads
import Ece391.ExecuteHalt
import Ece391.Lookup
import Ece391.ReadBounds
import Ece391.TerminalOutput
import Ece391.ProgramLoad
import Ece391.ArgumentReads
import Ece391.CommandLine
import Ece391.ShellRestart
import Ece391.KeyDecoding
import Ece391.CallerCalls
import Ece391.NameReads
import Ece391.Formats
import Ece391.TypedText
import Ece391.LoadTargets
import Ece391.Isolation
import Ece391.UserCalls
import Ece391.UserPrograms
import Ece391.ProgramScreens
import Ece391.Cat
import Ece391.Ls
import Ece391.ParentPrograms
import Ece391.Shell
import Ece391.MemoryBlocks
import Ece391.SystemCallGate
import Ece391.Turns
import Ece391.UserScripts
import Ece391.Prompts
import Ece391.Counter
import Ece391.Syserr
import Ece391.ProgramEntry
