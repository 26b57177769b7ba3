import Windborne.Library.Runs
import Windborne.Library.Results
import Windborne.Library.GameTree
import Windborne.Library.Weigh
import Windborne.Library.Rows
import Windborne.Library.PairedRows
import Windborne.Library.SqlText
import Windborne.Library.Linearizability
import Windborne.Library.Feeds
import Windborne.Library.Arena
import Windborne.Library.CallStack
import Windborne.Library.QueueHistory
import Windborne.Library.Regex
import Windborne.Library.Tokens
import Windborne.Library.Mips
import Windborne.Library.MipsFrames
import Windborne.Library.Coroutines
import Windborne.Mancala.Engine
import Windborne.Mancala.Sowing
import Windborne.Mancala.Move
import Windborne.Mancala.Conservation
import Windborne.Mancala.Play
import Windborne.Mancala.Termination
import Windborne.Mancala.AlphaBeta
import Windborne.Mancala.Player
import Windborne.Mancala.ComputerMove
import Windborne.Mancala.BestMove
import Windborne.Mancala.Mirror
import Windborne.Mancala.Tournament
import Windborne.Mancala.Laps
import Windborne.Mancala.EndPit
import Windborne.Mancala.Evaluation
import Windborne.Mancala.CaptureBonus
import Windborne.Mancala.HumanMove
import Windborne.Spring.Store
import Windborne.Spring.Service
import Windborne.Spring.Frame
import Windborne.Javalin.Registration
import Windborne.Javalin.Messages
import Windborne.Javalin.MessageLinearizability
import Windborne.Javalin.MessageStore
import Windborne.Javalin.Accounts
import Windborne.Javalin.Connections
import Windborne.Javalin.Controller
import Windborne.Rest.Statuses
import Windborne.Rest.UserStories
import Windborne.Rest.Answers
import Windborne.Rest.Agreement
import Windborne.TechEntrance.Sessions
import Windborne.TechEntrance.SessionSafety
import Windborne.TechEntrance.AccessControl
import Windborne.TechEntrance.Signup
import Windborne.TechEntrance.JobFetch
import Windborne.TechEntrance.SessionCheck
import Windborne.TechEntrance.JobFilter
import Windborne.OS161.Stoplight
import Windborne.OS161.StoplightLocks
import Windborne.OS161.StoplightProgress
import Windborne.OS161.StoplightCounters
import Windborne.OS161.DumbVm
import Windborne.OS161.DumbVmIsolation
import Windborne.OS161.DumbVmFault
import Windborne.OS161.Syscall
import Windborne.OS161.ThreadSystem
import Windborne.OS161.ThreadPartition
import Windborne.OS161.Suspension
import Windborne.OS161.Synch
import Windborne.OS161.SynchSafety
import Windborne.OS161.Semaphores
import Windborne.OS161.Kernel
import Windborne.OS161.KernelFlow
import Windborne.OS161.KernelThreads
import Windborne.OS161.KernelStacks
import Windborne.OS161.KernelFailures
import Windborne.OS161.KernelMemory
import Windborne.OS161.InterruptLevels
import Windborne.OS161.Preallocation
import Windborne.OS161.ProcessPointers
import Windborne.OS161.TlbFreshness
import Windborne.OS161.StealMem
import Windborne.OS161.DefineRegion
import Windborne.OS161.ForkEntry
import Windborne.OS161.ThreadFork
import Windborne.OS161.Copy
import Windborne.OS161.DispatchOrder
import Windborne.OS161.FaultPaths
import Windborne.OS161.AddrSpaceCopy
import Windborne.OS161.SleepTable
import Windborne.OS161.Clocksleep
import Windborne.OS161.Menu
import Windborne.OS161.ThreadWakeup
import Windborne.OS161.ExceptionEntry
import Windborne.OS161.ExceptionReturn
import Windborne.OS161.ContextSwitch
import Windborne.OS161.Tlb
import Windborne.OS161.Boot
import Windborne.OS161.Trap
import Windborne.OS161.NestedExceptions
import Windborne.OS161.ListFiles
import Windborne.OS161.ThreadModels
import Windborne.OS161.ForkModels
import Windborne.OS161.SyncObjects
import Windborne.OS161.KernelLocks
import Windborne.OS161.KernelLocks
