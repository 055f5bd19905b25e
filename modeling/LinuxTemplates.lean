import LinuxTemplates.TransitionSystems
import LinuxTemplates.TaskLedgers
import LinuxTemplates.FifoChannels
import LinuxTemplates.SegmentedStreams
import LinuxTemplates.MutexOwnership
import LinuxTemplates.DelimitedStreams
import LinuxTemplates.CStrings
import LinuxTemplates.MutexProgram
import LinuxTemplates.MutexInvariant
import LinuxTemplates.MutexIncrements
import LinuxTemplates.ConditionProgram
import LinuxTemplates.ConditionWorkers
import LinuxTemplates.ConditionInvariant
import LinuxTemplates.ConditionAccounting
import LinuxTemplates.ConditionProgress
import LinuxTemplates.SigchldProgram
import LinuxTemplates.SigchldInvariant
import LinuxTemplates.SigchldAccounting
import LinuxTemplates.SigchldErrno
import LinuxTemplates.PipeTransfer
import LinuxTemplates.EpollProgram
import LinuxTemplates.EpollInvariant
import LinuxTemplates.EpollConservation
import LinuxTemplates.ReadlineProgram
import LinuxTemplates.ReadlineFraming
import LinuxTemplates.InternetSocketServer
import LinuxTemplates.ClientServerProgram
import LinuxTemplates.ClientServerInvariant
import LinuxTemplates.ClientServerExchange
import LinuxTemplates.ReadlineReference
import LinuxTemplates.ReadlineEndOfFile
import LinuxTemplates.ReadlineBounds
import LinuxTemplates.TimerfdElapsed
import LinuxTemplates.TimerfdExpirations
import LinuxTemplates.CMemory
import LinuxTemplates.DecimalStrings
import LinuxTemplates.ItimerspecProgram
import LinuxTemplates.AddrinfoServerProgram
import LinuxTemplates.AddrinfoServerLoop
import LinuxTemplates.ListLoops
import LinuxTemplates.AddressSelection
import LinuxTemplates.SequenceNumbers
import LinuxTemplates.EpollProgress
import LinuxTemplates.PageMappings
import LinuxTemplates.PosixShmProgram
import LinuxTemplates.PosixShmExits
import LinuxTemplates.PosixShmRoundTrip
import LinuxTemplates.PosixShmFailures
import LinuxTemplates.PosixShmDescriptors
import LinuxTemplates.PipeSync
import LinuxTemplates.DescriptorTables
import LinuxTemplates.PipeFilterProgram
import LinuxTemplates.PipeFilterRedirection
import LinuxTemplates.PipeFilterInvariant
import LinuxTemplates.PipeFilterRuns
import LinuxTemplates.WaitStatuses
import LinuxTemplates.PrintWaitStatus
import LinuxTemplates.StdioStreams
import LinuxTemplates.ChildStatusProgram
import LinuxTemplates.ChildStatusReports
import LinuxTemplates.ChildStatusOutput
import LinuxTemplates.WaitProgram
import LinuxTemplates.WaitAccounting
import LinuxTemplates.ProcessProgram
import LinuxTemplates.ProcessHandshake
import LinuxTemplates.ProcessOutput
import LinuxTemplates.ManyClientsProgram
import LinuxTemplates.ManyClientsService
import LinuxTemplates.ManyClientsProgress
import LinuxTemplates.IntervalTimers
import LinuxTemplates.TimerfdSystem
import LinuxTemplates.TimerfdAccounting
import LinuxTemplates.TimerfdProgress
import LinuxTemplates.PopenProgram
import LinuxTemplates.PopenRuns
import LinuxTemplates.PthreadCancel
import LinuxTemplates.RunLengths
import LinuxTemplates.MutexTermination
import LinuxTemplates.ConditionTermination
import LinuxTemplates.SigchldTermination
import LinuxTemplates.PipeTransferTermination
import LinuxTemplates.PipeSyncTermination
import LinuxTemplates.PosixShmPrograms
