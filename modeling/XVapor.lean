import XVapor.BlockdevDurable
import XVapor.Clock
import XVapor.Cloexec
import XVapor.CloneFailure
import XVapor.Disclosure
import XVapor.ExecveOutcome
import XVapor.ExitReap
import XVapor.Family
import XVapor.FileCoherence
import XVapor.FileCount
import XVapor.FileCursor
import XVapor.FileRefs
import XVapor.FutexCalls
import XVapor.FutexMap
import XVapor.Getdents
import XVapor.GroupExit
import XVapor.Kalloc
import XVapor.LockOrder
import XVapor.LostWakeup
import XVapor.Lru
import XVapor.Mappings
import XVapor.ProcGroup
import XVapor.ProcQueue
import XVapor.QueueCount
import XVapor.ReadContract
import XVapor.RoundRobin
import XVapor.SchedNesting
import XVapor.Semaphore
import XVapor.SignalHandlers
import XVapor.Sleeplock
import XVapor.SpaceOwners
import XVapor.SpaceVmas
import XVapor.StackAlign
import XVapor.StateQueue
import XVapor.Trapframes
import XVapor.Vectored
import XVapor.Vfs
import XVapor.WaitQueue
import XVapor.Waitpid
