import Veloco.Fibers.Exchange
import Veloco.Fibers.Stack
import Veloco.Http.Bounds
import Veloco.Http.ContentLength
import Veloco.Http.Drain
import Veloco.Http.Grammar
import Veloco.Http.Pipelined
import Veloco.Http.Serve
import Veloco.Memory.ArenaPieces
import Veloco.Memory.Owners
import Veloco.Memory.Statistics
import Veloco.Net.Accepted
import Veloco.Net.EpollDeadline
import Veloco.Net.Generations
import Veloco.Net.Refusal
import Veloco.RunQueue.Once
import Veloco.Sched.Affinity
import Veloco.Sched.ChannelFifo
import Veloco.Sched.Deadlock
import Veloco.Sched.Expiry
import Veloco.Sched.IdlePoll
import Veloco.Sched.Join
import Veloco.Sched.Mutex
import Veloco.Sched.PinnedOrder
import Veloco.Sched.Placed
import Veloco.Sched.Semaphore
import Veloco.Sched.Timeout
import Veloco.Sched.WaitGroup
import Veloco.Sched.Wakeup
import Veloco.Startup.Unwind
