import Cellos.CSpace.Tickets
import Cellos.CSpace.Attenuation
import Cellos.CSpace.Reservations
import Cellos.Memory.PinLimit
import Cellos.Memory.FrameSafety
import Cellos.Memory.TagQuery
import Cellos.Memory.UserWalk
import Cellos.Pipes.Wakeup
import Cellos.Pipes.Stream
import Cellos.AsyncIpc.Authenticity
import Cellos.AsyncIpc.Cutover
import Cellos.Session.Reach
import Cellos.Memory.Quota
import Cellos.Loader.VaAlloc
import Cellos.Task.Completion
import Cellos.Task.CpuShortcut
import Cellos.Task.FutexQueues
import Cellos.Task.ReadyQueue
import Cellos.Authority.Audit
import Cellos.Authority.Lease
import Cellos.Authority.Signature
import Cellos.Charge.Fencing
import Cellos.RootStream.Xmodem
import Cellos.NetBroker.Dedup
import Cellos.NetBroker.Framing
import Cellos.Hypervisor.Nested
