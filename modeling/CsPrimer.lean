import CsPrimer.Library.TransitionSystem
import CsPrimer.Library.BinaryHeap
import CsPrimer.Library.Tournament
import CsPrimer.Library.ListSegment
import CsPrimer.Timers.PendingSet
import CsPrimer.Timers.NextExpire
import CsPrimer.Timers.Restarting
import CsPrimer.Timers.TimespanConversion
import CsPrimer.Library.KWayMerge
import CsPrimer.Merge.MergeKLists
import CsPrimer.Merge.VirtualLeaf
import CsPrimer.Merge.UpperEnd
import CsPrimer.Library.ThreadPool
import CsPrimer.Library.RingBuffer
import CsPrimer.PxSem.ProdCons4Correct
import CsPrimer.PxSem.ProdCons3Correct
import CsPrimer.PxSem.MultiBufferCorrect
import CsPrimer.PxMutex.ProdCons3Correct
import CsPrimer.PxShm.LogCorrect
import CsPrimer.PxShm.LogAccounting
import CsPrimer.PxMsg.NotifyCorrect
import CsPrimer.Calculator.ProtocolCorrect
import CsPrimer.Calculator.Surviving
import CsPrimer.Pipe.FileReplyCorrect
import CsPrimer.Pipe.TextReply
import CsPrimer.Fifo.RequestsCorrect
import CsPrimer.Fifo.Serving
import CsPrimer.ChatServer.ClientTableCorrect
import CsPrimer.ChatServer.ThreadsCorrect
import CsPrimer.ChatServer.TableBounds
import CsPrimer.Lock.LockFcntlCorrect
import CsPrimer.Shm.IncrCorrect
import CsPrimer.EchoServer.EdgeTriggeredInput
import CsPrimer.EchoServer.EdgeTriggeredOutput
import CsPrimer.EchoServer.ChildReaping
import CsPrimer.SvMsg.SingleQueueCorrect
import CsPrimer.SvMsg.PrivateQueuesCorrect
import CsPrimer.Interpreter.Evaluating
import CsPrimer.Merge.Representation
import CsPrimer.Observer.FileSplitter
import CsPrimer.Composite.Composite
import CsPrimer.SvSem.SemOps
import CsPrimer.Shm.Incr2
import CsPrimer.EchoServer.StdServer
import CsPrimer.FileTransfer.HalfClose
import CsPrimer.EchoClient.ClientCorrect
import CsPrimer.Singleton.GetInstanceCorrect
import CsPrimer.Singleton.SecondInstance
import CsPrimer.Singleton.ReleaseInstances
import CsPrimer.EchoServer.LevelTriggeredEcho
import CsPrimer.PxMutex.ProdCons2Correct
import CsPrimer.PxMsg.DrainingCorrect
import CsPrimer.Lock.TicketLockCorrect
import CsPrimer.RbTree.Using
