import Nanonet.Xdr.HostOrder
import Nanonet.Util.OwnedOnce
import Nanonet.Net.Putback
import Nanonet.Net.MovedStreams
import Nanonet.Registry.Malformed
import Nanonet.Registry.Resumed
import Nanonet.Registry.Matrix
import Nanonet.Http.GetRequest
import Nanonet.Net.SendOnce
import Nanonet.Queue.Wakeup
import Nanonet.Dispatch.Moves
import Nanonet.Server.RunServer
import Nanonet.Registry.Integers
import Nanonet.Server.HandleConnection
import Nanonet.Log.Judged
import Nanonet.Net.Connect
import Nanonet.Net.Accept
import Nanonet.Net.Candidates
import Nanonet.Util.CappedVector
import Nanonet.Math.RateEstimator
import Nanonet.Http.Exchange
import Nanonet.Net.Transfer
import Nanonet.Net.PingPong
import Nanonet.Util.FormatBuffer
import Nanonet.Util.Timeouts
import Nanonet.Net.PollTimeout
import Nanonet.Util.Iterators
import Nanonet.Registry.Lookahead
import Nanonet.Dispatch.OwnPool
import Nanonet.Dispatch.MapTest
import Nanonet.Lib.Threads
import Nanonet.Queue.QueueTestOrder
