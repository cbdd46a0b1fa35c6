import RdmaBook.Bench.Counters
import RdmaBook.Bench.Coverage
import RdmaBook.Bench.Errors
import RdmaBook.Bench.Termination
import RdmaBook.Cm.ClientContexts
import RdmaBook.Cm.Events
import RdmaBook.Cm.Progress
import RdmaBook.Common.Completion
import RdmaBook.Common.Fragments
import RdmaBook.Common.Handshake
import RdmaBook.OneSided.Completion
import RdmaBook.OneSided.Region
import RdmaBook.PingPong.Mismatch
import RdmaBook.Read.Bounds
import RdmaBook.Srq.Failures
import RdmaBook.Srq.Shutdown
import RdmaBook.Ud.Arrival
import RdmaBook.Ud.Circulation
import RdmaBook.Program.Hello
import RdmaBook.Program.Scripts
