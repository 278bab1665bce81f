import Assuan.Protocol.RoundTrip
import Assuan.Protocol.Agreement
import Assuan.Protocol.Chunking
import Assuan.Protocol.Counting
import Assuan.Protocol.NormalForm
import Assuan.Protocol.LineStates
import Assuan.Sexpr.Writer
import Assuan.Sexpr.Reservation
import Assuan.Transport.Pipe
import Assuan.Transport.Wiping
import Assuan.Server.Discipline
import Assuan.Server.Serve
import Assuan.Client.Classify
import Assuan.Client.Dialogue
import Assuan.Fidelity.Response
import Assuan.Fidelity.Inquiry
import Assuan.Fidelity.Conversation
import Assuan.Fidelity.Greeting
import Assuan.Fidelity.Help
import Assuan.Sexpr.Delimiting
import Assuan.Sexpr.Owned
import Assuan.Macros.Sexpr
import Assuan.Macros.Attribute
import Assuan.Server.Options
import Assuan.Transport.Budget
import Assuan.Transport.SocketFile
import Assuan.Transport.Locator
import Assuan.Server.Fragmentation
import Assuan.Server.Lifecycle
import Assuan.Protocol.Progress
import Assuan.Transport.Footprint
