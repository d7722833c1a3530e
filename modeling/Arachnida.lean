import Arachnida.Library.Loop
import Arachnida.Library.Bytes
import Arachnida.Acari.ParsingHelpers
import Arachnida.Acari.FirstLine
import Arachnida.Acari.MessageLoop
import Arachnida.Acari.Base64
import Arachnida.Acari.Framing
import Arachnida.BodyFraming
import Arachnida.Damon.ParseURL
import Arachnida.Damon.Request
import Arachnida.Damon.Routing
import Arachnida.RequestPipeline
import Arachnida.ResponsePipeline
import Arachnida.Scorpion.Configured
import Arachnida.Spin.Segmentation
import Arachnida.Acari.Truncation
import Arachnida.Pairing
import Arachnida.Spin.Private.Barrier
import Arachnida.Spin.Private.Notification
import Arachnida.Spin.Private.SelfDetach
import Arachnida.Spin.ClearHandler
import Arachnida.Spin.ConnectionRead
import Arachnida.Spin.HeadersClosed
import Arachnida.Spin.Registration
import Arachnida.Acari.HeaderBlock
import Arachnida.Damon.CompleteResponse
import Arachnida.Damon.Progress
import Arachnida.Acari.NameCase
import Arachnida.NameCase
import Arachnida.Acari.StartLine
import Arachnida.Acari.FoldedHeader
import Arachnida.Damon.ConnectionTarget
import Arachnida.RequestURL
import Arachnida.Spin.Termination
import Arachnida.SavedState
import Arachnida.Credentials
import Arachnida.Spin.Address
import Arachnida.Spin.Private.Pipe
import Arachnida.Spin.Private.DescriptorSet
import Arachnida.Spin.Private.Dispatch
import Arachnida.Damon.RequestWriting
import Arachnida.Spin.UDPSocket
import Arachnida.Spin.HeaderValue
import Arachnida.Spin.HTTPExceptions
import Arachnida.Spin.ExceptionMemory
import Arachnida.Spin.ConnectionErrors
import Arachnida.Spin.Private.ChunkedBody
import Arachnida.Spin.Private.EndlessHeaders
import Arachnida.Acari.Attributes
import Arachnida.Acari.Base64Counters
import Arachnida.Library.Monitor
import Arachnida.Spin.HTTPRequestHandler
import Arachnida.Spin.StatusCode
import Arachnida.Mesothelae.Server
import Arachnida.Mesothelae.Answers
import Arachnida.Mesothelae.RoundTrip
import Arachnida.Spin.Private.Shutdown
import Arachnida.Spin.Listener
import Arachnida.Mesothelae.Lifetimes
import Arachnida.Scorpion.BIO
import Arachnida.Spin.Descriptors
import Arachnida.Damon.SessionContext
