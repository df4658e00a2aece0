import Jco.Bindgen.AsmExports
import Jco.Bindgen.AsmJs
import Jco.Bindgen.Assembly
import Jco.Bindgen.CoreFiles
import Jco.Bindgen.ExportNames
import Jco.Bindgen.FlatCompose
import Jco.Bindgen.ImportMap
import Jco.Bindgen.Pointer
import Jco.Bindgen.Transcoder
import Jco.Bindgen.ValidLift
import Jco.Codec.Meaning
import Jco.Codec.StringTrip
import Jco.Component.Backpressure
import Jco.Component.CallingConvention
import Jco.Component.Completion
import Jco.Component.Exclusion
import Jco.Component.SubtaskCancel
import Jco.Component.SyncLower
import Jco.Component.WaitDelivery
import Jco.Component.Wedge
import Jco.Core.AugmentCorrect
import Jco.ErrorContext.RefCount
import Jco.Filesystem.BrowserContents
import Jco.Filesystem.BrowserTree
import Jco.Filesystem.Confinement
import Jco.Filesystem.SandboxWalk
import Jco.Filesystem.Timestamps
import Jco.Filesystem.WriteWorker
import Jco.Future.Drop
import Jco.Future.Order
import Jco.Http.BrowserBody
import Jco.Http.RequestBody
import Jco.Node.Path
import Jco.Optimize.Exact
import Jco.Preview2.BrowserPoll
import Jco.Preview2.ContentLength
import Jco.Preview2.PollDrop
import Jco.Preview2.Readiness
import Jco.Preview2.SocketOptions
import Jco.Preview2.UdpSend
import Jco.Preview3.Disposal
import Jco.Preview3.ResourceWorker
import Jco.Resource.Capture
import Jco.Resource.Destructor
import Jco.Resource.Rep
import Jco.Shim.CabiLower
import Jco.Shim.Isolation
import Jco.Sockets.Classify
import Jco.Sockets.IpText
import Jco.Sockets.TcpReceive
import Jco.Sockets.Udp
import Jco.Sockets.UdpReceive
import Jco.Stream.Delivery
import Jco.Stream.Handles
import Jco.Stream.LifeCycle
import Jco.Stream.SerialReads
