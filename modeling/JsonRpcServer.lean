import JsonRpcServer.Database.Attributes
import JsonRpcServer.Database.Exclusion
import JsonRpcServer.Database.Listing
import JsonRpcServer.Database.Page
import JsonRpcServer.Database.PagePaths
import JsonRpcServer.Database.PropertyMap
import JsonRpcServer.Database.Published
import JsonRpcServer.Database.RefreshSemaphore
import JsonRpcServer.Database.Signals
import JsonRpcServer.Database.Snapshot
import JsonRpcServer.Database.Store
import JsonRpcServer.Html.Received
import JsonRpcServer.Html.Responses
import JsonRpcServer.Http.BufferPool
import JsonRpcServer.Http.FileHandles
import JsonRpcServer.Http.Framing
import JsonRpcServer.Http.PoolProgress
import JsonRpcServer.Http.SendAgreement
import JsonRpcServer.Http.SendLoop
import JsonRpcServer.Program.Clients
import JsonRpcServer.Program.Settling
import JsonRpcServer.Program.Wire
import JsonRpcServer.Rpc.BodyWindow
import JsonRpcServer.Rpc.Conformance
import JsonRpcServer.Rpc.Connection
import JsonRpcServer.Rpc.Delivery
import JsonRpcServer.Rpc.HeaderSection
import JsonRpcServer.Rpc.HeaderWindow
import JsonRpcServer.Rpc.Respond
import JsonRpcServer.Rpc.ResponseJson
import JsonRpcServer.ServersCore.Cleanup
import JsonRpcServer.ServersCore.Locks
import JsonRpcServer.ServersCore.Ownership
import JsonRpcServer.ServersCore.Peers
import JsonRpcServer.ServersCore.Registry
import JsonRpcServer.ServersCore.Teardown
