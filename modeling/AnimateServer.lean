import AnimateServer.Lib.Transition
import AnimateServer.Lib.Links
import AnimateServer.Lib.CLib
import AnimateServer.Lib.Ledger
import AnimateServer.Lib.Monitor
import AnimateServer.Lib.Sweep
import AnimateServer.Lib.Shell
import AnimateServer.Model.Types
import AnimateServer.Model.Fifo
import AnimateServer.Model.RequestReader
import AnimateServer.Model.Client
import AnimateServer.Model.ClientRegistry
import AnimateServer.Model.ObjectTable
import AnimateServer.Model.Auth
import AnimateServer.Model.Task
import AnimateServer.Model.PollSlots
import AnimateServer.Model.Worker
import AnimateServer.Verify.Framing
import AnimateServer.Verify.Whitespace
import AnimateServer.Verify.Transfer
import AnimateServer.Model.TaskQueue
import AnimateServer.Verify.QueueFifo
import AnimateServer.Verify.Registry
import AnimateServer.Model.RegistryCalls
import AnimateServer.Verify.RegistryThreads
import AnimateServer.Verify.RegistryList
import AnimateServer.Verify.ObjectIds
import AnimateServer.Verify.FailedRpc
import AnimateServer.Model.Server
import AnimateServer.Model.Commands
import AnimateServer.Model.MainLoop
import AnimateServer.Verify.ServerSteps
import AnimateServer.Verify.Dispatch
import AnimateServer.Verify.ServerInv
import AnimateServer.Verify.Descriptors
import AnimateServer.Verify.Stamps
import AnimateServer.Verify.References
import AnimateServer.Verify.Accounting
import AnimateServer.Verify.TableOwners
import AnimateServer.Verify.CommandCases
import AnimateServer.Verify.Growth
import AnimateServer.Verify.PlacementLife
import AnimateServer.Verify.Handles
import AnimateServer.Verify.Strangers
import AnimateServer.Model.TableInserts
import AnimateServer.Verify.ConcurrentInsert
import AnimateServer.Verify.Lifetime
import AnimateServer.Verify.Departed
import AnimateServer.Verify.Replies
import AnimateServer.Verify.RpcPipe
import AnimateServer.Verify.ClientRequests
import AnimateServer.Verify.SlotMirror
import AnimateServer.Verify.Records
import AnimateServer.Verify.LoginGate
import AnimateServer.Verify.InFlight
import AnimateServer.Verify.LoginIdentity
import AnimateServer.Verify.UserSearch
import AnimateServer.Model.Unlinks
import AnimateServer.Verify.Registration
import AnimateServer.Verify.StartUp
import AnimateServer.Model.Shutdown
import AnimateServer.Verify.Shutdown
import AnimateServer.Model.Handshake
import AnimateServer.Verify.Handshake
import AnimateServer.Model.Receiver
import AnimateServer.Verify.ReplyRoundTrip
import AnimateServer.Verify.LoginLookup
import AnimateServer.Verify.LongLines
import AnimateServer.Model.ClientHandler
import AnimateServer.Verify.SlotSweep
import AnimateServer.Verify.TableMaps
import AnimateServer.Verify.CanvasPointers
import AnimateServer.Model.Markdead
import AnimateServer.Verify.Cleanup
import AnimateServer.Verify.Generation
import AnimateServer.Verify.Dimensions
import AnimateServer.Verify.SharedLists
import AnimateServer.Verify.ShellCommand
import AnimateServer.Lib.NamedFifo
import AnimateServer.Model.Rendezvous
import AnimateServer.Verify.RendezvousClient
import AnimateServer.Verify.Rendezvous
import AnimateServer.Verify.PoolTasks
import AnimateServer.Verify.WorkConservation
import AnimateServer.Verify.ShutdownEnds
import AnimateServer.Model.SelfPipe
import AnimateServer.Verify.SelfPipes
import AnimateServer.Model.Session
import AnimateServer.Verify.Answers
import AnimateServer.Verify.Sessions
import AnimateServer.Verify.CommandText
import AnimateServer.Verify.Quiescence
import AnimateServer.Model.Teardown
import AnimateServer.Verify.Teardown
import AnimateServer.Verify.SessionsAtRest
import AnimateServer.Verify.ObjectNames
