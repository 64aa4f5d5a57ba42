import RpcClient.Callback
import RpcClient.Codec
import RpcClient.CommandLine.Run
import RpcClient.Configuration
import RpcClient.Deadline
import RpcClient.Header.Json
import RpcClient.Http.Client
import RpcClient.Http.Channel
import RpcClient.Http.Routed
import RpcClient.Invoker
import RpcClient.Json.Printer
import RpcClient.Main
import RpcClient.Multiplex.Step
import RpcClient.Network
import RpcClient.Pool.Step
import RpcClient.Proofs.Multiplex.Ledger
import RpcClient.Proofs.Multiplex.History
import RpcClient.Routing
import RpcClient.Session.Step
import RpcClient.Toml.Document
import RpcClient.Trial.CallTrial
import RpcClient.Trial.PoolTrial
import RpcClient.Proofs.Multiplex.Waiters
import RpcClient.Proofs.Multiplex.Correlation
import RpcClient.Proofs.Multiplex.Leaks
import RpcClient.Proofs.Multiplex.Moves
import RpcClient.Proofs.Multiplex.OneConnection
import RpcClient.Proofs.Bytes
import RpcClient.Proofs.Utf8
import RpcClient.Proofs.Bolt.HeaderBlock
import RpcClient.Proofs.Bolt.Packet
import RpcClient.Proofs.Bolt.RoundTrip
import RpcClient.Proofs.Codec.Stream
import RpcClient.Proofs.Hessian.Local
import RpcClient.Proofs.Hessian.Reader
import RpcClient.Proofs.Hessian.Written
import RpcClient.Proofs.Dubbo.Attachments
import RpcClient.Proofs.Entries
import RpcClient.Proofs.Dubbo.RoundTrip
import RpcClient.Proofs.Dubbo.Metadata
import RpcClient.Proofs.Pool.Acts
import RpcClient.Proofs.Pool.Moves
import RpcClient.Proofs.Pool.Places
import RpcClient.Proofs.Pool.Accounting
import RpcClient.Proofs.Invoker.Course
import RpcClient.Proofs.Pool.Stock
import RpcClient.Proofs.Multiplex.Strides
import RpcClient.Proofs.Multiplex.Readers
import RpcClient.Proofs.Multiplex.Lines
import RpcClient.Proofs.Multiplex.Reuse
import RpcClient.Proofs.Multiplex.Closing
import RpcClient.Proofs.Multiplex.Fate
import RpcClient.Proofs.Multiplex.Isolation
import RpcClient.Proofs.Bolt.Echo
import RpcClient.Proofs.Dubbo.Relay
import RpcClient.Proofs.Invoker.Turns
import RpcClient.Proofs.Pool.Custody
import RpcClient.Proofs.Http.Client
import RpcClient.Proofs.Http.Exchange
import RpcClient.Proofs.Http.Moves
import RpcClient.Proofs.Http.Owners
import RpcClient.Proofs.Http.Tasks
import RpcClient.Proofs.Http.Reuse
import RpcClient.Proofs.Hessian.LongStrings
import RpcClient.Proofs.Codec.Checked
import RpcClient.Proofs.Codec.Consumption
import RpcClient.Proofs.Multiplex.Intake
import RpcClient.Proofs.Dubbo.Survival
import RpcClient.Proofs.Multiplex.Attempts
import RpcClient.Proofs.Hessian.Strings
import RpcClient.Proofs.Hessian.Binaries
import RpcClient.Proofs.Hessian.Forms
import RpcClient.Proofs.Hessian.Values
import RpcClient.Proofs.Hessian.Agreement
import RpcClient.Proofs.Hessian.Checked
import RpcClient.Proofs.Pool.HandOut
import RpcClient.Proofs.Pool.Cancellation
import RpcClient.Proofs.Callback.Renaming
import RpcClient.Proofs.Http.Building
import RpcClient.Proofs.Setting.Interpolation
import RpcClient.Proofs.Pool.Readers
import RpcClient.Proofs.Pool.Recording
import RpcClient.Proofs.Pool.ReadLoop
import RpcClient.Proofs.Hessian.Prefixes
import RpcClient.Proofs.Dubbo.Descriptors
import RpcClient.Proofs.Routing
import RpcClient.Proofs.Http.Routes
import RpcClient.Proofs.Invoker.Settings
