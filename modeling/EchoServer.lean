import EchoServer.Main
import EchoServer.Proofs.Connection.Cancelling
import EchoServer.Proofs.Connection.Channel
import EchoServer.Proofs.Connection.Injected
import EchoServer.Proofs.Connection.Keys
import EchoServer.Proofs.Connection.Malformed
import EchoServer.Proofs.Connection.Pipelining
import EchoServer.Proofs.Connection.Streams
import EchoServer.Proofs.Connection.Truncation
import EchoServer.Proofs.Message.Duration
import EchoServer.Proofs.Message.RoundTrip
import EchoServer.Proofs.Method
import EchoServer.Proofs.Operation.LifeCycle
import EchoServer.Proofs.Operation.Log
import EchoServer.Proofs.Operation.Retention
import EchoServer.Proofs.Operation.TimeToLive
import EchoServer.Proofs.Server.Capacity
import EchoServer.Proofs.Server.Readable
import EchoServer.Proofs.Server.Registered
import EchoServer.Proofs.Server.Slots
import EchoServer.Proofs.Service.Paging
import EchoServer.Proofs.Service.Rejoining
import EchoServer.Proofs.Service.Spellings
import EchoServer.Proofs.Service.Tokens
import EchoServer.Proofs.Settings.Precedence
import EchoServer.Proofs.Text.Count
import EchoServer.Proofs.Wire.Chunks
import EchoServer.Proofs.Wire.Grammar
import EchoServer.Proofs.Wire.Respelling
