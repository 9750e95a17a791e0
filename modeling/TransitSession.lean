import TransitSession.Lib.Executor
import TransitSession.Core.Fifo
import TransitSession.Core.Scheduling
import TransitSession.Core.Notifications
import TransitSession.Sessions
import TransitSession.Guarantees
import TransitSession.Serial.HalfDuplex
import TransitSession.Buffers
import TransitSession.Reading
import TransitSession.Can.RoundTrip
import TransitSession.WebSocket.Server
import TransitSession.WebSocket.StopLoop
import TransitSession.WebSocket.Shutdown
import TransitSession.Core.Delivery
import TransitSession.Core.Members
import TransitSession.Delivery
import TransitSession.Handlers
import TransitSession.Lib.Strands
import TransitSession.Reopening
import TransitSession.WebSocket.Accepting
import TransitSession.WebSocket.Handlers
import TransitSession.WebSocket.Release
import TransitSession.Can.Filters
import TransitSession.Opening
import TransitSession.Serial.Configuration
import TransitSession.Can.Rejection
import TransitSession.Core.AsyncSession
import TransitSession.WebSocket.HandOver
import TransitSession.Lib.Sequential
import TransitSession.Lib.Link
import TransitSession.WebSocket.Refinement
import TransitSession.Writing
import TransitSession.Linked
import TransitSession.Applications
import TransitSession.Example.Echo
import TransitSession.Example.Benchmark
import TransitSession.Example.SerialBenchmark
import TransitSession.Draining
import TransitSession.Completion
import TransitSession.Liveness
import TransitSession.Example.Liveness
import TransitSession.Example.BenchmarkLiveness
import TransitSession.Serial.Predecessor
import TransitSession.Serial.Deadlock
import TransitSession.Can.Descriptors
import TransitSession.WebSocket.Quiescence
