import Space2.Agents.Approvals
import Space2.Agents.Turn
import Space2.Base.AllowedWrites
import Space2.Base.LuaArithmetic
import Space2.Base.LuaPattern
import Space2.Base.Marks
import Space2.Base.Normalizing
import Space2.Base.SignedArithmetic
import Space2.Base.Tiling
import Space2.Base.Worklist
import Space2.BucketQueue.Runs
import Space2.Conversations.Runs
import Space2.Drawing.History
import Space2.Drawing.RasterEdits
import Space2.Drawing.RasterHistory
import Space2.Drawing.RasterLayer
import Space2.Drawing.RasterPixels
import Space2.Drawing.RasterStore
import Space2.Graph.Merging
import Space2.Graph.Rewriting
import Space2.GraphExtensions.Runs
import Space2.GraphMap.Runs
import Space2.GraphMaps.Migration
import Space2.GraphMaps.Runs
import Space2.HotReload.Reload
import Space2.Ics.Inverse
import Space2.Jobs.Runs
import Space2.Jobs.Shutdown
import Space2.Layout.Recorded
import Space2.LazyTextBuffer.Boundaries
import Space2.LazyTextBuffer.LineStarts
import Space2.LlmTools.EditFile
import Space2.LuaJson.Preservation
import Space2.QrCode.GaloisField
import Space2.QrCode.Layout
import Space2.QrCode.ReedSolomon
import Space2.QrCode.Segmentation
import Space2.RateLimiter.Limiter
import Space2.Realtime.AuthTicketTransport
import Space2.Realtime.Gating
import Space2.Realtime.Lifecycle
import Space2.Recurrence.Agreement
import Space2.Recurrence.RoundTrip
import Space2.Recurrence.SetAlgebra
import Space2.ReferenceLifecycle.Boards
import Space2.ReferenceLifecycle.Morph
import Space2.ReferenceLifecycle.Recovery
import Space2.ReferenceLifecycle.Resolvers
import Space2.ReferenceLifecycle.StrictJson
import Space2.RepoPaths.Containment
import Space2.RuntimeScheduler.Runs
import Space2.Signals.Delivery
import Space2.Sql.Binding
import Space2.StableJson.Json
import Space2.StableJson.Records
import Space2.StableJson.Strings
import Space2.StableJson.Values
import Space2.Temporal.BusinessCalendar
import Space2.Temporal.CalendarShifts
import Space2.Temporal.CheckedNanoseconds
import Space2.Temporal.DateTimeTexts
import Space2.Temporal.ExactDuration
import Space2.Temporal.MachineDateTimes
import Space2.Temporal.Period
import Space2.Temporal.Timestamps
import Space2.Terminal.Scrollback
import Space2.Touch.Held
import Space2.Touch.Router
import Space2.VectorBuffer.Uploads
import Space2.Wallet.Conversions
import Space2.Workflows.Batching
import Space2.Workflows.EventLog
import Space2.Workflows.SelfLoops
import Space2.Workflows.StepRemoval
import Space2.Workflows.StepResets
import Space2.Workflows.Terminal
import Space2.WorldData.Atomicity
