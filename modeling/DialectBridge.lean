import DialectBridge.Command.Arguments
import DialectBridge.Command.LogFilter
import DialectBridge.Command.Pattern
import DialectBridge.Command.Run
import DialectBridge.Compiler.InlineMap
import DialectBridge.Compiler.Judgement
import DialectBridge.Compiler.Outcome
import DialectBridge.Compiler.SyntaxReport
import DialectBridge.Diagnostic.Basic
import DialectBridge.Diagnostic.Report
import DialectBridge.Digest.Blake3
import DialectBridge.Digest.Fingerprint
import DialectBridge.Editor.Alone
import DialectBridge.Editor.Method
import DialectBridge.Editor.Params
import DialectBridge.Editor.Server
import DialectBridge.Editor.Wire
import DialectBridge.Engine.Basic
import DialectBridge.Engine.Forward
import DialectBridge.Host.Answer
import DialectBridge.Host.Exchange
import DialectBridge.Host.Frame
import DialectBridge.Host.Link
import DialectBridge.Host.Message
import DialectBridge.Host.Request
import DialectBridge.Host.Server
import DialectBridge.Host.ServiceError
import DialectBridge.Json.Basic
import DialectBridge.Json.Overlay
import DialectBridge.Json.Position
import DialectBridge.Json.Printer
import DialectBridge.Json.Record
import DialectBridge.Json.Shape
import DialectBridge.Json.Token
import DialectBridge.Json.Tree
import DialectBridge.Main
import DialectBridge.Pipeline.Desk
import DialectBridge.Probe
import DialectBridge.Probe.Locate
import DialectBridge.Program.Basic
import DialectBridge.Program.Calls
import DialectBridge.Program.Files
import DialectBridge.Proofs.Command.Arguments
import DialectBridge.Proofs.Command.Check
import DialectBridge.Proofs.Command.Probe
import DialectBridge.Proofs.Compiler.Emission
import DialectBridge.Proofs.Compiler.InlineMap
import DialectBridge.Proofs.Compiler.SyntaxReport
import DialectBridge.Proofs.Diagnostic.Location
import DialectBridge.Proofs.Editor.Documents
import DialectBridge.Proofs.Editor.Messages
import DialectBridge.Proofs.Engine.Completion
import DialectBridge.Proofs.Engine.Concurrent
import DialectBridge.Proofs.Engine.Desks
import DialectBridge.Proofs.Engine.Instant
import DialectBridge.Proofs.Engine.Isolation
import DialectBridge.Proofs.Engine.Single
import DialectBridge.Proofs.Engine.Upkeep
import DialectBridge.Proofs.Host.Conversation
import DialectBridge.Proofs.Host.Frame
import DialectBridge.Proofs.Host.Grammar
import DialectBridge.Proofs.Host.Idling
import DialectBridge.Proofs.Host.Link
import DialectBridge.Proofs.Host.Restart
import DialectBridge.Proofs.Host.Talk
import DialectBridge.Proofs.Json.Fields
import DialectBridge.Proofs.Pipeline.Chronicle
import DialectBridge.Proofs.Pipeline.Closing
import DialectBridge.Proofs.Pipeline.Forecast
import DialectBridge.Proofs.Pipeline.Operation
import DialectBridge.Proofs.Pipeline.Phase
import DialectBridge.Proofs.Pipeline.Settling
import DialectBridge.Proofs.Pipeline.Work
import DialectBridge.Proofs.Probe
import DialectBridge.Proofs.Probe.HostLine
import DialectBridge.Proofs.Settings.Acceptance
import DialectBridge.Proofs.Settings.Layers
import DialectBridge.Proofs.Settings.Merge
import DialectBridge.Proofs.SourceMap.Columns
import DialectBridge.Proofs.SourceMap.Encode
import DialectBridge.Proofs.SourceMap.Group
import DialectBridge.Proofs.SourceMap.Nearest
import DialectBridge.Proofs.SourceMap.Sums
import DialectBridge.Proofs.SourceMap.Vlq
import DialectBridge.Proofs.SourceMap.Word
import DialectBridge.Proofs.Text.Ascii
import DialectBridge.Proofs.Text.Lines
import DialectBridge.Proofs.Text.Offset
import DialectBridge.Proofs.Text.Runs
import DialectBridge.Proofs.Text.Utf8
import DialectBridge.Proofs.Text.WellFormed
import DialectBridge.Proofs.Timing.Alarm
import DialectBridge.Proofs.Timing.Cache
import DialectBridge.Proofs.Timing.Clockwork
import DialectBridge.Proofs.Timing.Debouncer
import DialectBridge.Proofs.Timing.Guarded
import DialectBridge.Proofs.Timing.Namespaces
import DialectBridge.Proofs.Timing.Store
import DialectBridge.Proofs.Timing.Workshop
import DialectBridge.Proofs.Verifier.Finding
import DialectBridge.Proofs.Verifier.Report
import DialectBridge.Proofs.Verifier.TypeReport
import DialectBridge.Proofs.Verifier.Verdict
import DialectBridge.Proofs.VirtualDocument
import DialectBridge.Proofs.VirtualDocument.Registry
import DialectBridge.Session
import DialectBridge.Settings
import DialectBridge.SourceMap.Basic
import DialectBridge.SourceMap.Decode
import DialectBridge.SourceMap.Lookup
import DialectBridge.SourceMap.Vlq
import DialectBridge.Text.Alphanumeric
import DialectBridge.Text.Base64
import DialectBridge.Text.Blank
import DialectBridge.Text.DecimalDigit
import DialectBridge.Text.Lines
import DialectBridge.Text.Numeral
import DialectBridge.Text.Percent
import DialectBridge.Text.Position
import DialectBridge.Text.Runs
import DialectBridge.Text.Utf8
import DialectBridge.Timing.Alarm
import DialectBridge.Timing.Cache
import DialectBridge.Timing.Clockwork
import DialectBridge.Timing.Debouncer
import DialectBridge.Timing.Guarded
import DialectBridge.Timing.Store
import DialectBridge.Timing.Timed
import DialectBridge.Timing.Workshop
import DialectBridge.Uri
import DialectBridge.Verifier.Finding
import DialectBridge.Verifier.TypeReport
import DialectBridge.Verifier.Verdict
import DialectBridge.VirtualDocument
