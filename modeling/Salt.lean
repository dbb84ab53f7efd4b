import Salt.ByteStrings
import Salt.Utf8Text
import Salt.OptionScan
import Salt.TracedState
import Salt.Shadowing
import Salt.BlockHeap
import Salt.Base64Text
import Salt.JsonText
import Salt.Basics
import Salt.KeyParsing
import Salt.Trimming
import Salt.KeyGrammar
import Salt.KeyParsingCorrect
import Salt.KeyInputCorrect
import Salt.Sealing
import Salt.SealingContract
import Salt.SealingCorrect
import Salt.EntryPoints
import Salt.KeyFormats
import Salt.KeyJsonStandard
import Salt.World
import Salt.Reporting
import Salt.Emission
import Salt.StateLifecycle
import Salt.Ingestion
import Salt.Arguments
import Salt.ArgvScan
import Salt.Orchestration
import Salt.CommandLine
import Salt.StreamFacts
import Salt.Framing
import Salt.Tracking
import Salt.ReportingCorrect
import Salt.Ownership
import Salt.ReadCorrect
import Salt.KeyLoading
import Salt.PlaintextLoading
import Salt.StdinKey
import Salt.Utf8Validation
import Salt.JsonEmission
import Salt.EmissionCorrect
import Salt.ArgumentsCorrect
import Salt.PreparationCorrect
import Salt.KeyMessages
import Salt.PipelineCorrect
import Salt.RunCorrect
import Salt.FaultShadows
import Salt.FailStop
import Salt.CalmRun
import Salt.OutputFate
import Salt.Truncation
import Salt.RunContract
import Salt.EndToEnd
import Salt.ArgvEndToEnd
import Salt.ExitStatus
import Salt.Footprint
import Salt.RoundtripHelper
import Salt.RoundtripHelperCorrect
import Salt.RoundTrip
import Salt.FuzzRoundtrip
import Salt.FuzzRoundtripCorrect
import Salt.ArgvScrubbing
import Salt.HandlerSpan
import Salt.Interruption
import Salt.SecretsWindow
import Salt.TwoRuns
import Salt.TwoRunStages
import Salt.TwoRunPipeline
import Salt.History
import Salt.Diagnostics
import Salt.JsonReadback
import Salt.BoundedReader
import Salt.OutputSize
import Salt.ParserSafety
