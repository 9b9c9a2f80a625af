import BlockIngest.Base64
import BlockIngest.Block.Basic
import BlockIngest.Block.Codec
import BlockIngest.Buffer.Basic
import BlockIngest.Buffer.Call
import BlockIngest.Chunk
import BlockIngest.Config
import BlockIngest.Counter
import BlockIngest.Decimal.Double
import BlockIngest.Decimal.Fixed
import BlockIngest.Decimal.Shortest
import BlockIngest.Duration
import BlockIngest.Event
import BlockIngest.Failure
import BlockIngest.Height
import BlockIngest.HeightMap
import BlockIngest.Json.Basic
import BlockIngest.Json.Decode
import BlockIngest.Json.Printer
import BlockIngest.Json.Reader
import BlockIngest.Node.Client
import BlockIngest.Node.Metrics
import BlockIngest.Node.Options
import BlockIngest.Node.Response
import BlockIngest.Pipeline.Fetcher
import BlockIngest.Pipeline.Refresher
import BlockIngest.Pipeline.Report
import BlockIngest.Pipeline.Runner
import BlockIngest.Pipeline.Sequencer
import BlockIngest.Pipeline.Shared
import BlockIngest.Pipeline.Ticker
import BlockIngest.Pipeline.Worker
import BlockIngest.Pipeline.World
import BlockIngest.Planner
import BlockIngest.Progress
import BlockIngest.Publisher
import BlockIngest.Retry
import BlockIngest.Sha256
import BlockIngest.Shutdown
import BlockIngest.Store
import BlockIngest.Task
import BlockIngest.Telemetry
import BlockIngest.Text.Blank
import BlockIngest.Text.Hex
import BlockIngest.Text.Numeral
import BlockIngest.Text.Printable
import BlockIngest.Text.Quoted
import BlockIngest.Trial.Attempts
import BlockIngest.Trial.Bench
import BlockIngest.Trial.Chain
import BlockIngest.Trial.Disk
import BlockIngest.Trial.Fixture
import BlockIngest.Trial.Machine
import BlockIngest.Trial.Script
import BlockIngest.Trial.Session
import BlockIngest.Trial.Setup
import BlockIngest.Trial.Steps
import BlockIngest.Trial.View
import BlockIngest.Proofs.Except
import BlockIngest.Proofs.Counter
import BlockIngest.Proofs.HeightMap
import BlockIngest.Proofs.Planner.Operations
import BlockIngest.Proofs.Planner.Partition
import BlockIngest.Proofs.Commit.Effect
import BlockIngest.Proofs.Commit.Step
import BlockIngest.Proofs.Commit.Discipline
import BlockIngest.Proofs.Commit.Trace
import BlockIngest.Proofs.Retry.Course
import BlockIngest.Proofs.Pipeline.Chain
import BlockIngest.Proofs.Pipeline.Sound
import BlockIngest.Proofs.Pipeline.Run
import BlockIngest.Proofs.Pipeline.Refinement
import BlockIngest.Proofs.Store.Contents
import BlockIngest.Proofs.Store.Progress
import BlockIngest.Proofs.Store.Lookup
import BlockIngest.Proofs.Store.Latest
import BlockIngest.Proofs.Pipeline.Restart
import BlockIngest.Proofs.Fetch.Step
import BlockIngest.Proofs.Fetch.Replies
import BlockIngest.Proofs.Fetch.Outcome
import BlockIngest.Proofs.Pipeline.Move
import BlockIngest.Proofs.Pipeline.Supervision
import BlockIngest.Proofs.Pipeline.History
import BlockIngest.Proofs.Buffer.Operations
import BlockIngest.Proofs.Buffer.Traffic
import BlockIngest.Proofs.Buffer.Order
import BlockIngest.Proofs.Buffer.Waking
import BlockIngest.Proofs.Pipeline.Custody
import BlockIngest.Proofs.Pipeline.Placement
import BlockIngest.Proofs.Pipeline.Admission
import BlockIngest.Proofs.Pipeline.InStep
import BlockIngest.Proofs.Pipeline.RunAhead
import BlockIngest.Proofs.Pipeline.Exhaustion
import BlockIngest.Proofs.Pipeline.Setback
import BlockIngest.Proofs.Pipeline.Stop
import BlockIngest.Proofs.Pipeline.Supply
import BlockIngest.Proofs.Planner.Places
import BlockIngest.Proofs.Planner.Shelf
import BlockIngest.Proofs.Planner.Decision
import BlockIngest.Proofs.Pipeline.Keeping
import BlockIngest.Proofs.Pipeline.Cancellation
import BlockIngest.Proofs.Publish.Ordered
import BlockIngest.Proofs.Publish.Registry
import BlockIngest.Proofs.Publish.Reader
import BlockIngest.Proofs.Publish.Stream
import BlockIngest.Proofs.Publish.Register
import BlockIngest.Proofs.Codec.Base64
import BlockIngest.Proofs.Codec.Record
import BlockIngest.Proofs.Lifetime.Fetcher
import BlockIngest.Proofs.Lifetime.Runner
import BlockIngest.Proofs.Lifetime.FirstReport
import BlockIngest.Proofs.Lifetime.Overlap
import BlockIngest.Proofs.Text.Blank
import BlockIngest.Proofs.Text.Numeral
import BlockIngest.Proofs.Text.Refusal
import BlockIngest.Proofs.Node.Answer
import BlockIngest.Proofs.Node.Height
import BlockIngest.Proofs.Node.Block
import BlockIngest.Proofs.Node.Calls
import BlockIngest.Proofs.Fetch.Whole
import BlockIngest.Proofs.Config
import BlockIngest.Proofs.Planner.Top
import BlockIngest.Proofs.Pipeline.Top
import BlockIngest.Proofs.Pipeline.Sole
import BlockIngest.Proofs.Commit.Tally
import BlockIngest.Proofs.Fetch.Tally
import BlockIngest.Proofs.Pipeline.Tally
import BlockIngest.Proofs.Duration
import BlockIngest.Proofs.Retry.Pauses
