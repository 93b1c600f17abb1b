import ChunkedFile.Chunk.Index
import ChunkedFile.CommandLine
import ChunkedFile.Config
import ChunkedFile.Config.Document
import ChunkedFile.Config.Resolve
import ChunkedFile.Config.Yaml
import ChunkedFile.Error
import ChunkedFile.Fetch.Backend
import ChunkedFile.Fetch.Endpoint
import ChunkedFile.Fetch.Policy
import ChunkedFile.Fetch.Retry
import ChunkedFile.Fetch.Scripted
import ChunkedFile.Hash.Algorithm
import ChunkedFile.Hash.Block
import ChunkedFile.Hash.Md5
import ChunkedFile.Hash.Sha1
import ChunkedFile.Hash.Sha256
import ChunkedFile.Hash.Verifier
import ChunkedFile.Http.Message
import ChunkedFile.Http.Url
import ChunkedFile.Json.Printer
import ChunkedFile.Json.Reader
import ChunkedFile.Json.Storable
import ChunkedFile.Json.Value
import ChunkedFile.Link
import ChunkedFile.Listing.Aggregate
import ChunkedFile.Listing.Entry
import ChunkedFile.Listing.Fragment
import ChunkedFile.Main
import ChunkedFile.Metrics
import ChunkedFile.Plan
import ChunkedFile.Plan.Document
import ChunkedFile.Plan.Source
import ChunkedFile.Proofs.CommandLine.Streaming
import ChunkedFile.Proofs.Fetch.Urls
import ChunkedFile.Proofs.Hash.Recorded
import ChunkedFile.Proofs.Hash.Streaming
import ChunkedFile.Proofs.Index.Location
import ChunkedFile.Proofs.Index.Offsets
import ChunkedFile.Proofs.Index.Uniform
import ChunkedFile.Proofs.Json.Documents
import ChunkedFile.Proofs.Json.Literals
import ChunkedFile.Proofs.Json.Records
import ChunkedFile.Proofs.Listing.Display
import ChunkedFile.Proofs.Listing.Fragments
import ChunkedFile.Proofs.Listing.Groups
import ChunkedFile.Proofs.Listing.Naming
import ChunkedFile.Proofs.Listing.Order
import ChunkedFile.Proofs.Listing.Planning
import ChunkedFile.Proofs.Listing.Resolution
import ChunkedFile.Proofs.Listing.SharedNames
import ChunkedFile.Proofs.Plan.Addresses
import ChunkedFile.Proofs.Plan.Documents
import ChunkedFile.Proofs.Plan.Layouts
import ChunkedFile.Proofs.Plan.Refusals
import ChunkedFile.Proofs.Plan.Resolved
import ChunkedFile.Proofs.Plan.Sums
import ChunkedFile.Proofs.Range.Arguments
import ChunkedFile.Proofs.Range.Header
import ChunkedFile.Proofs.Release.Overlap
import ChunkedFile.Proofs.Run.Answers
import ChunkedFile.Proofs.Run.Cancellation
import ChunkedFile.Proofs.Run.Events
import ChunkedFile.Proofs.Run.Fetch
import ChunkedFile.Proofs.Run.Interruption
import ChunkedFile.Proofs.Run.Outcomes
import ChunkedFile.Proofs.Run.Program
import ChunkedFile.Proofs.Run.Silence
import ChunkedFile.Proofs.Run.Timeline
import ChunkedFile.Proofs.Run.Totals
import ChunkedFile.Proofs.Session.Alike
import ChunkedFile.Proofs.Session.Lifecycle
import ChunkedFile.Proofs.Session.Placement
import ChunkedFile.Proofs.Session.Read
import ChunkedFile.Proofs.Session.Serialisation
import ChunkedFile.Proofs.Session.Sharing
import ChunkedFile.Proofs.Session.Skipping
import ChunkedFile.Proofs.Session.Turns
import ChunkedFile.Proofs.Stream.Accounts
import ChunkedFile.Proofs.Stream.Admission
import ChunkedFile.Proofs.Stream.Agreement
import ChunkedFile.Proofs.Stream.Blocks
import ChunkedFile.Proofs.Stream.Consistency
import ChunkedFile.Proofs.Stream.Delivery
import ChunkedFile.Proofs.Stream.Draining
import ChunkedFile.Proofs.Stream.Failure
import ChunkedFile.Proofs.Stream.Inclusive
import ChunkedFile.Proofs.Stream.Integrity
import ChunkedFile.Proofs.Stream.Laziness
import ChunkedFile.Proofs.Stream.Opening
import ChunkedFile.Proofs.Stream.Reads
import ChunkedFile.Proofs.Text.Bytes
import ChunkedFile.Proofs.Text.Numerals
import ChunkedFile.Proofs.Text.Parts
import ChunkedFile.Proofs.Text.Percent
import ChunkedFile.Proofs.Text.Slashes
import ChunkedFile.Proofs.Time.Chronology
import ChunkedFile.Proofs.Time.Rendering
import ChunkedFile.Range
import ChunkedFile.Release
import ChunkedFile.Session
import ChunkedFile.Session.Table
import ChunkedFile.Session.Window
import ChunkedFile.Size
import ChunkedFile.Stream
import ChunkedFile.Text.FixedPoint
import ChunkedFile.Text.Hex
import ChunkedFile.Text.Lossy
import ChunkedFile.Text.Numeral
import ChunkedFile.Text.Percent
import ChunkedFile.Text.Printable
import ChunkedFile.Text.Quoted
import ChunkedFile.Text.Trim
import ChunkedFile.Time.Instant
import ChunkedFile.Time.Pause
import ChunkedFile.Yaml.Cursor
import ChunkedFile.Yaml.Layout
import ChunkedFile.Yaml.Name
import ChunkedFile.Yaml.Node
import ChunkedFile.Yaml.Scalar
import ChunkedFile.Yaml.Token
import ChunkedFile.Yaml.Value
