import ChainArchive.Batch
import ChainArchive.Checkpoint
import ChainArchive.Command.Arguments
import ChainArchive.Command.Describe
import ChainArchive.Command.Operate
import ChainArchive.Copy.Array
import ChainArchive.Copy.Buffer
import ChainArchive.Copy.Field
import ChainArchive.Copy.Row
import ChainArchive.Copy.Text
import ChainArchive.Copy.Transfer
import ChainArchive.Database.Connect
import ChainArchive.Database.Service
import ChainArchive.Database.Target
import ChainArchive.Failure
import ChainArchive.Ingest.Draft
import ChainArchive.Ingest.Pipeline
import ChainArchive.Ingest.Rules
import ChainArchive.Json.Basic
import ChainArchive.Json.Reader
import ChainArchive.Json.Writer
import ChainArchive.Main
import ChainArchive.Numeral.Binary64
import ChainArchive.Numeral.Integer
import ChainArchive.Numeral.Shortest
import ChainArchive.Program
import ChainArchive.Record.Chain
import ChainArchive.Record.Checked
import ChainArchive.Record.Payload
import ChainArchive.Schema.Apply
import ChainArchive.Schema.Ddl
import ChainArchive.Schema.Latest
import ChainArchive.Schema.Layout
import ChainArchive.Server.Basic
import ChainArchive.Server.Scripted
import ChainArchive.Server.Unreachable
import ChainArchive.Session
import ChainArchive.Settings.Check
import ChainArchive.Settings.Files
import ChainArchive.Settings.Ini
import ChainArchive.Settings.Interpolation
import ChainArchive.Settings.Load
import ChainArchive.Statement
import ChainArchive.Text.Blank
import ChainArchive.Text.Digit
import ChainArchive.Text.Lower
import ChainArchive.Text.Printable
import ChainArchive.Text.Quoted
import ChainArchive.Text.Ranges
import ChainArchive.Text.Split
import ChainArchive.Text.Utf8
import ChainArchive.Time.Calendar
import ChainArchive.Time.Moment
import ChainArchive.Time.Reader
import ChainArchive.Url.Basic
import ChainArchive.Url.Host
import ChainArchive.Url.Query
import ChainArchive.Value
import ChainArchive.Proofs.Session.Sends
import ChainArchive.Proofs.Ingest.Commit
import ChainArchive.Proofs.Ingest.History
import ChainArchive.Proofs.Copy.Decode
import ChainArchive.Proofs.Copy.Payload
import ChainArchive.Proofs.Ingest.Agreement
import ChainArchive.Proofs.Ingest.Chain
import ChainArchive.Proofs.Ingest.Halting
import ChainArchive.Proofs.Ingest.Rendering
import ChainArchive.Proofs.Recovery.Answers
import ChainArchive.Proofs.Recovery.Books
import ChainArchive.Proofs.Recovery.Cut
import ChainArchive.Proofs.Recovery.Delivery
import ChainArchive.Proofs.Recovery.Restart
import ChainArchive.Proofs.Recovery.Resume
import ChainArchive.Proofs.Entity.Refinement
import ChainArchive.Proofs.Ingest.Dropping
import ChainArchive.Proofs.Ingest.FailedStartup
import ChainArchive.Proofs.Ingest.OpenStartup
import ChainArchive.Proofs.Recovery.HalfWritten
import ChainArchive.Proofs.Ingest.Stale
import ChainArchive.Proofs.Ingest.Surfacing
import ChainArchive.Proofs.Ingest.Fitting
import ChainArchive.Proofs.Recovery.Redelivery
import ChainArchive.Proofs.Recovery.Repeated
import ChainArchive.Proofs.Database.Handout
import ChainArchive.Proofs.Copy.Arrays
import ChainArchive.Proofs.Session.Bracket
import ChainArchive.Proofs.Ingest.Appending
import ChainArchive.Proofs.Ingest.Gathering
import ChainArchive.Proofs.Ingest.Counting
import ChainArchive.Proofs.Ingest.Documents
import ChainArchive.Proofs.Session.Plans
import ChainArchive.Proofs.Recovery.Deciding
import ChainArchive.Proofs.Schema.Catalog
import ChainArchive.Proofs.Database.Attempts
import ChainArchive.Proofs.Database.Identifiers
import ChainArchive.Proofs.Database.Maintenance
import ChainArchive.Proofs.Settings.Problems
import ChainArchive.Proofs.Entity.Addressing
import ChainArchive.Proofs.Copy.Moments
import ChainArchive.Proofs.Settings.GivenUrl
import ChainArchive.Proofs.Entity.Classes
import ChainArchive.Proofs.Ingest.Flushing
