import GraphClient.Assoc
import GraphClient.Client.Basic
import GraphClient.Client.Build
import GraphClient.Configuration.Basic
import GraphClient.Configuration.Document
import GraphClient.Decimal.Binary64
import GraphClient.Decimal.Layout
import GraphClient.Decimal.Nearest
import GraphClient.Decimal.Shortest
import GraphClient.Digest.Md5
import GraphClient.Digest.Sha256
import GraphClient.Digest.Word32
import GraphClient.Duration
import GraphClient.Failure
import GraphClient.Http.Message
import GraphClient.Http.Scripted
import GraphClient.Http.Status
import GraphClient.Http.Transport
import GraphClient.Identity
import GraphClient.Json.Basic
import GraphClient.Json.Canonical
import GraphClient.Json.Printer
import GraphClient.Json.Reader
import GraphClient.Json.Variant
import GraphClient.KeySet
import GraphClient.Normalization
import GraphClient.Operation
import GraphClient.Pipeline.CacheStage
import GraphClient.Pipeline.Interceptor
import GraphClient.Pipeline.ParseStage
import GraphClient.Pipeline.Request
import GraphClient.Pipeline.ServerStage
import GraphClient.Policy.Control
import GraphClient.Policy.Directive
import GraphClient.Policy.HttpCache
import GraphClient.Proofs.Json.Equality
import GraphClient.Proofs.Normalization.References
import GraphClient.Proofs.Normalization.Visits
import GraphClient.Proofs.Normalization.WellFormed
import GraphClient.Proofs.Pipeline.CachePolicy
import GraphClient.Proofs.Reading.Dependencies
import GraphClient.Proofs.Reading.Missing
import GraphClient.Proofs.Reading.Written
import GraphClient.Proofs.Record.KeyOrder
import GraphClient.Proofs.Record.Merging
import GraphClient.Proofs.Record.References
import GraphClient.Proofs.Record.WellFormed
import GraphClient.Proofs.Selection.Applying
import GraphClient.Proofs.Selection.Restriction
import GraphClient.Proofs.Selection.Walk
import GraphClient.Proofs.Session.Interleaving
import GraphClient.Proofs.Session.Outline
import GraphClient.Proofs.Session.Standing
import GraphClient.Proofs.Session.Subscriptions
import GraphClient.Proofs.Session.Updates
import GraphClient.Proofs.Session.Waking
import GraphClient.Proofs.Store.Publication
import GraphClient.Proofs.Store.References
import GraphClient.Proofs.Store.RoundTrip
import GraphClient.Reading
import GraphClient.Record.Basic
import GraphClient.Record.Document
import GraphClient.Record.Table
import GraphClient.Response.Basic
import GraphClient.Response.Envelope
import GraphClient.Selection.Argument
import GraphClient.Selection.Basic
import GraphClient.Session.Basic
import GraphClient.Session.Call
import GraphClient.Session.Callback
import GraphClient.Session.Calling
import GraphClient.Session.Description
import GraphClient.Session.Dispatch
import GraphClient.Session.Run
import GraphClient.Session.Token
import GraphClient.Session.Tracker
import GraphClient.Session.Watcher
import GraphClient.Session.Watching
import GraphClient.Storage.Basic
import GraphClient.Storage.Bounded
import GraphClient.Storage.Guarded
import GraphClient.Storage.Memory
import GraphClient.Store
import GraphClient.Url.Basic
import GraphClient.Url.Host
import GraphClient.Url.Percent
import GraphClient.Url.Punycode
import GraphClient.Yaml.Block
import GraphClient.Yaml.Gap
import GraphClient.Yaml.Layout
import GraphClient.Yaml.Node
import GraphClient.Yaml.Placed
import GraphClient.Yaml.Plain
import GraphClient.Yaml.Quoted
import GraphClient.Yaml.Resolution
import GraphClient.Yaml.Tag
import GraphClient.Yaml.Token
import GraphClient.Proofs.Session.Owners
import GraphClient.Proofs.Session.Moving
import GraphClient.Proofs.Session.Fetching
import GraphClient.Proofs.Session.Turns
import GraphClient.Proofs.Session.Deliveries
import GraphClient.Proofs.Session.Tokens
import GraphClient.Proofs.Session.Calls
import GraphClient.Proofs.Session.Lifecycle
import GraphClient.Proofs.Session.Numbering
import GraphClient.Proofs.Json.Quotation
import GraphClient.Proofs.Selection.Names
import GraphClient.Proofs.Record.Paths
import GraphClient.Proofs.Normalization.Listing
import GraphClient.Proofs.Normalization.Paths
import GraphClient.Proofs.Normalization.Identity
import GraphClient.Proofs.Store.FieldKeys
import GraphClient.Proofs.Store.Fragments
import GraphClient.Proofs.Reading.WellFormed
import GraphClient.Proofs.Session.Offline
import GraphClient.Proofs.Session.Newest
import GraphClient.Proofs.Session.Quiescence
import GraphClient.Proofs.Storage.Bounding
import GraphClient.Proofs.Store.Refusals
import GraphClient.Proofs.Reading.Merging
import GraphClient.Proofs.Selection.Overlaps
import GraphClient.Proofs.Reading.Overlaps
import GraphClient.Proofs.Json.Parsed
import GraphClient.Proofs.Reading.Settled
import GraphClient.Proofs.Store.Dependents
import GraphClient.Proofs.Decimal.Rounding
import GraphClient.Proofs.Json.Numerals
import GraphClient.Proofs.Json.Texts
import GraphClient.Proofs.Json.Reordering
import GraphClient.Proofs.Selection.CacheKeys
import GraphClient.Proofs.Reading.Loaded
import GraphClient.Proofs.Store.Eviction
import GraphClient.Proofs.Record.Reordering
import GraphClient.Proofs.Normalization.Reordering
import GraphClient.Proofs.Reading.Reordering
import GraphClient.Proofs.Store.Reordering
import GraphClient.Proofs.Normalization.Places
import GraphClient.Proofs.Reading.Rendering
import GraphClient.Proofs.Reading.Restoring
import GraphClient.Proofs.Store.WritingBack
import GraphClient.Proofs.Storage.Compatible
import GraphClient.Proofs.Reading.TypeLookups
import GraphClient.Proofs.Session.Sections
import GraphClient.Proofs.Session.Ownership
import GraphClient.Proofs.Session.Tracker
import GraphClient.Proofs.Session.Counting
import GraphClient.Proofs.Session.Registration
import GraphClient.Proofs.Store.Redirections
import GraphClient.Proofs.Session.Refetching
import GraphClient.Proofs.Pipeline.Conformance
import GraphClient.Proofs.Pipeline.QueryText
import GraphClient.Proofs.Session.Ledger
import GraphClient.Proofs.Normalization.Reported
import GraphClient.Proofs.Record.Document
import GraphClient.Proofs.Session.Serving
