import RecordServer.Catalog
import RecordServer.CommandLine
import RecordServer.Config.Basic
import RecordServer.Config.Document
import RecordServer.Config.Inputs
import RecordServer.Config.Outputs
import RecordServer.Config.Setting
import RecordServer.Csv.Row
import RecordServer.Decimal.Binary
import RecordServer.Decimal.Notation
import RecordServer.Decimal.Shortest
import RecordServer.Encryption.Certificate
import RecordServer.Encryption.Curve
import RecordServer.Encryption.Der
import RecordServer.Encryption.Digest
import RecordServer.Encryption.Pem
import RecordServer.Encryption.PrivateKey
import RecordServer.Fault
import RecordServer.FileSystem
import RecordServer.Format
import RecordServer.Index.Basic
import RecordServer.Index.Open
import RecordServer.Index.Postings
import RecordServer.Index.Suffix
import RecordServer.Index.SuffixFile
import RecordServer.Index.Trie
import RecordServer.Input.Basic
import RecordServer.Input.Open
import RecordServer.Input.Pages
import RecordServer.Json.Elements
import RecordServer.Json.Printer
import RecordServer.Json.Reader
import RecordServer.Main
import RecordServer.Monitor
import RecordServer.Output.Basic
import RecordServer.Output.Handler
import RecordServer.Output.Route
import RecordServer.Parser.Basic
import RecordServer.Parser.Registry
import RecordServer.Parser.Shape
import RecordServer.Parser.Slots
import RecordServer.Platform
import RecordServer.Query
import RecordServer.Regexp.Basic
import RecordServer.Regexp.Chars
import RecordServer.Regexp.ClassReader
import RecordServer.Regexp.Escape
import RecordServer.Regexp.Folding
import RecordServer.Regexp.Machine
import RecordServer.Regexp.Matching
import RecordServer.Regexp.Meaning
import RecordServer.Regexp.Pattern
import RecordServer.Regexp.Property
import RecordServer.Regexp.Property.Age
import RecordServer.Regexp.Property.Binary
import RecordServer.Regexp.Property.Boundary
import RecordServer.Regexp.Property.Category
import RecordServer.Regexp.Property.Script
import RecordServer.Regexp.Reader
import RecordServer.Regexp.Size
import RecordServer.Relation
import RecordServer.Reply
import RecordServer.Request
import RecordServer.Service.Address
import RecordServer.Service.Server
import RecordServer.Session
import RecordServer.Sorting.Arrangement
import RecordServer.Sorting.Pivot
import RecordServer.Sorting.Trial
import RecordServer.Stream.Feed
import RecordServer.Stream.Join
import RecordServer.Text.Blank
import RecordServer.Text.Charset
import RecordServer.Text.Letter
import RecordServer.Text.LowerCase
import RecordServer.Text.Split
import RecordServer.Text.Table
import RecordServer.Text.Utf8
import RecordServer.Value
import RecordServer.Xml.Document
import RecordServer.Xml.Element
import RecordServer.Xml.Entity
import RecordServer.Xml.Event
import RecordServer.Xml.Path
import RecordServer.Xml.Property
import RecordServer.Yaml.Document
import RecordServer.Yaml.Node
import RecordServer.Yaml.Place
import RecordServer.Yaml.Scalar
import RecordServer.Yaml.Token
import RecordServer.Proofs.Input.Order
import RecordServer.Proofs.Stream.Leaf
import RecordServer.Proofs.Index.Lookup
import RecordServer.Proofs.Index.Exact
import RecordServer.Proofs.Index.Substring
import RecordServer.Proofs.Stream.Join
import RecordServer.Proofs.Stream.Feed
import RecordServer.Proofs.Query
import RecordServer.Proofs.Reply
import RecordServer.Proofs.Stream.Quiet
import RecordServer.Proofs.Session
import RecordServer.Proofs.Output.Handler
import RecordServer.Proofs.Output.Delivery
import RecordServer.Proofs.Output.Account
import RecordServer.Proofs.Catalog
import RecordServer.Proofs.Site
import RecordServer.Proofs.Output.Rejection
import RecordServer.Proofs.Contract
import RecordServer.Proofs.Index.SuffixFile
import RecordServer.Proofs.Sorting.Arrangement
import RecordServer.Proofs.Index.Search
import RecordServer.Proofs.Index.SuffixTable
import RecordServer.Proofs.Index.Build
import RecordServer.Proofs.Stream.Intersection
import RecordServer.Proofs.Index.Decoding
import RecordServer.Proofs.Index.Agreement
import RecordServer.Proofs.Index.Reuse
import RecordServer.Proofs.Index.Damage
import RecordServer.Proofs.Stream.Undisturbed
import RecordServer.Proofs.Composition
import RecordServer.Proofs.Input.Access
import RecordServer.Proofs.Csv.Access
import RecordServer.Proofs.Xml.Within
import RecordServer.Proofs.Xml.Access
import RecordServer.Proofs.Xml.Grammar
import RecordServer.Proofs.Xml.Parts
import RecordServer.Proofs.Xml.Markup
import RecordServer.Proofs.Xml.Scanning
import RecordServer.Proofs.Xml.Selection
import RecordServer.Proofs.Json.Grammar
import RecordServer.Proofs.Json.Scan
import RecordServer.Proofs.Json.Accepted
import RecordServer.Proofs.Json.Access
import RecordServer.Proofs.Relation.Sorted
import RecordServer.Proofs.Input.Loading
import RecordServer.Proofs.Relation.Matching
import RecordServer.Proofs.Relation.Resolving
import RecordServer.Proofs.Relation.Compiled
import RecordServer.Proofs.Relation.Attached
import RecordServer.Proofs.Input.Properties
import RecordServer.Proofs.Relation.Appending
import RecordServer.Proofs.Config.Reading
import RecordServer.Proofs.Config.Valid
import RecordServer.Proofs.Config.Schema
import RecordServer.Proofs.Config.Strict
import RecordServer.Proofs.Stream.Halting
import RecordServer.Proofs.Yaml.Distinct
import RecordServer.Proofs.Fault
import RecordServer.Proofs.Stream.Faults
import RecordServer.Proofs.Input.Faults
import RecordServer.Proofs.Sorting.Trial
import RecordServer.Proofs.Index.Admission
import RecordServer.Proofs.Output.Regime
import RecordServer.Proofs.Output.Cancellation
import RecordServer.Proofs.Output.Validation
import RecordServer.Proofs.Parser.Slots
import RecordServer.Proofs.Parser.References
import RecordServer.Proofs.Index.Layout
import RecordServer.Proofs.Json.RoundTrip
import RecordServer.Proofs.Output.Single
import RecordServer.Proofs.Xml.Address
import RecordServer.Proofs.Xml.Steps
import RecordServer.Proofs.Xml.Order
import RecordServer.Proofs.Xml.Texts
import RecordServer.Proofs.Monitor
import RecordServer.Proofs.Sorting.Settled
import RecordServer.Proofs.Relation.Rearranged
import RecordServer.Proofs.Relation.ShortLists
import RecordServer.Proofs.Relation.Runs
import RecordServer.Proofs.Relation.Pivots
import RecordServer.Proofs.Relation.SortOutcome
import RecordServer.Proofs.Index.Inclusion
import RecordServer.Proofs.Parser.Shape
import RecordServer.Proofs.Decimal.Reading
import RecordServer.Proofs.Output.Paths
import RecordServer.Proofs.Regexp.Described
import RecordServer.Proofs.Regexp.Reading
import RecordServer.Proofs.Parser.Written
import RecordServer.Proofs.Parser.Accepted
import RecordServer.Proofs.Text.Splitting
import RecordServer.Proofs.Text.Letters
import RecordServer.Proofs.Parser.Integers
import RecordServer.Proofs.Parser.Nested
import RecordServer.Proofs.Xml.Written
import RecordServer.Proofs.Output.Filled
import RecordServer.Proofs.Output.Template
import RecordServer.Proofs.Stream.Demand
import RecordServer.Proofs.Platform
import RecordServer.Proofs.Watching
import RecordServer.Proofs.Config.Names
import RecordServer.Proofs.Registered
import RecordServer.Proofs.Index.Multiplicity
