import Tabular.Column.Path
import Tabular.Column.Projection
import Tabular.CommandLine.Argument
import Tabular.CommandLine.Request
import Tabular.CommandLine.Run
import Tabular.Files.Disk
import Tabular.Files.Location
import Tabular.Files.Open
import Tabular.Files.Sha256
import Tabular.Files.Tree
import Tabular.Load.Basic
import Tabular.Load.Sql
import Tabular.Load.Staging
import Tabular.Main
import Tabular.Options.Basic
import Tabular.Options.Field
import Tabular.Options.Lax
import Tabular.Options.Level
import Tabular.Options.Settings
import Tabular.Reader.Basic
import Tabular.Reader.Run
import Tabular.Reader.Scan
import Tabular.Row.Attributes
import Tabular.Row.Builder
import Tabular.Row.Draft
import Tabular.Row.Field
import Tabular.Schema.Column
import Tabular.Schema.RowSchema
import Tabular.Schema.Shape
import Tabular.Schema.Snapshot
import Tabular.Text.Basic
import Tabular.Text.Printable
import Tabular.Value.Basic
import Tabular.Value.Decimal
import Tabular.Value.Entries
import Tabular.Value.Json
import Tabular.Value.JsonReader
import Tabular.Xml.Cursor
import Tabular.Xml.Declaration
import Tabular.Xml.Decode
import Tabular.Xml.Document
import Tabular.Xml.Entity
import Tabular.Xml.Prolog
import Tabular.Xml.Report
import Tabular.Xml.Token
import Tabular.Proofs.Reader.Passage
import Tabular.Proofs.Reader.Windows
import Tabular.Proofs.Tree.Basic
import Tabular.Proofs.Tree.Scan
import Tabular.Proofs.Row.Hole
import Tabular.Proofs.Tree.Reference
import Tabular.Proofs.Column.Keep
import Tabular.Proofs.Row.Thin
import Tabular.Proofs.Row.Numbered
import Tabular.Proofs.Row.Thinned
import Tabular.Proofs.Row.Narrow
import Tabular.Proofs.Reader.Narrow
import Tabular.Proofs.Schema.Growth
import Tabular.Proofs.Schema.Narrow
import Tabular.Proofs.Schema.Pad
import Tabular.Proofs.Reader.Together
import Tabular.Proofs.Reader.Restriction
import Tabular.Proofs.Tree.Rows
import Tabular.Proofs.Schema.Single
import Tabular.Proofs.Tree.Leaf
import Tabular.Proofs.Tree.Repeat
import Tabular.Proofs.Reader.Flattened
import Tabular.Proofs.Row.Stable
import Tabular.Proofs.Row.Reserved
import Tabular.Proofs.Tree.Offers
import Tabular.Proofs.Schema.Captured
import Tabular.Proofs.Reader.Captured
import Tabular.Proofs.Reader.Sealed
import Tabular.Proofs.Schema.Agreement
import Tabular.Proofs.Schema.Apart
import Tabular.Proofs.Schema.Columns
import Tabular.Proofs.Schema.Unification
import Tabular.Proofs.Schema.Cover
import Tabular.Proofs.Reader.Calls
import Tabular.Proofs.Schema.Presence
import Tabular.Proofs.Schema.Conform
import Tabular.Proofs.Reader.Conform
import Tabular.Proofs.Reader.Fault
import Tabular.Proofs.Reader.Drained
import Tabular.Proofs.Reader.Flush
import Tabular.Proofs.Reader.Cut
import Tabular.Proofs.Reader.Limit
import Tabular.Proofs.Reader.Alone
import Tabular.Proofs.Reader.BatchSize
import Tabular.Proofs.Load.Token
import Tabular.Proofs.Load.ColumnType
import Tabular.Proofs.Load.Typed
import Tabular.Proofs.Load.Statement
import Tabular.Proofs.Load.Staged
import Tabular.Proofs.Load.Declared
import Tabular.Proofs.Options.Loaded
import Tabular.Proofs.Files.Tree
import Tabular.Proofs.Load.Begun
import Tabular.Proofs.Load.HandOff
import Tabular.Proofs.Strict.Draft
import Tabular.Proofs.Strict.Builder
import Tabular.Proofs.Strict.Scan
import Tabular.Proofs.Strict.Tables
import Tabular.Proofs.Strict.Snapshot
import Tabular.Proofs.Strict.Reader
import Tabular.Proofs.Strict.Demands
import Tabular.Proofs.Load.Restored
import Tabular.Proofs.Reader.RowName
import Tabular.Proofs.Tree.Collisions
import Tabular.Proofs.Tree.Gathered
import Tabular.Proofs.Schema.Retraction
import Tabular.Proofs.Schema.Order
import Tabular.Proofs.Schema.Requested
import Tabular.Proofs.Schema.Monotone
import Tabular.Proofs.Strict.Memory
import Tabular.Proofs.Strict.Recorder
import Tabular.Proofs.Reader.Attributes
import Tabular.Proofs.Reader.Tags
import Tabular.Proofs.Column.Format
import Tabular.Proofs.Schema.Concord
import Tabular.Proofs.Schema.Permuted
import Tabular.Proofs.Tree.Core
import Tabular.Proofs.Reader.Depth
import Tabular.Proofs.Column.Grammar
import Tabular.Proofs.Options.Layered
import Tabular.Proofs.Options.Refused
import Tabular.Proofs.Xml.Names
import Tabular.Proofs.Xml.Reports
import Tabular.Proofs.Reader.Pruned
import Tabular.Proofs.Schema.Views
import Tabular.Proofs.Strict.Registered
import Tabular.Proofs.Strict.Node
import Tabular.Proofs.Strict.Arena
import Tabular.Proofs.Strict.Traversal
import Tabular.Proofs.Strict.Folding
import Tabular.Proofs.Strict.Trees
import Tabular.Proofs.Strict.Traversed
import Tabular.Proofs.Strict.Missing
import Tabular.Proofs.Strict.Shared
