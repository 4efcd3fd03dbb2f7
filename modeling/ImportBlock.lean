import ImportBlock.Assembly
import ImportBlock.Batch
import ImportBlock.Config.Basic
import ImportBlock.Config.Load
import ImportBlock.Decimal.Layout
import ImportBlock.Decimal.Shortest
import ImportBlock.Diff.Alignment
import ImportBlock.Diff.Unified
import ImportBlock.Expansion
import ImportBlock.Forest
import ImportBlock.Tree.Factor
import ImportBlock.Granularity
import ImportBlock.Identifier
import ImportBlock.Leaf
import ImportBlock.Lexeme
import ImportBlock.Merge.MergedSet
import ImportBlock.Merge.Entry
import ImportBlock.Metadata
import ImportBlock.Organize.File
import ImportBlock.Report
import ImportBlock.Section
import ImportBlock.Segment
import ImportBlock.Statement.Syntax
import ImportBlock.Statement.Cursor
import ImportBlock.Statement.ItemReader
import ImportBlock.Statement.TreeReader
import ImportBlock.Storage.Disk
import ImportBlock.SyntaxError
import ImportBlock.Text.Blank
import ImportBlock.Text.Quoted
import ImportBlock.Text.Lines
import ImportBlock.Text.Printable
import ImportBlock.Text.Utf8
import ImportBlock.Token
import ImportBlock.Toml.Document
import ImportBlock.Toml.Reader
import ImportBlock.Toml.Scalar
import ImportBlock.Tree.Basic
import ImportBlock.Tree.Equality
import ImportBlock.Tree.Order
import ImportBlock.Tree.OrderLaws
import ImportBlock.Tree.Printer
import ImportBlock.Value
import ImportBlock.Proofs.Gather
import ImportBlock.Proofs.Tree.Factor
import ImportBlock.Proofs.Merge.Entries
import ImportBlock.Proofs.Merge.Visit
import ImportBlock.Proofs.Merge.Conflicts
import ImportBlock.Proofs.Merge.Agreement
import ImportBlock.Proofs.Attribute
import ImportBlock.Proofs.Identifier
import ImportBlock.Proofs.Lexeme
import ImportBlock.Proofs.Token
import ImportBlock.Proofs.Spacing
import ImportBlock.Proofs.Frame
import ImportBlock.Proofs.Phrase
import ImportBlock.Proofs.UseTree
import ImportBlock.Proofs.Statement.TreeReader
import ImportBlock.Proofs.Statement.ItemReader
import ImportBlock.Proofs.Statement.Backlog
import ImportBlock.Proofs.Statement.Buffer
import ImportBlock.Proofs.Statement.Derivation
import ImportBlock.Proofs.Statement.Leading
import ImportBlock.Proofs.WrittenItem
import ImportBlock.Proofs.Expansion
import ImportBlock.Proofs.Forest
import ImportBlock.Proofs.Tree.Printer
import ImportBlock.Proofs.Tree.Canonical
import ImportBlock.Proofs.UseItem
import ImportBlock.Proofs.ReadBack
import ImportBlock.Proofs.Section
import ImportBlock.Proofs.Merge.Again
import ImportBlock.Proofs.Merge.Stages
import ImportBlock.Proofs.Merge.StagedConflicts
import ImportBlock.Proofs.Merge.Spacing
import ImportBlock.Proofs.RoundTrip
import ImportBlock.Proofs.Organize.Source
import ImportBlock.Proofs.Organize.Again
import ImportBlock.Proofs.Tree.Rearrangement
import ImportBlock.Proofs.Enumeration
import ImportBlock.Proofs.Tree.Separation
import ImportBlock.Proofs.Partition
import ImportBlock.Proofs.Assembly
import ImportBlock.Proofs.Statement.Stitch
import ImportBlock.Proofs.Merge.Stitch
import ImportBlock.Proofs.Merge.Culprits
import ImportBlock.Proofs.Fragment
import ImportBlock.Proofs.Legality
import ImportBlock.Proofs.Text.Position
import ImportBlock.Proofs.TokenOrder
import ImportBlock.Proofs.Viable
import ImportBlock.Proofs.Statement.Refusal
import ImportBlock.Proofs.BlockComment
import ImportBlock.Proofs.Gap
import ImportBlock.Proofs.Statement.Block
import ImportBlock.Proofs.Merge.Shape
import ImportBlock.Proofs.Diff.Record
import ImportBlock.Proofs.Diff.Hunk
import ImportBlock.Proofs.Diff.Patch
import ImportBlock.Proofs.Diff.Diagonal
import ImportBlock.Proofs.Diff.Unchanged
import ImportBlock.Proofs.Config.Name
import ImportBlock.Proofs.Config.Extension
import ImportBlock.Proofs.Grouping
import ImportBlock.Proofs.Statement.LookAhead
