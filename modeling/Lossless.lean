import Lossless.Command.Arguments
import Lossless.Command.Check
import Lossless.Command.Configuration
import Lossless.Command.Format
import Lossless.Command.Invocation
import Lossless.Command.Run
import Lossless.Command.Session
import Lossless.Command.Summary
import Lossless.Config.Field
import Lossless.Config.Json
import Lossless.Config.Loader
import Lossless.Config.Reader
import Lossless.Config.Sections
import Lossless.Config.Settings
import Lossless.Config.Toml
import Lossless.Config.Toml.Bare
import Lossless.Config.Toml.Table
import Lossless.Config.Toml.Written
import Lossless.Config.Value
import Lossless.Config.Yaml
import Lossless.Config.Yaml.BlockText
import Lossless.Config.Yaml.FlowText
import Lossless.Config.Yaml.Glyph
import Lossless.Config.Yaml.Layout
import Lossless.Config.Yaml.Node
import Lossless.Config.Yaml.Tag
import Lossless.Cursor
import Lossless.Cursor.Forest
import Lossless.Diff.Lines
import Lossless.Diff.Shortest
import Lossless.Diff.Sliding
import Lossless.Error
import Lossless.Files.Access
import Lossless.Files.Discovery
import Lossless.Files.Pattern
import Lossless.Files.Snapshot
import Lossless.Format.Auto
import Lossless.Format.Indentation
import Lossless.Format.Indents
import Lossless.Format.LineEnds
import Lossless.Format.Pass
import Lossless.Format.Separate
import Lossless.Format.Spacing
import Lossless.Identity
import Lossless.Java.Grammar.Expression
import Lossless.Java.Grammar.Lexeme
import Lossless.Java.Grammar.Statement
import Lossless.Java.Language
import Lossless.Java.Node
import Lossless.Java.Operator
import Lossless.Java.Pieces
import Lossless.Java.Place
import Lossless.Java.Tree
import Lossless.Java.Visitor
import Lossless.Json.Grammar
import Lossless.Json.Language
import Lossless.Json.Node
import Lossless.Json.Pieces
import Lossless.Json.Tree
import Lossless.Json.Visitor
import Lossless.Language
import Lossless.Main
import Lossless.Marker
import Lossless.Message
import Lossless.Number
import Lossless.Padding
import Lossless.Parse
import Lossless.Path
import Lossless.Piece
import Lossless.Proofs.Command.Format
import Lossless.Proofs.Config.Layering
import Lossless.Proofs.Config.Resolved
import Lossless.Proofs.Cursor.Forks
import Lossless.Proofs.Files.Reading
import Lossless.Proofs.Files.Snapshot
import Lossless.Proofs.Format.Aligned
import Lossless.Proofs.Format.CommentBody
import Lossless.Proofs.Format.Comments
import Lossless.Proofs.Format.Cut
import Lossless.Proofs.Format.Depth
import Lossless.Proofs.Format.Feeds
import Lossless.Proofs.Format.Fixpoint.Formatting
import Lossless.Proofs.Format.Gaps
import Lossless.Proofs.Format.Governed
import Lossless.Proofs.Format.Hooks
import Lossless.Proofs.Format.Idempotent
import Lossless.Proofs.Format.LineBreaks
import Lossless.Proofs.Format.Plain
import Lossless.Proofs.Format.Program
import Lossless.Proofs.Format.Regaps
import Lossless.Proofs.Format.Spaced
import Lossless.Proofs.Format.Stable
import Lossless.Proofs.Format.StopAfter
import Lossless.Proofs.Format.TextInvariant
import Lossless.Proofs.Format.TrailingBlanks
import Lossless.Proofs.Format.Untouched
import Lossless.Proofs.Gap.Agreement
import Lossless.Proofs.Gap.Closed
import Lossless.Proofs.Gap.Inverse
import Lossless.Proofs.Gap.Reading
import Lossless.Proofs.Java.Between
import Lossless.Proofs.Java.Canonical
import Lossless.Proofs.Java.Cases
import Lossless.Proofs.Java.Complete.Chain
import Lossless.Proofs.Java.Complete.Expression
import Lossless.Proofs.Java.Complete.List
import Lossless.Proofs.Java.Complete.Statement
import Lossless.Proofs.Java.Deletion
import Lossless.Proofs.Java.FirstWord
import Lossless.Proofs.Java.Lexeme
import Lossless.Proofs.Java.Normal.Expression
import Lossless.Proofs.Java.Normal.Statement
import Lossless.Proofs.Java.Normal.Unit
import Lossless.Proofs.Java.Numbered
import Lossless.Proofs.Java.Renaming
import Lossless.Proofs.Java.Reported
import Lossless.Proofs.Java.RoundTrip
import Lossless.Proofs.Java.Sound.Expression
import Lossless.Proofs.Java.Sound.Statement
import Lossless.Proofs.Java.Whole
import Lossless.Proofs.Java.Written
import Lossless.Proofs.Json.Edited
import Lossless.Proofs.Json.Rebuilt
import Lossless.Proofs.Json.Renaming
import Lossless.Proofs.Json.Reported
import Lossless.Proofs.Json.Standard
import Lossless.Proofs.Languages
import Lossless.Proofs.Layout.Bare
import Lossless.Proofs.Layout.Canonical
import Lossless.Proofs.Layout.Compose
import Lossless.Proofs.Layout.Copies
import Lossless.Proofs.Layout.Located
import Lossless.Proofs.Layout.Regapped
import Lossless.Proofs.Visit.Balance
import Lossless.Proofs.Visit.Failure
import Lossless.Proofs.Visit.Keeps
import Lossless.Proofs.Visit.Mirrored
import Lossless.Proofs.Visit.Queued
import Lossless.Proofs.Visit.Related
import Lossless.Proofs.Visit.Reported
import Lossless.Rule
import Lossless.Space
import Lossless.Style
import Lossless.Text.Basic
import Lossless.Text.Characters
import Lossless.Text.Numeral
import Lossless.Text.Ranges
import Lossless.Text.Utf8
import Lossless.Visit
import Lossless.Word
