import JsonTint.Ansi.Decode
import JsonTint.CommandLine.Items
import JsonTint.CommandLine.Meaning
import JsonTint.CommandLine.Stages
import JsonTint.Html.Fragment
import JsonTint.Html.Tags
import JsonTint.Json.Grammar
import JsonTint.Json.Scan
import JsonTint.Main
import JsonTint.Sink
import JsonTint.StyleSheets.History
import JsonTint.Sink.Calls
import JsonTint.Color.Bytes
import JsonTint.Color.Spelling
import JsonTint.Text.Boundary
import JsonTint.Tokenizer.Plain
import JsonTint.Proofs.Config.Frame
import JsonTint.Proofs.Cursor.Movement
import JsonTint.Proofs.Pattern.Ends
import JsonTint.Proofs.Pattern.Greedy
import JsonTint.Proofs.Matcher.Search
import JsonTint.Proofs.Matcher.Leftmost
import JsonTint.Proofs.Tokenizer.LazyScan
import JsonTint.Proofs.Segment.Merge
import JsonTint.Proofs.Tokenizer.Tiling
import JsonTint.Tokenizer.Scan
import JsonTint.Proofs.Tokenizer.Progress
import JsonTint.Proofs.Tokenizer.Offsets
import JsonTint.Proofs.Tokenizer.Order
import JsonTint.Proofs.Tokenizer.EmptyMatches
import JsonTint.Proofs.Tokenizer.Priorities
import JsonTint.Proofs.Tokenizer.StableSort
import JsonTint.Proofs.Html.Escape
import JsonTint.Proofs.Html.Unescape
import JsonTint.Proofs.Html.Lossless
import JsonTint.Proofs.Html.Escaped
import JsonTint.Proofs.Html.Markup
import JsonTint.Proofs.Json.Lexeme
import JsonTint.Proofs.Json.Shapes
import JsonTint.Proofs.Json.Scan
import JsonTint.Proofs.Json.Lex
import JsonTint.Proofs.Json.Escaping
import JsonTint.Proofs.Json.Spelling
import JsonTint.Proofs.Json.ExactLexing
import JsonTint.Proofs.Page.Skeleton
import JsonTint.Proofs.StyleSheets.History
import JsonTint.Proofs.Segment.Wrap
import JsonTint.Proofs.Json.Characters
import JsonTint.Proofs.Ansi.Sequence
import JsonTint.Proofs.Ansi.Faithful
import JsonTint.Proofs.Ansi.Bounded
import JsonTint.Proofs.Json.Truncation
import JsonTint.Proofs.Json.Splitting
import JsonTint.Proofs.CommandLine.Stages
import JsonTint.Proofs.CommandLine.Meaning
import JsonTint.Proofs.Text.Spelling
import JsonTint.Proofs.Color.Reading
import JsonTint.Config.Values
import JsonTint.Proofs.Config.Values
import JsonTint.Config.Shape
import JsonTint.Toml.Names
import JsonTint.Proofs.Text.Reader
import JsonTint.Proofs.Toml.Tree
import JsonTint.Proofs.Toml.Distinct
import JsonTint.Proofs.Toml.Order
import JsonTint.Proofs.Config.Faults
import JsonTint.Proofs.Config.Shape
