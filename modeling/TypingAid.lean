import TypingAid.Block.Range
import TypingAid.Buffer.Operation
import TypingAid.Main
import TypingAid.Proofs.Block.Locality
import TypingAid.Proofs.Buffer.Sync
import TypingAid.Proofs.Edit.Weave
import TypingAid.Proofs.Line.Content
import TypingAid.Proofs.Line.NormalForm
import TypingAid.Proofs.Session.Follow
import TypingAid.Proofs.Line.Tidy
import TypingAid.Proofs.Rule.FirstMatch
import TypingAid.Proofs.Buffer.Keystroke
import TypingAid.Proofs.Line.Extend
import TypingAid.Proofs.Line.AtEnd
import TypingAid.Proofs.Line.Unmarked
import TypingAid.Proofs.Block.Article
import TypingAid.Proofs.Block.Extent
import TypingAid.Proofs.Line.Reach
import TypingAid.Proofs.Buffer.Typing
import TypingAid.Proofs.Line.Strict
import TypingAid.Proofs.Session.Setting
import TypingAid.Proofs.Buffer.Undo
import TypingAid.Proofs.Rule.Substantial
import TypingAid.Proofs.Edit.Diff
import TypingAid.Proofs.Text.Units
import TypingAid.Proofs.Editor.Carry
import TypingAid.Proofs.Editor.Bookkeeping
import TypingAid.Proofs.Editor.Mirror
import TypingAid.Proofs.Session.OneLine
import TypingAid.Proofs.Session.Behind
import TypingAid.Proofs.Buffer.Format
import TypingAid.Proofs.Json.Order
import TypingAid.Proofs.Json.Printer
import TypingAid.Proofs.Json.Reader
import TypingAid.Proofs.Storage.Disk
import TypingAid.Proofs.Keys.Chord
import TypingAid.Proofs.Keys.Binding
import TypingAid.Proofs.Settings.Fields
import TypingAid.Proofs.Settings.App
import TypingAid.Proofs.Settings.Load
import TypingAid.Proofs.Settings.Valid
import TypingAid.Proofs.Keys.Conflict
import TypingAid.Proofs.App.Restart
import TypingAid.Proofs.Json.Equality
import TypingAid.Proofs.Json.RoundTrip
import TypingAid.Proofs.Buffer.Pair
import TypingAid.Proofs.Line.CapitalPlace
import TypingAid.Proofs.Line.Partial
import TypingAid.Proofs.Inline.Partial
import TypingAid.Proofs.Line.Steps
import TypingAid.Proofs.Edit.View
import TypingAid.Proofs.Buffer.CodeBlock
import TypingAid.Proofs.Settings.Merge
import TypingAid.Proofs.Text.Position
import TypingAid.Proofs.Inline.Pattern
import TypingAid.Proofs.Text.Utf16
import TypingAid.Proofs.Inline.Partition
