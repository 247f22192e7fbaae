import SlotText.Style.Strip
import SlotText.Cursor
import SlotText.LazyText
import SlotText.Stream
import SlotText.Diagnostic.Output
import SlotText.Value.Operand
import SlotText.Proofs.Outcome
import SlotText.Proofs.Specifier.Grammar
import SlotText.Proofs.Specifier.Stages
import SlotText.Proofs.Specifier.Reading
import SlotText.Proofs.Specifier.Fused
import SlotText.Proofs.Numeral.Decimal
import SlotText.Proofs.Specifier.Written
import SlotText.Proofs.References
import SlotText.Proofs.Renderer.Calls
import SlotText.Proofs.Template.Slots
import SlotText.Proofs.Rendering.BySlot
import SlotText.Proofs.BlueprintCache.Recency
import SlotText.Proofs.Renderer.Uncached
import SlotText.Proofs.Specifier.Refused
import SlotText.Proofs.Template.Partition
import SlotText.Proofs.Value.Writable
import SlotText.Proofs.Binary64.Magnitude
import SlotText.Proofs.Number.Converted
import SlotText.Proofs.Value.Layout
import SlotText.Proofs.Rendering.Settled
import SlotText.Proofs.Rendering.Pieces
import SlotText.Proofs.Rendering.Resolved
import SlotText.Proofs.Rendering.Verbatim
import SlotText.Proofs.Specifier.Extended
import SlotText.Proofs.Template.Groups
import SlotText.Proofs.Template.Joined
import SlotText.Proofs.Rendering.Joined
import SlotText.Proofs.Specifier.Inlined
import SlotText.Proofs.Rendering.Inlined
import SlotText.Proofs.Style.Shown
import SlotText.Proofs.Number.Signed
import SlotText.Proofs.Value.Padded
import SlotText.Proofs.Rendering.Forms
import SlotText.Proofs.Value.Unformatted
import SlotText.Proofs.Rendering.Blamed
import SlotText.Proofs.Numeral.Expansion
import SlotText.Proofs.Decimal.Rational
import SlotText.Proofs.Binary64.Parts
import SlotText.Proofs.Binary64.Rounding
import SlotText.Proofs.Number.Expanded
import SlotText.Proofs.Decimal.Placed
import SlotText.Proofs.Decimal.ReadBack
import SlotText.Proofs.Decimal.Scientific
import SlotText.Proofs.Value.Truncated
import SlotText.Proofs.Value.Restored
import SlotText.Proofs.Rendering.Supplied
import SlotText.Proofs.Value.Inert
import SlotText.Proofs.Specifier.Halted
import SlotText.Proofs.Decimal.Nearest
import SlotText.Proofs.Value.Ordinal
import SlotText.Proofs.LazyText.Remembered
import SlotText.Proofs.Stream.Written
import SlotText.Proofs.Text.Inline
import SlotText.Proofs.Value.Legible
import SlotText.Proofs.Rendering.Reported
import SlotText.Proofs.Supply.Accesses
import SlotText.Proofs.Style.Unstyled
import SlotText.Proofs.Diagnostic.Bounded
import SlotText.Proofs.Diagnostic.Decoded
import SlotText.Proofs.Number.Canonical
import SlotText.Proofs.Cursor.Moves
