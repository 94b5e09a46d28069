import BootSector.Assembler
import BootSector.Bytes
import BootSector.Command.Definition
import BootSector.Command.Options
import BootSector.Command.Run
import BootSector.Event
import BootSector.Fault
import BootSector.FileStore
import BootSector.FileStore.Tree
import BootSector.Formula.Bits
import BootSector.Formula.Eval
import BootSector.Formula.Expr
import BootSector.Formula.Lexeme
import BootSector.Formula.Real
import BootSector.Formula.Real.Written
import BootSector.Formula.Value
import BootSector.Formula.Written
import BootSector.Image
import BootSector.Instruction
import BootSector.Instruction.Parse
import BootSector.LabelTable
import BootSector.Main
import BootSector.PathName
import BootSector.Predefine
import BootSector.Program
import BootSector.Program.Listing
import BootSector.Proofs.Counter
import BootSector.Proofs.Grammar
import BootSector.Proofs.Infix
import BootSector.Proofs.Jump
import BootSector.Proofs.Layout
import BootSector.Proofs.Placement
import BootSector.Proofs.Size
import BootSector.Proofs.Sweep
import BootSector.Reading
import BootSector.Register
import BootSector.Sequence
import BootSector.Sequence.Consumer
import BootSector.Settings
import BootSector.SourceText
import BootSector.Stack
import BootSector.Text.Blank
import BootSector.Text.Decimal
import BootSector.Text.Digit
import BootSector.Text.Graphic
import BootSector.Text.Layout
import BootSector.Text.Letter
import BootSector.Text.LowerCase
import BootSector.Text.Numeral
import BootSector.Text.Quoted
import BootSector.Text.Ranges
import BootSector.Text.Template
import BootSector.Text.Utf8
import BootSector.Token
import BootSector.Token.Arithmetic
import BootSector.Token.Scan
import BootSector.Toml.Document
import BootSector.Toml.Item
import BootSector.Toml.Quoted
import BootSector.Toml.Scalar
import BootSector.Proofs.Labels
import BootSector.Proofs.References
import BootSector.Proofs.Acceptance
import BootSector.Proofs.Locality
import BootSector.Proofs.Relocation
import BootSector.Proofs.Decoding
import BootSector.Proofs.Repetition
import BootSector.Proofs.Resumption
import BootSector.Proofs.Unrolling
import BootSector.Proofs.Strictness
import BootSector.Proofs.Lookup
import BootSector.Proofs.Derivation
import BootSector.Proofs.RoundTrip
import BootSector.Proofs.Rendering
import BootSector.Proofs.FirstFault
import BootSector.Proofs.SilentLines
import BootSector.Proofs.Noninterference
import BootSector.FileStore.PathMap
import BootSector.Proofs.Independence
import BootSector.Proofs.Predefinitions
import BootSector.Proofs.Literals
import BootSector.Proofs.LabelUse
import BootSector.Proofs.Padding
import BootSector.Proofs.Images
import BootSector.Proofs.Listings
import BootSector.Proofs.TrailingLayout
import BootSector.Proofs.Symbols
import BootSector.Proofs.Verbatim
import BootSector.Proofs.Splitting
import BootSector.Proofs.WellFormed
import BootSector.Proofs.Parentheses
import BootSector.Proofs.Radix
import BootSector.Proofs.Delivery
