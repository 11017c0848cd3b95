import HyperCard.Archive.Configuration
import HyperCard.Archive.Directory
import HyperCard.Archive.Error
import HyperCard.Archive.File
import HyperCard.Archive.TypeCode
import HyperCard.Archive.Version
import HyperCard.Block.Card
import HyperCard.Block.Directory
import HyperCard.Block.Stack
import HyperCard.Block.Table
import HyperCard.Bytes.Window
import HyperCard.CommandLine.Arguments
import HyperCard.CommandLine.Run
import HyperCard.Grammar.Literal
import HyperCard.Grammar.Matcher
import HyperCard.Grammar.Rule
import HyperCard.Main
import HyperCard.Number.Double
import HyperCard.Number.Hexadecimal
import HyperCard.Number.Shortest
import HyperCard.Number.Written
import HyperCard.Picture.BitmapBlock
import HyperCard.Picture.Decoder
import HyperCard.Picture.Instruction
import HyperCard.Picture.Raster
import HyperCard.Rectangle
import HyperCard.Report.Json
import HyperCard.Report.Outline
import HyperCard.Report.Stack
import HyperCard.Script.Command
import HyperCard.Script.Expression
import HyperCard.Script.Reference
import HyperCard.Script.Rules
import HyperCard.Script.Statement
import HyperCard.Text.CharacterClass
import HyperCard.Text.MacRoman
import HyperCard.Text.Printable
import HyperCard.Text.Quoted
import HyperCard.Text.RomanString
import HyperCard.Text.Spelling
import HyperCard.Proofs.Grammar.Language
import HyperCard.Proofs.Grammar.Reading
import HyperCard.Proofs.Grammar.Continuation
import HyperCard.Proofs.Grammar.Entry
import HyperCard.Proofs.Grammar.Spelling
import HyperCard.Proofs.Grammar.Attempt
import HyperCard.Proofs.Grammar.Recognition
import HyperCard.Proofs.Grammar.Denotation
import HyperCard.Proofs.Grammar.Folding
import HyperCard.Proofs.Grammar.Quoting
import HyperCard.Proofs.Grammar.Blanks
import HyperCard.Proofs.Script.Proper
import HyperCard.Proofs.Script.SmallLetters
import HyperCard.Proofs.Script.Spacing
import HyperCard.Proofs.Script.Constants
import HyperCard.Proofs.Script.Scan
import HyperCard.Proofs.Script.Operators
import HyperCard.Proofs.Number.Decimal
import HyperCard.Proofs.Script.Operand
import HyperCard.Proofs.Script.Chain
import HyperCard.Proofs.Script.Precedence
import HyperCard.Proofs.Picture.Delta
import HyperCard.Proofs.Picture.Stream
import HyperCard.Proofs.Picture.Words
import HyperCard.Proofs.Bytes.Window
import HyperCard.Proofs.Picture.Filling
import HyperCard.Proofs.Picture.Rows
import HyperCard.Proofs.Picture.Decoding
import HyperCard.Proofs.Picture.DeltaEncoding
import HyperCard.Proofs.Bytes.Contents
import HyperCard.Proofs.Archive.Layout
import HyperCard.Proofs.Archive.RoundTrip
import HyperCard.Proofs.Archive.Request
import HyperCard.Proofs.Archive.Settings
import HyperCard.Proofs.Archive.Caching
import HyperCard.Proofs.Bytes.Writing
import HyperCard.Proofs.Block.Layer
import HyperCard.Proofs.Script.Boundaries
import HyperCard.Proofs.Script.Values
import HyperCard.Proofs.Script.Words
import HyperCard.Proofs.Script.Readable
import HyperCard.Proofs.Script.Printed
import HyperCard.Proofs.Grammar.Taking
import HyperCard.Proofs.Grammar.Ending
import HyperCard.Proofs.Script.Canonical
import HyperCard.Proofs.Script.Phrases
import HyperCard.Proofs.Script.References
import HyperCard.Proofs.Script.Objects
import HyperCard.Proofs.Script.Quotation
import HyperCard.Proofs.Script.Commands
import HyperCard.Proofs.Picture.Steps
import HyperCard.Proofs.Picture.Position
import HyperCard.Proofs.Picture.Displacement
import HyperCard.Proofs.Picture.Layers
import HyperCard.Proofs.Block.Directory
import HyperCard.Proofs.Archive.Listing
import HyperCard.Proofs.Archive.CardOrder
import HyperCard.Proofs.Archive.Enumeration
import HyperCard.Proofs.Archive.Wholeness
import HyperCard.Proofs.Script.Statements
import HyperCard.Proofs.Bytes.Lengthening
import HyperCard.Proofs.Block.Generations
import HyperCard.Proofs.Block.Table
import HyperCard.Proofs.Archive.Strictness
import HyperCard.Proofs.Picture.Export
import HyperCard.Proofs.Picture.MaskBytes
import HyperCard.Proofs.Bytes.Cutting
import HyperCard.Proofs.Archive.Ring
import HyperCard.Proofs.Picture.Termination
import HyperCard.Proofs.Grammar.Termination
import HyperCard.Proofs.Picture.Changes
import HyperCard.Proofs.Picture.WholeRows
import HyperCard.Proofs.Picture.Spilling
import HyperCard.Proofs.Picture.Truncation
import HyperCard.Proofs.Block.DirectoryGenerations
import HyperCard.Proofs.Script.Numerals
import HyperCard.Proofs.Bytes.Overwriting
import HyperCard.Proofs.Block.Checksum
import HyperCard.Proofs.Block.StoredChecksum
import HyperCard.Proofs.Archive.Reporting
import HyperCard.Proofs.Archive.Repair
import HyperCard.Proofs.Script.Comments
import HyperCard.Proofs.Grammar.Writing
import HyperCard.Proofs.Grammar.Places
