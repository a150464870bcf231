import Stencil.Text.Blank
import Stencil.Text.Case
import Stencil.Text.Quoted
import Stencil.Text.Tokens
import Stencil.Recency.Slab
import Stencil.Recency.Links
import Stencil.Recency.List
import Stencil.Recency.Thread
import Stencil.Recency
import Stencil.Value.Compare
import Stencil.Value.Dump
import Stencil.Member.Builtin
import Stencil.Member.Resolver
import Stencil.Template.Parse
import Stencil.Render.Evaluate
import Stencil.Json.Document
import Stencil.Json.Value
import Stencil.CommandLine
import Stencil.Main
import Stencil.Proofs.Comparison
import Stencil.Proofs.SmallForm
import Stencil.Proofs.Entries
import Stencil.Proofs.Recency
import Stencil.Proofs.RecencyRuns
import Stencil.Proofs.Registry
import Stencil.Proofs.Reading
import Stencil.Proofs.Lexemes
import Stencil.Proofs.Numerals
import Stencil.Proofs.Formula
import Stencil.Proofs.Resolution
import Stencil.Proofs.MapReading
import Stencil.Proofs.Operands
import Stencil.Proofs.Printing
import Stencil.Proofs.Footprint
import Stencil.Proofs.SideBySide
import Stencil.Proofs.Alike
import Stencil.Proofs.History
import Stencil.Proofs.Bindings
import Stencil.Proofs.CanonicalText
import Stencil.Proofs.Strictness
import Stencil.Proofs.TreePaths
import Stencil.Proofs.Narrowing
import Stencil.Proofs.Fitting
import Stencil.Proofs.Limits
import Stencil.Proofs.TreeBounds
import Stencil.Proofs.OperandErrors
import Stencil.Proofs.Delivery
import Stencil.Proofs.Sharing
import Stencil.Proofs.Interpolation
import Stencil.Proofs.StringLiterals
import Stencil.Proofs.Extents
import Stencil.Proofs.Staying
import Stencil.Proofs.MapGrammar
import Stencil.Proofs.Positions
import Stencil.Proofs.Acceptance
import Stencil.Proofs.Comments
import Stencil.Proofs.BlockEnds
import Stencil.Proofs.Verbatim
import Stencil.Proofs.IntegerArithmetic
import Stencil.Proofs.Rounding
import Stencil.Proofs.Ranking
import Stencil.Proofs.NestedText
import Stencil.Proofs.NestedReading
import Stencil.Proofs.ReferenceValues
import Stencil.Proofs.IntegerRounding
import Stencil.Proofs.Tokens
import Stencil.Proofs.TextComparison
import Stencil.Proofs.Dumps
import Stencil.Proofs.Cutting
import Stencil.Proofs.Rereading
import Stencil.Proofs.NormalForm
import Stencil.Proofs.Spans
import Stencil.Proofs.MemberBounds
import Stencil.Proofs.FailingSink
import Stencil.Proofs.GeneralText
import Stencil.Proofs.Declarations
import Stencil.Proofs.MapBlanks
import Stencil.Proofs.ValueSlices
import Stencil.Proofs.BindingLog
import Stencil.Proofs.ValueDepth
