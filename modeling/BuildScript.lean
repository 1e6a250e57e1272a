import BuildScript.Bazel.Documents
import BuildScript.Bazel.Options
import BuildScript.Conversion
import BuildScript.Data
import BuildScript.Error
import BuildScript.File.Disk
import BuildScript.File.Output
import BuildScript.File.Provider
import BuildScript.Grammar.Elements
import BuildScript.Grammar.Parser
import BuildScript.Grammar.Rules
import BuildScript.Keyword
import BuildScript.Message
import BuildScript.Model
import BuildScript.Model.Exchange
import BuildScript.Model.Extraction
import BuildScript.OrderedSet
import BuildScript.Outcome
import BuildScript.Path
import BuildScript.Proofs.Acceptance
import BuildScript.Proofs.Advance
import BuildScript.Proofs.AtomicWrite
import BuildScript.Proofs.Blame
import BuildScript.Proofs.BothDocuments
import BuildScript.Proofs.ClosedTexts
import BuildScript.Proofs.Completeness
import BuildScript.Proofs.Composition
import BuildScript.Proofs.Condensation
import BuildScript.Proofs.CondensedParsing
import BuildScript.Proofs.Derivation
import BuildScript.Proofs.DiskEffects
import BuildScript.Proofs.Ebnf
import BuildScript.Proofs.FirstOccurrences
import BuildScript.Proofs.FrameBalance
import BuildScript.Proofs.Grouping
import BuildScript.Proofs.Layout
import BuildScript.Proofs.LineColumns
import BuildScript.Proofs.LineComments
import BuildScript.Proofs.LineTable
import BuildScript.Proofs.Locations
import BuildScript.Proofs.Lossless
import BuildScript.Proofs.Meaning
import BuildScript.Proofs.ModelByKind
import BuildScript.Proofs.ModelStrings
import BuildScript.Proofs.NodeSpans
import BuildScript.Proofs.OpenStack
import BuildScript.Proofs.Outline
import BuildScript.Proofs.Pieces
import BuildScript.Proofs.Placement
import BuildScript.Proofs.Progress
import BuildScript.Proofs.Quoting
import BuildScript.Proofs.ReadBack
import BuildScript.Proofs.Recovery
import BuildScript.Proofs.Relocation
import BuildScript.Proofs.ReportOrder
import BuildScript.Proofs.Revival
import BuildScript.Proofs.Sentences
import BuildScript.Proofs.SetExchange
import BuildScript.Proofs.Siblings
import BuildScript.Proofs.Silence
import BuildScript.Proofs.Soundness
import BuildScript.Proofs.TokenBoundaries
import BuildScript.Proofs.TokenEnds
import BuildScript.Proofs.Untranslated
import BuildScript.Proofs.WrittenText
import BuildScript.Script
import BuildScript.Source
import BuildScript.Text.Bytes
import BuildScript.Text.Classes
import BuildScript.Text.Distance
import BuildScript.Text.Printable
import BuildScript.Text.Quoted
import BuildScript.Text.Utf8
import BuildScript.Token
import BuildScript.Token.Lexer
import BuildScript.TokenTree
import BuildScript.TokenTree.Dump
import BuildScript.TokenTree.Nesting
