import ProgramTrees.BinaryArithmetic
import ProgramTrees.DiagnosticLog
import ProgramTrees.Main
import ProgramTrees.Session
import ProgramTrees.Proofs.Outcome
import ProgramTrees.Proofs.Subterms
import ProgramTrees.Proofs.TypeSoundness
import ProgramTrees.Proofs.Budget
import ProgramTrees.Proofs.Environment
import ProgramTrees.Proofs.ExpressionRefinement
import ProgramTrees.Proofs.ProgramRefinement
import ProgramTrees.Proofs.NumberCharacters
import ProgramTrees.Proofs.DefiniteAssignment
import ProgramTrees.Proofs.Judgement
import ProgramTrees.Proofs.ExpressionChecking
import ProgramTrees.Proofs.ProgramChecking
import ProgramTrees.Proofs.Rounding
import ProgramTrees.Proofs.ShortestDecimal
import ProgramTrees.Proofs.NumeralReading
import ProgramTrees.Proofs.Grammar
import ProgramTrees.Proofs.Parser
import ProgramTrees.Proofs.Lexing
import ProgramTrees.Proofs.PrintedExpressions
import ProgramTrees.Proofs.SourceCharacters
import ProgramTrees.Proofs.TextLiterals
import ProgramTrees.Proofs.StatementContexts
import ProgramTrees.Proofs.JsonNumbers
import ProgramTrees.Proofs.JsonStrings
import ProgramTrees.Proofs.JsonValues
import ProgramTrees.Proofs.TreeRoundTrip
import ProgramTrees.Proofs.TreeDecoding
import ProgramTrees.Proofs.TreeObjects
import ProgramTrees.Proofs.CanonicalObjects
import ProgramTrees.Proofs.DecodingOrder
import ProgramTrees.Proofs.FaultPlaces
import ProgramTrees.Proofs.OperandConversions
import ProgramTrees.Proofs.LenientRuns
import ProgramTrees.Proofs.IntegerRounding
import ProgramTrees.Proofs.DumpedTrees
import ProgramTrees.Proofs.Renumbering
import ProgramTrees.Proofs.Flattening
import ProgramTrees.Proofs.StatementReading
import ProgramTrees.Proofs.EqualSource
import ProgramTrees.Proofs.FewestParentheses
import ProgramTrees.Proofs.WrappedPolynomials
import ProgramTrees.Proofs.CheckingMoments
import ProgramTrees.Proofs.DiagnosticBlocks
import ProgramTrees.Proofs.TruncatedDivision
import ProgramTrees.Proofs.EditScripts
import ProgramTrees.Proofs.SuggestionRanking
import ProgramTrees.Proofs.LengthShortcut
import ProgramTrees.Proofs.FewestDigits
import ProgramTrees.Proofs.PrintedValues
import ProgramTrees.Proofs.LiteralDenotation
import ProgramTrees.Proofs.LineLayout
import ProgramTrees.Proofs.Countdown
