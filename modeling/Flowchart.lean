import Flowchart.Main
import Flowchart.Proofs.Composition
import Flowchart.Proofs.Keywords
import Flowchart.Proofs.Streaming
import Flowchart.Proofs.Withdrawal
import Flowchart.Proofs.BareStreams
import Flowchart.Proofs.LabelQuoting
import Flowchart.Proofs.TitleQuoting
import Flowchart.Proofs.OpeningLines
import Flowchart.Proofs.Sanitizing
import Flowchart.Proofs.SanitizedMeaning
import Flowchart.Proofs.Meaning
import Flowchart.Proofs.Statements
import Flowchart.Proofs.Reading
import Flowchart.Proofs.QuotedLabels
import Flowchart.Proofs.QuotedChains
import Flowchart.Proofs.QuotedTitles
import Flowchart.Proofs.EdgeScopes
import Flowchart.Proofs.StreamReports
import Flowchart.Proofs.StreamStates
import Flowchart.Proofs.Spellings
import Flowchart.Proofs.WrittenChains
import Flowchart.Proofs.ExactScalars
import Flowchart.Proofs.ComponentCoverage
import Flowchart.Proofs.Placements
import Flowchart.Proofs.SettledLayouts
import Flowchart.Proofs.ContentAreas
import Flowchart.Proofs.AddedEdges
import Flowchart.Proofs.StreamedRuns
import Flowchart.Proofs.CodePositions
import Flowchart.Proofs.BareLabels
import Flowchart.Proofs.QuotedLines
import Flowchart.Proofs.PunctuatedLabels
import Flowchart.Proofs.PunctuatedTitles
import Flowchart.Proofs.LeadingKeywords
import Flowchart.Proofs.Loosening
import Flowchart.Proofs.PreparedText
import Flowchart.Proofs.LabelledLinks
import Flowchart.Proofs.OpenGroups
import Flowchart.Proofs.BodyStatements
import Flowchart.Proofs.AccountedStatements
import Flowchart.Proofs.References
import Flowchart.Proofs.FirstDefinitions
import Flowchart.Proofs.LogicalLines
import Flowchart.Proofs.LineStatements
import Flowchart.Proofs.StatementSpans
import Flowchart.Proofs.SeparatedStatements
import Flowchart.Proofs.Remarks
import Flowchart.Proofs.CorrespondingLines
import Flowchart.Proofs.SkippedLines
import Flowchart.Proofs.Remainders
import Flowchart.Proofs.MentionSpans
import Flowchart.Proofs.DiagnosticSpans
import Flowchart.Proofs.CarriageReturns
import Flowchart.Proofs.LabelReturns
import Flowchart.Proofs.MarkupTags
import Flowchart.Proofs.StatementReturns
import Flowchart.Proofs.SourceReturns
import Flowchart.Proofs.Orientation
import Flowchart.Proofs.Separation
import Flowchart.Proofs.ComponentOrder
import Flowchart.Proofs.DirectionSymmetry
import Flowchart.Proofs.RankOrder
import Flowchart.Proofs.RenamedLayouts
import Flowchart.Proofs.Names
import Flowchart.Proofs.Climbing
import Flowchart.Proofs.KeywordPositions
import Flowchart.Proofs.ChunkSizes
