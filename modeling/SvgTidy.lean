import SvgTidy.Cleanup.Preset
import SvgTidy.DataUri
import SvgTidy.Document.Edit
import SvgTidy.Document.Tree
import SvgTidy.Markup.Assembly
import SvgTidy.Markup.Layout
import SvgTidy.Options
import SvgTidy.Pass.Repeat
import SvgTidy.Proofs.AcceptedTexts
import SvgTidy.Proofs.AttributeAmendments
import SvgTidy.Proofs.BlamedReference
import SvgTidy.Proofs.CleanupOrder
import SvgTidy.Proofs.ColorMeaning
import SvgTidy.Proofs.Convergence
import SvgTidy.Proofs.DataUriDecoding
import SvgTidy.Proofs.DecodedReferences
import SvgTidy.Proofs.ErrorReports
import SvgTidy.Proofs.FlattenedGroups
import SvgTidy.Proofs.Histories
import SvgTidy.Proofs.HookOrder
import SvgTidy.Proofs.LayoutEquivalence
import SvgTidy.Proofs.LeadingDoctype
import SvgTidy.Proofs.Navigation
import SvgTidy.Proofs.NodeFilters
import SvgTidy.Proofs.Normality
import SvgTidy.Proofs.PassCount
import SvgTidy.Proofs.RecoloredDocuments
import SvgTidy.Proofs.RefusedMoves
import SvgTidy.Proofs.RemovalHooks
import SvgTidy.Proofs.Renderings
import SvgTidy.Proofs.ReportElision
import SvgTidy.Proofs.SharedCells
import SvgTidy.Proofs.Snapshots
import SvgTidy.Proofs.SparedNodes
import SvgTidy.Proofs.ThinnedTrees
import SvgTidy.Proofs.TokenBreaks
import SvgTidy.Proofs.TokenPartition
import SvgTidy.Proofs.Truncation
import SvgTidy.Proofs.VisitCoverage
