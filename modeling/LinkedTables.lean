import LinkedTables.Brushing.Link
import LinkedTables.Csv.Files
import LinkedTables.Exchange.Cells
import LinkedTables.Exchange.Settings
import LinkedTables.Exchange.Summaries
import LinkedTables.Proofs.KindInference
import LinkedTables.Proofs.RowAppend
import LinkedTables.Proofs.ColumnContents
import LinkedTables.Proofs.RowByRow
import LinkedTables.Proofs.CsvRecords
import LinkedTables.Proofs.CsvOffences
import LinkedTables.Proofs.IndexUpdate
import LinkedTables.Proofs.CsvReading
import LinkedTables.Proofs.RowMatching
import LinkedTables.Proofs.Operations
import LinkedTables.Proofs.ChangeTracking
import LinkedTables.Proofs.SharedIdentity
import LinkedTables.Proofs.TextBytes
import LinkedTables.Proofs.CsvWriting
import LinkedTables.Proofs.CsvRendering
import LinkedTables.Proofs.NumberRounding
import LinkedTables.Proofs.NumberTexts
import LinkedTables.Proofs.CellTexts
import LinkedTables.Proofs.KindChoice
import LinkedTables.Proofs.ShownCells
import LinkedTables.Proofs.CsvRoundTrip
import LinkedTables.Proofs.OwnChannel
import LinkedTables.Proofs.FilterOrder
import LinkedTables.Proofs.GreatestIdentity
import LinkedTables.Proofs.IndexColumns
import LinkedTables.Proofs.StableIdentities
import LinkedTables.Proofs.IndexLength
import LinkedTables.Proofs.CategoryTable
import LinkedTables.Proofs.Construction
import LinkedTables.Proofs.CurrentRanges
import LinkedTables.Proofs.AppendedRows
import LinkedTables.Proofs.PlainIntegers
import LinkedTables.Proofs.TextTables
import LinkedTables.Proofs.DocumentTexts
import LinkedTables.Proofs.TargetNames
import LinkedTables.Proofs.RefusedOperations
import LinkedTables.Proofs.RenderedCells
import LinkedTables.Proofs.IndexAlignment
import LinkedTables.Proofs.SettingsDocuments
import LinkedTables.Proofs.CellDocuments
import LinkedTables.Proofs.SummaryDocuments
import LinkedTables.Proofs.NextIdentities
import LinkedTables.Proofs.GuessedTables
import LinkedTables.Proofs.KindWidening
import LinkedTables.Proofs.ShortestDecimals
import LinkedTables.Proofs.ShownIntegers
import LinkedTables.Proofs.IntegersWithGaps
import LinkedTables.Proofs.RowTranslation
import LinkedTables.Proofs.RepeatedIdentities
import LinkedTables.Proofs.NumeralCharacters
import LinkedTables.Proofs.VectorTexts
import LinkedTables.Proofs.CategoryPreviews
import LinkedTables.Proofs.IdentityExtents
import LinkedTables.Proofs.FiniteCells
import LinkedTables.Proofs.OmittedColumns
