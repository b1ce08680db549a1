import Jssql.Properties.RoundTrip
import Jssql.Properties.ReaderAgreement
import Jssql.Properties.RecordFraming
import Jssql.Properties.SelectedRows
import Jssql.Properties.PrimaryKeySelect
import Jssql.Properties.DeletedRows
import Jssql.Properties.PrimaryKeyDelete
import Jssql.Properties.UpdatedRows
import Jssql.Properties.UpdatedValues
import Jssql.Properties.UpdateAbort
import Jssql.Properties.WhereAgreement
import Jssql.Properties.LikePatterns
import Jssql.Properties.InsertedValues
import Jssql.Properties.WholeBatches
import Jssql.Properties.ImportedRows
import Jssql.Properties.NeverNull
import Jssql.Properties.ValidatorBounds
import Jssql.Properties.UniqueKeys
import Jssql.Properties.MapsInStep
import Jssql.Properties.IndexMaintenance
import Jssql.Properties.FailedStatements
import Jssql.Properties.TombstoneBound
import Jssql.Properties.CompactionExactness
import Jssql.Properties.InterruptedCompaction
import Jssql.Properties.ScanTermination
import Jssql.Properties.SchemaRestart
import Jssql.Properties.FailedCreate
import Jssql.Properties.UsableSchemas
import Jssql.Properties.SilentMode
import Jssql.Properties.NumericComparators
import Jssql.Properties.TruthTests
import Jssql.Properties.NumberLexemes
import Jssql.Properties.TruncatedFiles
import Jssql.Properties.LineInput
import Jssql.Properties.StatementSplitter
import Jssql.Properties.CsvRows
import Jssql.Properties.ParsedPrograms
import Jssql.Properties.Sessions
import Jssql.Properties.StoreRefinement
import Jssql.Properties.StoredSessions
import Jssql.Properties.TableIndependence
