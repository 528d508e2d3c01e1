import Infill.Prepare
import Infill.Proofs.Run.HeldBack
import Infill.Proofs.Run.Observed
import Infill.Proofs.Run.Roster
import Infill.Run
import Infill.Scalar.Double
import Infill.Proofs.Table.SliceVeil
import Infill.Proofs.Run.SliceIsolation
import Infill.Proofs.Impute.HeldOut
import Infill.Proofs.Impute.Runs
import Infill.Proofs.Impute.Ledger
import Infill.Proofs.Impute.Reasons
import Infill.Proofs.Impute.Accounts
import Infill.Proofs.Scalar.Exact
import Infill.Proofs.Scalar.Order
import Infill.Proofs.Table.RoundTrip
import Infill.Proofs.Table.Sheet
import Infill.Proofs.Refitting
import Infill.Proofs.Search.Budget
import Infill.Proofs.Series.LoneForecast
import Infill.Proofs.Table.RowOrder
import Infill.Proofs.Run.RowOrder
import Infill.Proofs.Reachable
import Infill.Proofs.Scalar.Sorting
import Infill.Proofs.Series.Integration
import Infill.Proofs.Series.Horizon
import Infill.Proofs.Series.Trend
import Infill.Proofs.Tree.Cut
import Infill.Proofs.Tree.Nodes
import Infill.Proofs.Tree.Growth
import Infill.Proofs.Linear.Definite
import Infill.Proofs.Linear.NormalEquations
import Infill.Proofs.Scalar.SquaredError
import Infill.Proofs.Tree.BestCut
import Infill.Proofs.Tree.Depth
import Infill.Proofs.Tree.Bootstrap
import Infill.Proofs.Tree.Range
import Infill.Proofs.Impute.Asked
import Infill.Proofs.Impute.Overlay
import Infill.Proofs.Impute.Alignment
import Infill.Proofs.Folds
import Infill.Proofs.Impute.SmallSplit
import Infill.Proofs.Search.Draws
import Infill.Proofs.Series.ColumnOrder
import Infill.Proofs.Search.FirstBest
import Infill.Proofs.Prepare.TailKeys
import Infill.Proofs.Table.Covariates
import Infill.Proofs.Impute.AllOrNothing
import Infill.Proofs.Prepare.Normalized
import Infill.Proofs.Table.NamedGroups
import Infill.Proofs.Table.Encoding
import Infill.Proofs.Score
import Infill.Proofs.Series.TwoStages
