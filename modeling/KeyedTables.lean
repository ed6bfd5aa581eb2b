import KeyedTables.Proofs.Catalog.LocalNames
import KeyedTables.Proofs.Catalog.Updates
import KeyedTables.Proofs.Evaluation.Comparison
import KeyedTables.Proofs.Evaluation.Deferred
import KeyedTables.Proofs.Evaluation.Effects
import KeyedTables.Proofs.Evaluation.Progress
import KeyedTables.Proofs.Evaluation.Resolution
import KeyedTables.Proofs.Evaluation.Visits
import KeyedTables.Proofs.Expr.RowVariables
import KeyedTables.Proofs.Form.Concatenation
import KeyedTables.Proofs.Form.Nesting
import KeyedTables.Proofs.Session.Anchored
import KeyedTables.Proofs.Session.Definitions
import KeyedTables.Proofs.Session.Snapshots
import KeyedTables.Proofs.Snapshot.Bounds
import KeyedTables.Proofs.Snapshot.Corruption
import KeyedTables.Proofs.Snapshot.Extension
import KeyedTables.Proofs.Table.Access
import KeyedTables.Proofs.Table.BucketCount
import KeyedTables.Proofs.Table.Construction
import KeyedTables.Proofs.Table.Entries
import KeyedTables.Proofs.Table.Reload
