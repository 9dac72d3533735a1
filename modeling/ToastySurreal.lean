import ToastySurreal.Lib.Parentheses
import ToastySurreal.Types
import ToastySurreal.Proof.Codec
import ToastySurreal.Proof.DataMigration
import ToastySurreal.Lib.Catalog
import ToastySurreal.Lib.Lists
import ToastySurreal.Proof.IndexMigration
import ToastySurreal.RecordId
import ToastySurreal.Expr
import ToastySurreal.Proof.Grouping
import ToastySurreal.Lib.Prog
import ToastySurreal.Query
import ToastySurreal.Conn
import ToastySurreal.Op.Write
import ToastySurreal.Driver
import ToastySurreal.Database
import ToastySurreal.Store
import ToastySurreal.Proof.Rows
import ToastySurreal.Proof.WriteRead
import ToastySurreal.Proof.Routing
import ToastySurreal.Proof.Atomicity
import ToastySurreal.Proof.Transactions
import ToastySurreal.Proof.Parameters
import ToastySurreal.Proof.Returning
import ToastySurreal.Proof.UpsertFrame
import ToastySurreal.Lib.Keyset
import ToastySurreal.Proof.Pagination
import ToastySurreal.Callers
import ToastySurreal.Proof.Tracking
import ToastySurreal.Predicate
import ToastySurreal.Proof.Nulls
import ToastySurreal.Proof.Guards
import ToastySurreal.Proof.Ignore
import ToastySurreal.Proof.Session
import ToastySurreal.Numbers
import ToastySurreal.Proof.Updates
import ToastySurreal.Proof.IndexPath
import ToastySurreal.Proof.OneRecord
import ToastySurreal.Proof.Shape
import ToastySurreal.Proof.RoundTrip
import ToastySurreal.Proof.Arithmetic
import ToastySurreal.Proof.Templates
import ToastySurreal.Proof.KeyedWrites
import ToastySurreal.Proof.UpsertCreates
import ToastySurreal.Proof.Absence
import ToastySurreal.Proof.IsNone
import ToastySurreal.Lib.Holes
import ToastySurreal.Proof.Layout
import ToastySurreal.Proof.Placeholders
import ToastySurreal.Proof.Lockstep
import ToastySurreal.Proof.KeyGuard
import ToastySurreal.Proof.Paging
import ToastySurreal.Proof.KeyQuery
import ToastySurreal.Lib.Lexing
import ToastySurreal.Proof.Identifiers
import ToastySurreal.Lib.Numerals
import ToastySurreal.Proof.TrackingIds
import ToastySurreal.Proof.Classification
import ToastySurreal.Proof.KeyFields
import ToastySurreal.Proof.Hints
import ToastySurreal.Proof.Refusals
import ToastySurreal.Proof.Disclosure
import ToastySurreal.Lib.Scan
import ToastySurreal.Lib.Traces
import ToastySurreal.Lib.Simulation
import ToastySurreal.Sessions
import ToastySurreal.Proof.Serializable
import ToastySurreal.Proof.TableMap
import ToastySurreal.Proof.Deeds
import ToastySurreal.Proof.Refinement
import ToastySurreal.Proof.SchemaCatalog
import ToastySurreal.Proof.SchemaMigration
import ToastySurreal.Proof.Queries
import ToastySurreal.Handles
import ToastySurreal.Proof.SharedHandle
import ToastySurreal.Proof.ChangingPages
import ToastySurreal.Proof.Isolation
import ToastySurreal.Proof.Releases
import ToastySurreal.Proof.ReleasedRows
import ToastySurreal.Proof.KeyRaces
