/-!
# Failures of the stores

What can fail in the database below the tables, by the stage at which it fails, and what can fail in
the order store.
-/

namespace OrderDispatch

/-- A stage of a database access. -/
inductive DatabaseStage where
  | opening
  | transaction
  | table
  | access
  | commit
deriving DecidableEq, Repr

/-- A failure of the database. -/
structure DatabaseFault where
  stage : DatabaseStage
  detail : String
deriving DecidableEq, Repr

/-- The text of a failure of the database. -/
def DatabaseFault.message (f : DatabaseFault) : String :=
  match f.stage with
  | .opening => "Database error: " ++ f.detail
  | .transaction => "Transaction error: " ++ f.detail
  | .table => "Table error: " ++ f.detail
  | .access => "Storage error: " ++ f.detail
  | .commit => "Commit error: " ++ f.detail

/-- Why the order store did not answer. -/
inductive StoreError where
  | database (fault : DatabaseFault)
  | serialization (detail : String)
  | orderNotFound (orderId : String)
  | orderExists (orderId : String)
deriving DecidableEq

/-- The text of a failure of the order store. -/
def StoreError.message : StoreError → String
  | database fault => fault.message
  | serialization detail => "Serialization error: " ++ detail
  | orderNotFound id => "Order not found: " ++ id
  | orderExists id => "Order already exists: " ++ id

end OrderDispatch
