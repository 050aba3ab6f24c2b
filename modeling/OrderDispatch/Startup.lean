import OrderDispatch.Failure

/-!
# Failures to start

Why the service did not come up, by the part of it that failed.
-/

namespace OrderDispatch

/-- Why the service did not start. -/
inductive StartupError where
  | storage (error : StoreError)
  | ledger (error : LedgerError)
  | directory (error : DirectoryError)
  | io (detail : String)
  | internal (detail : String)
deriving DecidableEq

namespace StartupError

/-- The text of a failure to start. -/
def message : StartupError → String
  | storage error => "订单存储初始化失败: " ++ error.message
  | ledger error => "账本初始化失败: " ++ error.message
  | directory error => "服务商目录初始化失败: " ++ error.message
  | io detail => "IO 错误: " ++ detail
  | internal detail => "内部服务器错误: " ++ detail

/-- The failure to start with the same part at fault as in the failure of an operation, if there is
such a part. -/
def ofFailure? : Failure → Option StartupError
  | .storage error => some (storage error)
  | .ledger error => some (ledger error)
  | .directory error => some (directory error)
  | _ => none

end StartupError

end OrderDispatch
