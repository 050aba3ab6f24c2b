import OrderDispatch.Directory.Basic
import OrderDispatch.Ledger.Chain
import OrderDispatch.Store.Fault

/-!
# Failures and their classes

Why an operation on orders did not succeed, with a text for people, and the class that callers go
by. Of everything that can go wrong inside the service, only a missing order is the caller's
business; all the rest is internal.
-/

namespace OrderDispatch

/-! ## Classes -/

/-- The classes of failures. -/
inductive ErrorCode where
  | invalidArgument
  | notFound
  | permissionDenied
  | failedPrecondition
  | internal
deriving DecidableEq, Repr, Inhabited

namespace ErrorCode

/-- Every class. -/
def all : List ErrorCode :=
  [invalidArgument, notFound, permissionDenied, failedPrecondition, internal]

/-- The name of a class. -/
def name : ErrorCode → String
  | invalidArgument => "INVALID_ARGUMENT"
  | notFound => "NOT_FOUND"
  | permissionDenied => "PERMISSION_DENIED"
  | failedPrecondition => "FAILED_PRECONDITION"
  | internal => "INTERNAL"

/-- The status of an HTTP response about a failure of a class. -/
def httpStatus : ErrorCode → Nat
  | invalidArgument => 400
  | notFound => 404
  | permissionDenied => 403
  | failedPrecondition => 412
  | internal => 500

/-- Whether the caller could have avoided the failure. -/
def isClientError : ErrorCode → Bool
  | internal => false
  | _ => true

/-- The class with exactly this name. -/
def ofName? (s : String) : Option ErrorCode := all.find? (·.name == s)

instance : Coded ErrorCode where
  shape := .choice (all.map name)
  encode c := .text c.name
  decode? j := j.text?.bind ofName?

end ErrorCode

/-- The class of a failure of the order store. -/
def StoreError.code : StoreError → ErrorCode
  | orderNotFound _ => .notFound
  | _ => .internal

/-! ## Operations on orders -/

/-- Why an operation on orders did not succeed. -/
inductive Failure where
  | invalidArgument (detail : String)
  | orderNotFound (orderId : String)
  | noProvidersAvailable (orderId : String)
  | permissionDenied (orderId providerId : String)
  | failedPrecondition (detail : String)
  | storage (error : StoreError)
  | directory (error : DirectoryError)
  | ledger (error : LedgerError)
  | internal (detail : String)
deriving DecidableEq

namespace Failure

/-- The text of a failure. -/
def message : Failure → String
  | invalidArgument detail => "Invalid argument: " ++ detail
  | orderNotFound id => "Order not found: " ++ id
  | noProvidersAvailable id => "No providers available for order: " ++ id
  | permissionDenied orderId providerId =>
    "Provider " ++ providerId ++ " is not assigned to order " ++ orderId
  | failedPrecondition detail => "Failed precondition: " ++ detail
  | storage error => "Storage error: " ++ error.message
  | directory error => "Provider directory error: " ++ error.message
  | ledger error => "Ledger error: " ++ error.message
  | internal detail => "Internal error: " ++ detail

/-- The class of a failure. -/
def code : Failure → ErrorCode
  | invalidArgument _ => .invalidArgument
  | orderNotFound _ | noProvidersAvailable _ => .notFound
  | permissionDenied .. => .permissionDenied
  | failedPrecondition _ => .failedPrecondition
  | storage error => error.code
  | directory _ | ledger _ | internal _ => .internal

end Failure

end OrderDispatch
