import OrderDispatch.Failure

/-!
# Failures in responses

A failure as a caller over HTTP gets to see it: there is one kind of problem for each class of
failures, and the text of an internal one stays inside.
-/

namespace OrderDispatch

/-- A failure on its way into a response. -/
inductive ApiProblem where
  | validation (detail : String)
  | notFound (detail : String)
  | forbidden (detail : String)
  | failedPrecondition (detail : String)
  | internal (detail : String)
deriving DecidableEq

namespace ApiProblem

/-- The problem that the failure of an operation is for its caller, with the text of the failure. -/
def ofFailure (f : Failure) : ApiProblem :=
  match f.code with
  | .invalidArgument => validation f.message
  | .notFound => notFound f.message
  | .permissionDenied => forbidden f.message
  | .failedPrecondition => failedPrecondition f.message
  | .internal => internal f.message

/-- The class of a problem. -/
def code : ApiProblem → ErrorCode
  | validation _ => .invalidArgument
  | notFound _ => .notFound
  | forbidden _ => .permissionDenied
  | failedPrecondition _ => .failedPrecondition
  | internal _ => .internal

/-- The text of a problem for the log. -/
def message : ApiProblem → String
  | validation detail => "Validation failed: " ++ detail
  | notFound detail => "Resource not found: " ++ detail
  | forbidden detail => "Permission denied: " ++ detail
  | failedPrecondition detail => "Failed precondition: " ++ detail
  | internal detail => "Internal server error: " ++ detail

/-- The text of a problem for the caller. -/
def publicMessage : ApiProblem → String
  | validation detail | notFound detail | forbidden detail | failedPrecondition detail => detail
  | internal _ => "Internal server error"

/-- The body of the response. -/
def body (p : ApiProblem) : Json :=
  .record [("code", .text p.code.name), ("message", .text p.publicMessage)]

/-- The status of the response. -/
def httpStatus (p : ApiProblem) : Nat := p.code.httpStatus

end ApiProblem

end OrderDispatch
