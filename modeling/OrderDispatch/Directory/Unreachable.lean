import OrderDispatch.Directory.Basic

/-!
# A directory that cannot be reached

A remote directory under an address that no request can be sent to. Every call fails, and a
notification whose payload is no JSON already fails before anything would be sent.
-/

namespace OrderDispatch

/-- The failure of a request to an address. -/
def DirectoryError.unsendable (address : String) : DirectoryError :=
  .request ("no request can be sent to " ++ address)

/-- Requires a payload to be JSON. -/
def Payload.requireJson (p : Payload) : Except DirectoryError Unit :=
  match (Text.ofUtf8? p.bytes).map Json.parse with
  | some (.ok _) => .ok ()
  | some (.error problem) => .error (.payload (.serialization problem.detail))
  | none => .error (.payload (.serialization Json.Problem.malformed.detail))

/-- The directory under an address that no request can be sent to. -/
def Directory.unreachable (address : String) : Directory where
  find _ := .error (.unsendable address)
  notify n := do
    n.payload.requireJson
    throw (.unsendable address)

end OrderDispatch
