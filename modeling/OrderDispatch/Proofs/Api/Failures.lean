import OrderDispatch.Api.Server
import OrderDispatch.Proofs.Json.Echo

/-!
# What callers see of failures

The class of a failure is found again in the reply, as its status and as a name in its body. With
the class comes the text of the failure, except that every internal failure has the same text, so
that two replies differ in nothing but the class and the text of a failure that is not internal:

    ofFailure f = ofFailure g ↔ f.code = g.code ∧ (f.code = .internal ∨ f.message = g.message)

Nor is there another way for an internal failure to come out: whatever the service is asked, all
that it replies with a status of the server's own is that there was one (`discreet_respond`).
-/

namespace OrderDispatch

/-! ## Classes -/

namespace ErrorCode

/-- The statuses that tell that the server has failed are from here on. -/
def serverFault : Nat := 500

theorem serverFault_le_iff (c : ErrorCode) : serverFault ≤ c.httpStatus ↔ c = .internal := by
  cases c <;> decide

theorem httpStatus_lt (c : ErrorCode) : c.httpStatus < 600 := by
  cases c <;> decide

theorem httpStatus_inj (c c' : ErrorCode) : c.httpStatus = c'.httpStatus ↔ c = c' := by
  cases c <;> cases c' <;> decide

end ErrorCode

/-- The failure is of something inside the service, be it the order store, the directory or the
ledger; that the store misses an order is the caller's business. -/
def Failure.StaysInside : Failure → Prop
  | storage e => ∀ i, e ≠ .orderNotFound i
  | directory _ | ledger _ | internal _ => True
  | invalidArgument _ | orderNotFound _ | noProvidersAvailable _ | permissionDenied ..
  | failedPrecondition _ => False

theorem StoreError.code_eq_internal_iff (e : StoreError) :
    e.code = .internal ↔ ∀ i, e ≠ .orderNotFound i := by
  cases e <;> simp [code]

theorem Failure.code_eq_internal_iff (f : Failure) : f.code = .internal ↔ f.StaysInside := by
  cases f with
  | storage e => exact e.code_eq_internal_iff
  | _ => simp [code, StaysInside]

/-- What a reply tells of a failure. -/
structure Disclosure where
  status : Nat
  code : String
  message : String

/-- What a caller is to be told of each failure. Of a failure inside the service, that is only that
there was one. -/
def Failure.disclosure : Failure → Disclosure
  | invalidArgument detail => ⟨400, "INVALID_ARGUMENT", "Invalid argument: " ++ detail⟩
  | orderNotFound id => ⟨404, "NOT_FOUND", "Order not found: " ++ id⟩
  | noProvidersAvailable id => ⟨404, "NOT_FOUND", "No providers available for order: " ++ id⟩
  | permissionDenied orderId providerId =>
    ⟨403, "PERMISSION_DENIED", "Provider " ++ providerId ++ " is not assigned to order " ++ orderId⟩
  | failedPrecondition detail => ⟨412, "FAILED_PRECONDITION", "Failed precondition: " ++ detail⟩
  | storage (.orderNotFound id) => ⟨404, "NOT_FOUND", "Storage error: Order not found: " ++ id⟩
  | storage _ | directory _ | ledger _ | internal _ => ⟨500, "INTERNAL", "Internal server error"⟩

/-- The class of a failure is the one that the caller is to be told. -/
theorem Failure.code_disclosure (f : Failure) :
    f.code.httpStatus = f.disclosure.status ∧ f.code.name = f.disclosure.code := by
  cases f with
  | storage e => cases e <;> exact ⟨rfl, rfl⟩
  | _ => exact ⟨rfl, rfl⟩

/-- The text of a failure is the one that the caller is to be told, unless it is internal. -/
theorem Failure.message_disclosure (f : Failure) :
    f.disclosure.message = if f.code = .internal then "Internal server error" else f.message := by
  cases f with
  | storage e =>
    cases e with
    | orderNotFound id =>
      change _ = "Storage error: " ++ ("Order not found: " ++ id)
      rw [← String.append_assoc]
      rfl
    | _ => rfl
  | _ => rfl

namespace ApiProblem

/-- The two ways to the class of a failure agree: its own, and the one through the problem. -/
@[simp] theorem code_ofFailure (f : Failure) : (ofFailure f).code = f.code := by
  cases h : f.code <;> simp [ofFailure, code, h]

theorem publicMessage_ofFailure (f : Failure) :
    (ofFailure f).publicMessage =
      if f.code = .internal then "Internal server error" else f.message := by
  cases h : f.code <;> simp [ofFailure, publicMessage, h]

end ApiProblem

/-! ## Replies -/

namespace Reply

/-- The body of the reply to a failure of this class, with this text. -/
def failureBody (c : ErrorCode) (message : String) : Json :=
  .record [("code", .text c.name), ("message", .text message)]

/-- The body of the reply to any internal failure. -/
def internalBody : Json :=
  .record [("code", .text "INTERNAL"), ("message", .text "Internal server error")]

theorem ofFailure_def (f : Failure) :
    ofFailure f = .plain f.code.httpStatus (some (failureBody f.code
      (if f.code = .internal then "Internal server error" else f.message))) := by
  simp only [ofFailure, ApiProblem.httpStatus, ApiProblem.body, failureBody,
    ApiProblem.code_ofFailure, ApiProblem.publicMessage_ofFailure]

theorem ofFailure_of_internal (f : Failure) (h : f.code = .internal) :
    ofFailure f = .plain 500 (some internalBody) := by
  rw [ofFailure_def, if_pos h, h]
  rfl

theorem ofFailure_of_ne_internal (f : Failure) (h : f.code ≠ .internal) :
    ofFailure f = .plain f.code.httpStatus (some (failureBody f.code f.message)) := by
  rw [ofFailure_def, if_neg h]

/-- The status is that of the class. -/
theorem ofFailure_eq (f : Failure) :
    ∃ message, ofFailure f = .plain f.code.httpStatus (some (failureBody f.code message)) ∧
      (f.code ≠ .internal → message = f.message) :=
  ⟨_, ofFailure_def f, fun h => if_neg h⟩

/-- The reply tells what the caller is to be told. -/
theorem ofFailure_disclosure (f : Failure) :
    ofFailure f = .plain f.disclosure.status (some (.record
      [("code", .text f.disclosure.code), ("message", .text f.disclosure.message)])) := by
  obtain ⟨hstatus, hname⟩ := f.code_disclosure
  rw [ofFailure_def, ← f.message_disclosure, failureBody, hstatus, hname]

/-- Nothing but the class of a failure and, unless it is internal, its text shows in the reply. -/
theorem ofFailure_eq_iff (f g : Failure) :
    ofFailure f = ofFailure g ↔
      f.code = g.code ∧ (f.code = .internal ∨ f.message = g.message) := by
  have hcode (h : ofFailure f = ofFailure g) : f.code = g.code := by
    obtain ⟨_, hf, -⟩ := ofFailure_eq f
    obtain ⟨_, hg, -⟩ := ofFailure_eq g
    rw [hf, hg] at h
    exact (ErrorCode.httpStatus_inj _ _).1 (Reply.plain.inj h).1
  by_cases hf : f.code = .internal
  · constructor
    · exact fun h => ⟨hcode h, .inl hf⟩
    · rintro ⟨hfg, -⟩
      rw [ofFailure_of_internal f hf, ofFailure_of_internal g (hfg ▸ hf)]
  · constructor
    · intro h
      have hfg := hcode h
      rw [ofFailure_of_ne_internal f hf, ofFailure_of_ne_internal g (hfg ▸ hf)] at h
      simp only [failureBody, plain.injEq, Option.some.injEq, Json.record.injEq, List.cons.injEq,
        Prod.mk.injEq, Json.text.injEq, true_and, and_true] at h
      exact ⟨hfg, .inr h.2.2⟩
    · rintro ⟨hfg, hmessage⟩
      rw [ofFailure_of_ne_internal f hf, ofFailure_of_ne_internal g (hfg ▸ hf), hfg,
        hmessage.resolve_left hf]

/-- The classification of a failure survives: problem, status and body are of its class, and both
are, failure by failure, what the caller is to be told. The status is one of the server's own
exactly if the failure is internal, which is any failure of something inside but that an order is
missing. Any other class comes with the text of the failure; internal failures all get one and the
same reply, whatever they are about. -/
theorem ofFailure_faithful (f : Failure) :
    (ApiProblem.ofFailure f).code = f.code ∧
    (∃ message, ofFailure f = .plain f.code.httpStatus
        (some (.record [("code", .text f.code.name), ("message", .text message)])) ∧
      (f.code ≠ .internal → message = f.message)) ∧
    ofFailure f = .plain f.disclosure.status (some (.record
      [("code", .text f.disclosure.code), ("message", .text f.disclosure.message)])) ∧
    (500 ≤ f.code.httpStatus ∧ f.code.httpStatus < 600 ↔ f.code = .internal) ∧
    (f.code = .internal ↔ f.StaysInside) ∧
    ∀ g, ofFailure f = ofFailure g ↔
      f.code = g.code ∧ (f.code = .internal ∨ f.message = g.message) := by
  refine ⟨ApiProblem.code_ofFailure f, ofFailure_eq f, ofFailure_disclosure f, ?_,
    f.code_eq_internal_iff, ofFailure_eq_iff f⟩
  rw [and_iff_left f.code.httpStatus_lt]
  exact f.code.serverFault_le_iff

/-- A status of the server's own comes with the body of every internal failure, or with none. -/
def Discreet : Reply → Prop
  | plain status body => ErrorCode.serverFault ≤ status → body = none ∨ body = some internalBody
  | stream _ => True

theorem discreet_empty (status : Nat) : (empty status).Discreet := fun _ => .inl rfl

theorem discreet_success (body : Json) : (success body).Discreet :=
  fun h => absurd h (by decide)

theorem discreet_ofFailure (f : Failure) : (ofFailure f).Discreet := by
  by_cases h : f.code = .internal
  · rw [ofFailure_of_internal f h]
    exact fun _ => .inr rfl
  · rw [ofFailure_of_ne_internal f h]
    exact fun hstatus => absurd (f.code.serverFault_le_iff.1 hstatus) h

end Reply

/-! ## The service -/

namespace Server

variable (s : Server) (m : Moment) (r : HttpRequest)

theorem discreet_answer {α : Type} (result : Except Failure α) (encode : α → Json) :
    (s.answer result encode).1.Discreet := by
  cases result with
  | ok a => exact Reply.discreet_success _
  | error f => exact Reply.discreet_ofFailure f

theorem discreet_operateOn {ρ α : Type} [Coded ρ] (encode : α → Json)
    (operation : ρ → Except Failure α × Desk) :
    (s.operateOn r encode operation).1.Discreet := by
  unfold operateOn
  split
  · exact Reply.discreet_empty _
  · exact discreet_answer _ _ _

theorem discreet_answerQuery {ρ α : Type} (query : Option ρ) (encode : α → Json)
    (question : ρ → Except Failure α) : (s.answerQuery query encode question).1.Discreet := by
  unfold answerQuery
  split
  · exact Reply.discreet_empty _
  · exact discreet_answer _ _ _

theorem discreet_assign (id : String) : (s.assign m r id).1.Discreet := by
  unfold assign
  split
  · exact discreet_answer _ _ _
  · exact discreet_operateOn _ _ _ _

theorem discreet_track (id : String) : (s.track id).1.Discreet := by
  unfold track
  split
  · exact Reply.discreet_ofFailure _
  · trivial

theorem discreet_create (answered : Reply × Server) (h : s.create m r = .ok answered) :
    answered.1.Discreet := by
  unfold create at h
  split at h
  · cases h
    exact Reply.discreet_empty _
  · split at h <;> cases h
    · exact Reply.discreet_success _
    · exact Reply.discreet_ofFailure _

theorem discreet_perform (action : Action) (id : String) (answered : Reply × Server)
    (h : s.perform m r action id = .ok answered) : answered.1.Discreet := by
  cases action with
  | create => exact s.discreet_create m r answered h
  | health =>
    cases h
    exact Reply.discreet_success _
  | get | verifyLedger | ledgerHistory =>
    cases h
    exact discreet_answer _ _ _
  | updateStatus | cancel | accept | reject | updateLocation =>
    cases h
    exact discreet_operateOn _ _ _ _
  | assign =>
    cases h
    exact s.discreet_assign m r id
  | track =>
    cases h
    exact s.discreet_track id
  | locationHistory | listByUser | listByProvider =>
    cases h
    exact discreet_answerQuery _ _ _ _

theorem discreet_follow (route : Route) (answered : Reply × Server)
    (h : s.follow m r route = .ok answered) : answered.1.Discreet := by
  unfold follow at h
  split at h
  · cases h
    exact Reply.discreet_empty _
  · exact s.discreet_perform m r _ _ answered h

/-- Whatever the service is asked, no reply tells more of an internal failure than that there was
one. -/
theorem discreet_respond (answered : Reply × Server) (h : s.respond m r = .ok answered) :
    answered.1.Discreet := by
  unfold respond at h
  split at h
  · cases h
    exact Reply.discreet_empty _
  split at h
  · cases h
    exact Reply.discreet_empty _
  split at h
  · exact s.discreet_follow m r _ answered h
  split at h
  · obtain ⟨⟨reply, s'⟩, -, h⟩ := bind_eq_ok h
    cases h
    cases reply with
    | plain status body => exact Reply.discreet_empty status
    | stream number => trivial
  · cases h
    exact Reply.discreet_empty _

end Server

end OrderDispatch
