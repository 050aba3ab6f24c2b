import OrderDispatch.Proofs.Desk.Answers
import OrderDispatch.Proofs.Desk.Readback

/-!
# What a request on an order comes to

A request on an order is judged in four stages, and the first that it fails tells how it is refused:

    improper    the identifier or the provider that acts is blank, or the
                location is missing or invalid; no order is looked at         invalid argument
    missing     nothing is stored under the identifier                        not found
    denied      the provider that acts is not the provider of the order       permission denied
    late        it is to cancel an order that has ended                       failed precondition

A request that passes them all is carried out. `Ruling` judges it on an order that is found and
`Verdict` in full, with one lemma for each operation. In a run every row is read, so that nothing
else that may fail is met on the way (`verdict_carryOut`).
-/

namespace OrderDispatch

/-! ## Stages -/

/-- There is no location, or an invalid one. -/
def Misplaced (location : Option Location) : Prop :=
  ∀ l, location = some l → l.coordinates.isValid = false

namespace DeskRequest

/-- The provider that acts, if a request is for the provider of the order only. -/
def acting? : DeskRequest → Option String
  | accept _ r => some r.providerId
  | reject _ r => some r.providerId
  | updateLocation _ r => some r.providerId
  | create _ | updateStatus .. | cancel .. | assign .. => none

/-- The request is wrong, whatever is stored. -/
def Improper (r : DeskRequest) : Prop :=
  (∃ i, r.target? = some i ∧ Text.isBlank i = true) ∨
    (∃ p, r.acting? = some p ∧ Text.isBlank p = true) ∨
    ∃ i q, r = .updateLocation i q ∧ Misplaced q.location

/-- The provider that acts is another one than the provider of the order. -/
def Denied (r : DeskRequest) (o : Order) : Prop := ∃ p, r.acting? = some p ∧ o.providerId ≠ some p

/-- The order is to be cancelled and has ended. -/
def Late (r : DeskRequest) (o : Order) : Prop :=
  (∃ i q, r = .cancel i q) ∧
    (o.status = .completed ∨ o.status = .cancelled ∨ o.status = .refunded)

/-- If it is an assignment, it names a provider. -/
def NamesAssignee (r : DeskRequest) : Prop :=
  ∀ i q, r = .assign i q → ∃ p, q.providerId = some p ∧ Text.isBlank p = false

end DeskRequest

theorem OrderStatus.isTerminal_iff (s : OrderStatus) :
    s.isTerminal = true ↔ s = .completed ∨ s = .cancelled ∨ s = .refunded := by
  cases s <;> simp [isTerminal]

/-- Something fails with a failure of this class. -/
def FailsAs {α : Type} (answer : Except Failure α) (c : ErrorCode) : Prop :=
  ∃ f, answer = .error f ∧ f.code = c

/-- A request is refused with a failure of this class. -/
def RefusedAs {α : Type} (answer : Except OpenError α) (c : ErrorCode) : Prop :=
  ∃ f, answer = .error (.refused f) ∧ f.code = c

theorem refusedAs_mapError {α : Type} (answer : Except Failure α) (c : ErrorCode) :
    RefusedAs (answer.mapError .refused) c ↔ FailsAs answer c := by
  cases answer <;> simp [RefusedAs, FailsAs, Except.mapError]

/-! ## Judgements -/

/-- What a request comes to on an order that is found. -/
inductive Ruling {α : Type} (r : DeskRequest) (o : Order) : Except Failure α → Prop where
  | denied (f : Failure) (code : f.code = .permissionDenied) (denied : r.Denied o) :
      Ruling r o (.error f)
  | late (f : Failure) (code : f.code = .failedPrecondition) (held : ¬ r.Denied o)
      (late : r.Late o) : Ruling r o (.error f)
  | granted (a : α) (held : ¬ r.Denied o) (inTime : ¬ r.Late o) : Ruling r o (.ok a)

/-- What a request comes to, by the order that is found under its identifier. -/
inductive Verdict {α : Type} (r : DeskRequest) (found : Option Order) : Except Failure α → Prop where
  | improper (f : Failure) (code : f.code = .invalidArgument) (improper : r.Improper) :
      Verdict r found (.error f)
  | missing (f : Failure) (code : f.code = .notFound) (proper : ¬ r.Improper)
      (missing : found = none) : Verdict r found (.error f)
  | ruled (o : Order) (answer : Except Failure α) (proper : ¬ r.Improper) (isFound : found = some o)
      (ruling : Ruling r o answer) : Verdict r found answer

section Verdict

variable {α β : Type} {r : DeskRequest} {o : Order} {found : Option Order}

theorem Ruling.map (answer : Except Failure α) (g : α → β) (h : Ruling r o answer) :
    Ruling r o (answer.map g) := by
  cases h with
  | denied f code denied => exact .denied f code denied
  | late f code held late => exact .late f code held late
  | granted a held inTime => exact .granted (g a) held inTime

theorem Verdict.map (answer : Except Failure α) (g : α → β) (h : Verdict r found answer) :
    Verdict r found (answer.map g) := by
  cases h with
  | improper f code improper => exact .improper f code improper
  | missing f code proper missing => exact .missing f code proper missing
  | ruled o _ proper isFound ruling => exact .ruled o _ proper isFound (ruling.map answer g)

/-- The stages exclude each other, so the class of a failure tells the stage, and the stage the
class. -/
theorem Ruling.class_iff (answer : Except Failure α) (h : Ruling r o answer) :
    (FailsAs answer .permissionDenied ↔ r.Denied o) ∧
      (FailsAs answer .failedPrecondition ↔ ¬ r.Denied o ∧ r.Late o) ∧
      ((∃ a, answer = .ok a) ↔ ¬ r.Denied o ∧ ¬ r.Late o) ∧
      ∀ f, answer = .error f → f.code = .permissionDenied ∨ f.code = .failedPrecondition := by
  cases h <;> simp_all [FailsAs]

theorem Verdict.class_iff (answer : Except Failure α) (h : Verdict r found answer) :
    (FailsAs answer .invalidArgument ↔ r.Improper) ∧
      (FailsAs answer .notFound ↔ ¬ r.Improper ∧ found = none) ∧
      (FailsAs answer .permissionDenied ↔ ¬ r.Improper ∧ ∃ o, found = some o ∧ r.Denied o) ∧
      (FailsAs answer .failedPrecondition ↔
        ¬ r.Improper ∧ ∃ o, found = some o ∧ ¬ r.Denied o ∧ r.Late o) ∧
      ((∃ a, answer = .ok a) ↔ ¬ r.Improper ∧ ∃ o, found = some o ∧ ¬ r.Denied o ∧ ¬ r.Late o) ∧
      ∀ f, answer = .error f → f.code ≠ .internal := by
  cases h with
  | improper f code improper => simp [FailsAs, code, improper]
  | missing f code proper missing => simp [FailsAs, code, proper, missing]
  | ruled o _ proper isFound ruling =>
    obtain ⟨hdenied, hlate, hgranted, hclasses⟩ := ruling.class_iff
    have hnone : ∀ c : ErrorCode, c ≠ .permissionDenied → c ≠ .failedPrecondition →
        ¬ FailsAs answer c := by
      rintro c hp hf ⟨f, hfails, rfl⟩
      rcases hclasses f hfails with h | h
      · exact hp h
      · exact hf h
    refine ⟨iff_of_false (hnone _ nofun nofun) proper,
      iff_of_false (hnone _ nofun nofun) (by simp [isFound]), ?_, ?_, ?_, fun f hfails hcode =>
        hnone .internal nofun nofun ⟨f, hfails, hcode⟩⟩
    · simpa [proper, isFound] using hdenied
    · simpa [proper, isFound] using hlate
    · simpa [proper, isFound] using hgranted

end Verdict

/-! ## Checks that fail -/

theorem requireText_cases (field value : String) :
    (Text.isBlank value = true ∧
      ∃ f, requireText field value = .error f ∧ f.code = .invalidArgument) ∨
      (Text.isBlank value = false ∧ requireText field value = .ok ()) := by
  unfold requireText
  split
  · next h => exact .inl ⟨h, _, rfl, rfl⟩
  · next h => exact .inr ⟨by simpa using h, rfl⟩

theorem requireLocation_cases (field : String) (location : Option Location) :
    (Misplaced location ∧
      ∃ f, requireLocation field location = .error f ∧ f.code = .invalidArgument) ∨
      (¬ Misplaced location ∧ ∃ l, requireLocation field location = .ok l) := by
  unfold requireLocation Misplaced
  cases location with
  | none => exact .inl ⟨nofun, _, rfl, rfl⟩
  | some l =>
    simp only [Option.some.injEq, forall_eq']
    split
    · next h => exact .inr ⟨by simp [h], l, rfl⟩
    · next h => exact .inl ⟨by simpa using h, _, rfl, rfl⟩

/-- The provider of an order is let through, and nobody else. -/
theorem Order.requireAssigned_cases (o : Order) (i p : String) (hp : Text.isBlank p = false) :
    (o.providerId ≠ some p ∧ o.requireAssigned i p = .error (.permissionDenied i p)) ∨
      (o.providerId = some p ∧ o.requireAssigned i p = .ok ()) := by
  have hiff := o.isAssignedTo_iff p hp
  unfold requireAssigned
  split
  · next h => exact .inr ⟨hiff.1 h, rfl⟩
  · next h => exact .inl ⟨fun hprovider => h (hiff.2 hprovider), rfl⟩

namespace DeskRequest

/-- What the checks of a request let through is in order. -/
theorem proper_of_checks (r : DeskRequest) (i : String) (htarget : r.target? = some i)
    (hi : Text.isBlank i = false) (hacting : ∀ p, r.acting? = some p → Text.isBlank p = false)
    (hlocation : ∀ i q, r = .updateLocation i q → ¬ Misplaced q.location) : ¬ r.Improper := by
  rintro (⟨i', hi', hblank⟩ | ⟨p, hp, hblank⟩ | ⟨i', q, hr, hmisplaced⟩)
  · rw [htarget] at hi'
    cases hi'
    exact Bool.false_ne_true (hi.symm.trans hblank)
  · exact Bool.false_ne_true ((hacting p hp).symm.trans hblank)
  · exact hlocation i' q hr hmisplaced

/-- Only cancelling an order can be too late. -/
theorem not_late_of_acting (r : DeskRequest) (o : Order) (p : String) (h : r.acting? = some p) :
    ¬ r.Late o := by
  rintro ⟨⟨i, q, rfl⟩, -⟩
  cases h

/-- A change that only the provider of the order may make. -/
theorem ruling_acting {α : Type} (r : DeskRequest) (o : Order) (i p : String) (a : α)
    (hacting : r.acting? = some p) (hp : Text.isBlank p = false) :
    Ruling r o (do o.requireAssigned i p; return a) := by
  rcases o.requireAssigned_cases i p hp with ⟨hother, hf⟩ | ⟨hown, hok⟩
  · rw [hf]
    exact .denied _ rfl ⟨p, hacting, hother⟩
  · rw [hok]
    refine .granted a ?_ (r.not_late_of_acting o p hacting)
    rintro ⟨p', hp', hother⟩
    rw [hacting] at hp'
    cases hp'
    exact hother hown

end DeskRequest

namespace Desk

/-- Behind the check of a text that a request must not leave blank. -/
theorem verdict_requiring {α : Type} (d : Desk) (r : DeskRequest) (found : Option Order)
    (field value : String) (next : Unit → Except Failure α × Desk)
    (himproper : Text.isBlank value = true → r.Improper)
    (hnext : Text.isBlank value = false → Verdict r found (next ()).1) :
    Verdict r found (d.checked (requireText field value) next).1 := by
  rcases requireText_cases field value with ⟨hblank, f, hf, hcode⟩ | ⟨hblank, hok⟩
  · rw [hf]
    exact .improper f hcode (himproper hblank)
  · rw [hok]
    exact hnext hblank

/-- A location told by the provider has no part in whether an order may be accepted. -/
theorem accept_location (d : Desk) (m : Moment) (i : String) (q : AcceptRequest)
    (location : Option Location) :
    (d.accept m i { q with currentLocation := location }).1 = (d.accept m i q).1 := by
  unfold accept checked
  cases requireText "order ID" i with
  | error f => rfl
  | ok _ =>
    cases requireText "provider ID" q.providerId with
    | error f => rfl
    | ok _ =>
      simp only
      generalize d.revise i _ = answer
      obtain ⟨_ | _, _⟩ := answer <;> rfl

/-! ## Operations -/

section Operations

variable (d : Desk) (m : Moment) (i : String) (found : Option Order)
  (hget : d.store.get i = .ok found)

include hget

/-- A revision is judged as its change is. -/
theorem verdict_revise (r : DeskRequest) (change : Order → Except Failure Order)
    (proper : ¬ r.Improper) (hchange : ∀ o, Ruling r o (change o)) :
    Verdict r found (d.revise i change).1 := by
  cases found with
  | none =>
    have hmissing : (d.revise i change).1 = .error (.storage (.orderNotFound i)) := by
      unfold revise OrderStore.update
      rw [hget]
    rw [hmissing]
    exact .missing _ rfl proper rfl
  | some o =>
    rw [revise_answer d i change o hget]
    exact .ruled o _ proper rfl (hchange o)

/-- Behind the reading of the order, when its identifier is all that is left to check. -/
theorem verdict_getting {α : Type} (r : DeskRequest) (next : Order → Except Failure α × Desk)
    (htarget : r.target? = some i) (proper : Text.isBlank i = false → ¬ r.Improper)
    (hnext : ∀ o, found = some o → Ruling r o (next o).1) :
    Verdict r found (d.checked (d.get i) next).1 := by
  unfold get
  rcases requireText_cases "order ID" i with ⟨hblank, f, hf, hcode⟩ | ⟨hblank, hok⟩
  · rw [hf]
    exact .improper f hcode (.inl ⟨i, htarget, hblank⟩)
  · rw [hok, hget]
    cases found with
    | none => exact .missing _ rfl (proper hblank) rfl
    | some o => exact .ruled o _ (proper hblank) rfl (hnext o rfl)

theorem verdict_updateStatus (q : StatusRequest) :
    Verdict (.updateStatus i q) found (d.updateStatus m i q).1 := by
  unfold updateStatus
  refine verdict_requiring d _ found _ i _ (fun hi => .inl ⟨i, rfl, hi⟩) fun hi => ?_
  have hproper := DeskRequest.proper_of_checks (.updateStatus i q) i rfl hi nofun nofun
  exact verdict_revise d i found hget _ _ hproper fun o => .granted _ nofun nofun

theorem verdict_cancel (q : CancelRequest) :
    Verdict (.cancel i q) found (d.cancel m i q).1 := by
  unfold cancel
  refine verdict_requiring d _ found _ i _ (fun hi => .inl ⟨i, rfl, hi⟩) fun hi => ?_
  have hproper := DeskRequest.proper_of_checks (.cancel i q) i rfl hi nofun nofun
  refine verdict_revise d i found hget _ _ hproper fun o => ?_
  unfold cancelled
  split
  · next hended => exact .late _ rfl nofun ⟨⟨i, q, rfl⟩, o.status.isTerminal_iff.1 hended⟩
  · next hgoing => exact .granted _ nofun fun h => hgoing (o.status.isTerminal_iff.2 h.2)

theorem verdict_assign (q : AssignRequest) (p : String) (hnamed : q.providerId = some p)
    (hp : Text.isBlank p = false) : Verdict (.assign i q) found (d.assign m i q).1 := by
  have hassign : d.assign m i q = d.checked (d.get i) fun _ => d.assignProvider m i p := by
    unfold assign
    rw [hnamed, show (some p).filter (!Text.isBlank ·) = some p by simp [hp]]
  rw [hassign]
  refine verdict_getting d i found hget _ _ rfl (fun hi => ?_) fun o hfound => ?_
  · exact DeskRequest.proper_of_checks _ i rfl hi nofun nofun
  · obtain ⟨new, hnew⟩ := assignProvider_succeeds d m i o (hfound ▸ hget) d p rfl
    rw [hnew]
    exact .granted new nofun nofun

theorem verdict_accept (q : AcceptRequest) :
    Verdict (.accept i q) found (d.accept m i q).1 := by
  unfold accept
  refine verdict_requiring d _ found _ i _ (fun hi => .inl ⟨i, rfl, hi⟩) fun hi => ?_
  refine verdict_requiring d _ found _ _ _ (fun hp => .inr (.inl ⟨_, rfl, hp⟩)) fun hp => ?_
  have hproper : ¬ (DeskRequest.accept i q).Improper :=
    DeskRequest.proper_of_checks _ i rfl hi (by rintro _ ⟨⟩; exact hp) nofun
  have hrevised := verdict_revise d i found hget _ _ hproper fun o =>
    DeskRequest.ruling_acting (.accept i q) o i q.providerId
      (o.pushStatus m.now .providerAccepted q.providerId "Provider accepted the order") rfl hp
  generalize d.revise i _ = answer at hrevised ⊢
  obtain ⟨_ | _, _⟩ := answer <;> exact hrevised

theorem verdict_reject (q : RejectRequest) :
    Verdict (.reject i q) found (d.reject m i q).1 := by
  unfold reject
  refine verdict_requiring d _ found _ i _ (fun hi => .inl ⟨i, rfl, hi⟩) fun hi => ?_
  refine verdict_requiring d _ found _ _ _ (fun hp => .inr (.inl ⟨_, rfl, hp⟩)) fun hp => ?_
  have hproper : ¬ (DeskRequest.reject i q).Improper :=
    DeskRequest.proper_of_checks _ i rfl hi (by rintro _ ⟨⟩; exact hp) nofun
  have hrevised := verdict_revise d i found hget (.reject i q) (rejected m.now i q) hproper
    fun o => DeskRequest.ruling_acting _ o i q.providerId _ rfl hp
  generalize d.revise i _ = answer at hrevised ⊢
  obtain ⟨_ | _, _⟩ := answer <;> exact hrevised

theorem verdict_updateLocation (q : LocationRequest) :
    Verdict (.updateLocation i q) found (d.updateLocation m i q).1 := by
  unfold updateLocation LocationRequest.check
  rcases requireText_cases "order ID" i with ⟨hi, f, hf, hcode⟩ | ⟨hi, hok⟩
  · rw [hf]
    exact .improper f hcode (.inl ⟨i, rfl, hi⟩)
  rw [hok]
  rcases requireText_cases "provider ID" q.providerId with ⟨hp, f, hf, hcode⟩ | ⟨hp, hok⟩
  · rw [hf]
    exact .improper f hcode (.inr (.inl ⟨_, rfl, hp⟩))
  rw [hok]
  rcases requireLocation_cases "location" q.location with ⟨hl, f, hf, hcode⟩ | ⟨hl, l, hok⟩
  · show Verdict _ _ (d.checked (requireLocation "location" q.location) _).1
    rw [hf]
    exact .improper f hcode (.inr (.inr ⟨i, q, rfl, hl⟩))
  show Verdict _ _ (d.checked (requireLocation "location" q.location) _).1
  rw [hok]
  refine verdict_getting d i found hget _ _ rfl (fun _ => ?_) fun o _ => ?_
  · refine DeskRequest.proper_of_checks _ i rfl hi ?_ ?_
    · rintro _ ⟨⟩
      exact hp
    · rintro _ _ ⟨⟩
      exact hl
  · have hiff := o.isAssignedTo_iff q.providerId hp
    split
    · next hassigned =>
      refine .granted _ ?_ nofun
      rintro ⟨_, ⟨⟩, hother⟩
      exact hother (hiff.1 hassigned)
    · next hother => exact .denied _ rfl ⟨_, rfl, fun h => hother (hiff.2 h)⟩

/-- Every request on an order is judged. -/
theorem verdict_carryOut (r : DeskRequest) (htarget : r.target? = some i)
    (hnamed : r.NamesAssignee) :
    ∃ answer : Except Failure String,
      (d.carryOut m r).1 = answer.mapError .refused ∧ Verdict r found answer := by
  cases r with
  | create q => cases htarget
  | updateStatus _ q =>
    cases htarget
    exact ⟨_, rfl, (verdict_updateStatus d m i found hget q).map _ (·.id)⟩
  | cancel _ q =>
    cases htarget
    exact ⟨_, rfl, (verdict_cancel d m i found hget q).map _ (·.id)⟩
  | assign _ q =>
    cases htarget
    obtain ⟨p, hp, hblank⟩ := hnamed i q rfl
    exact ⟨_, rfl, (verdict_assign d m i found hget q p hp hblank).map _ (·.id)⟩
  | accept _ q =>
    cases htarget
    exact ⟨_, rfl, (verdict_accept d m i found hget q).map _ (·.id)⟩
  | reject _ q =>
    cases htarget
    exact ⟨_, rfl, (verdict_reject d m i found hget q).map _ (·.id)⟩
  | updateLocation _ q =>
    cases htarget
    exact ⟨_, rfl, (verdict_updateLocation d m i found hget q).map _ (·.orderId)⟩

end Operations

/-! ## Runs -/

/-- The exact outcome of every request on an order, after any run: which of the stages it fails
first, if it fails one, tells the class it is refused with, and it is refused for no other reason.
The location that a provider tells as it accepts an order makes no difference to the answer. -/
theorem refusals_exact (capacity : Nat) (steps : List DeskStep) (m : Moment) (r : DeskRequest)
    (i : String) (htarget : r.target? = some i) (hnamed : r.NamesAssignee) :
    let d := run capacity steps
    let answer := (d.carryOut m r).1
    (RefusedAs answer .invalidArgument ↔ r.Improper) ∧
    (RefusedAs answer .notFound ↔ ¬ r.Improper ∧ d.store.orders.contains i = false) ∧
    (RefusedAs answer .permissionDenied ↔
      ¬ r.Improper ∧ ∃ o, d.store.get i = .ok (some o) ∧ r.Denied o) ∧
    (RefusedAs answer .failedPrecondition ↔
      ¬ r.Improper ∧ ∃ o, d.store.get i = .ok (some o) ∧ ¬ r.Denied o ∧ r.Late o) ∧
    ((∃ x, answer = .ok x) ↔
      ¬ r.Improper ∧ ∃ o, d.store.get i = .ok (some o) ∧ ¬ r.Denied o ∧ ¬ r.Late o) ∧
    (∀ e, answer = .error e → ∃ f, e = .refused f ∧ f.code ≠ .internal) ∧
    ∀ q location, r = .accept i q →
      (d.carryOut m (.accept i { q with currentLocation := location })).1 = answer := by
  intro d answer
  obtain ⟨found, hget⟩ := (readsAll_of_allTexts d (allTexts_run capacity steps)).found i
  obtain ⟨judged, hanswer, hverdict⟩ := verdict_carryOut d m i found hget r htarget hnamed
  have hfound (o : Order) : d.store.get i = .ok (some o) ↔ found = some o := by
    rw [hget, Except.ok.injEq]
  have hmissing : d.store.orders.contains i = false ↔ found = none := by
    rw [← OrderStore.get_eq_none_iff, hget, Except.ok.injEq]
  obtain ⟨himproper, hnone, hdenied, hlate, hgranted, hinternal⟩ := hverdict.class_iff
  simp only [answer, hanswer, refusedAs_mapError, hfound, hmissing]
  refine ⟨himproper, hnone, hdenied, hlate, ?_, ?_, ?_⟩
  · rw [← hgranted]
    cases judged <;> simp [Except.mapError]
  · intro e he
    cases judged with
    | error f =>
      cases he
      exact ⟨f, rfl, hinternal f rfl⟩
    | ok x => cases he
  · rintro q location rfl
    rw [← hanswer]
    show ((d.accept m i { q with currentLocation := location }).1.map _).mapError _ = _
    rw [accept_location]
    rfl

/-- Nobody has been assigned to the order yet, so nobody may accept it. -/
theorem refusals_exact_stranger :
    let r : DeskRequest := .accept "o-1" ⟨"p-1", none⟩
    r.target? = some "o-1" ∧ r.NamesAssignee ∧ ¬ r.Improper ∧
      RefusedAs ((run 1 [plainOpening]).carryOut quiet r).1 .permissionDenied := by
  intro r
  have hnamed : r.NamesAssignee := nofun
  have hproper : ¬ r.Improper := by
    refine DeskRequest.proper_of_checks r "o-1" rfl ?_ ?_ nofun
    · simp [isBlank_names]
    · rintro _ ⟨⟩
      simp [isBlank_names]
  obtain ⟨-, -, hdenied, -⟩ := refusals_exact 1 [plainOpening] quiet r "o-1" rfl hnamed
  exact ⟨rfl, hnamed, hproper,
    hdenied.2 ⟨hproper, plainOrder, get_plainOpening, "p-1", rfl, nofun⟩⟩

end Desk

end OrderDispatch
