import Mathlib
import OrderDispatch.Proofs.Desk.Positions
import OrderDispatch.Tracking

/-!
# What a follower passes on

Somebody follows an order while reports are filed and orders come and change. On every tick the
follower looks at the newest report on the order. What it sees decides what it does:

    t.Sees r r' o, and r was not shown last   → it passes on r', for o on its way   (Ticks.told)
    otherwise                                 → it does nothing                     (Ticks.silent)

The reports shown are some of those filed for the order, in the order they were filed, since one
that is shown is the newest of all, and not the one shown last (`sublist_snoc`). A report is passed
on as it is read: r' is r but for what reading makes of its coordinates. What an update says of it
is written out in `LocationUpdate.ofReport`.
-/

namespace OrderDispatch

open PositionReport (about)

theorem reread?_report (r r' : PositionReport) (h : Rereads.reread? r = some r') :
    r' = { r with latitude := r'.latitude, longitude := r'.longitude } := by
  simp only [Rereads.reread?] at h
  cases hlatitude : Binary64.reread? r.latitude with
  | none => simp [hlatitude] at h
  | some latitude =>
    cases hlongitude : Binary64.reread? r.longitude with
    | none => simp [hlatitude, hlongitude] at h
    | some longitude =>
      simp only [hlatitude, hlongitude, Option.bind_eq_bind, Option.bind_some] at h
      cases h
      rfl

theorem id_of_reread? (r r' : PositionReport) (h : Rereads.reread? r = some r') : r'.id = r.id := by
  rw [reread?_report r r' h]

/-- The last element of a list goes behind a part of the list that does not end with it. -/
theorem sublist_snoc {α : Type} (xs ys : List α) (a : α) (h : xs.Sublist ys)
    (hlast : ys.getLast? = some a) (hne : xs.getLast? ≠ some a) : (xs ++ [a]).Sublist ys := by
  obtain ⟨init, rfl⟩ := List.getLast?_eq_some_iff.1 hlast
  obtain ⟨front, back, rfl, hfront, hback⟩ := List.sublist_append_iff.1 h
  rcases List.sublist_singleton.1 hback with rfl | rfl
  · rw [List.append_nil]
    exact hfront.append (.refl _)
  · exact absurd (by simp) hne

/-- A tick does nothing, or passes on the newest report, which was not passed on last. -/
theorem Follower.tick_cases (f : Follower) (s : OrderStore) :
    (f.tick s = (none, f) ∧ ∀ r o, s.latestReport f.orderId = .ok (some r) →
        s.get f.orderId = .ok (some o) → f.lastReport = some r.id) ∨
      ∃ r o, s.latestReport f.orderId = .ok (some r) ∧ f.lastReport ≠ some r.id ∧
        s.get f.orderId = .ok (some o) ∧ f.tick s =
          (some (update r o.etaTarget.coordinates), { f with lastReport := some r.id }) := by
  unfold tick
  split
  · next r hlatest =>
    split
    · next hlast =>
      refine .inl ⟨rfl, fun r₂ o hr₂ _ => ?_⟩
      cases hlatest.symm.trans hr₂
      exact hlast
    · next hfresh =>
      split
      · next o hget => exact .inr ⟨r, o, hlatest, hfresh, hget, rfl⟩
      · next hmissing => exact .inl ⟨rfl, fun r₂ o _ hget => absurd hget (hmissing o)⟩
  · next hmissing => exact .inl ⟨rfl, fun r o hlatest _ => absurd hlatest (hmissing r)⟩

/-! ## What an update says -/

/-- The news by a report of a provider that is heading for a place: where the report has it, and the
minutes to the place at 30 km/h, with 111 km to a degree. -/
def LocationUpdate.ofReport (r : PositionReport) (place : Location) : LocationUpdate where
  orderId := r.orderId
  providerId := r.providerId
  currentLocation := ⟨r.latitude, r.longitude, "", "", "", "", .empty⟩
  estimatedArrivalMinutes := Binary64.hypotenuse (place.latitude - r.latitude)
    (place.longitude - r.longitude) * 111 / 30 * 60
  timestamp := r.timestamp

theorem Follower.update_eq_ofReport (r : PositionReport) (place : Location) :
    update r place.coordinates = .ofReport r place := rfl

/-- A provider that has picked up is heading for the destination, and any other for the pick-up. -/
theorem Order.etaTarget_eq (o : Order) : o.etaTarget =
    if o.status = .pickedUp ∨ o.status = .inTransit then o.destination else o.pickup := by
  unfold etaTarget
  cases o.status <;> rfl

/-! ## Following an order -/

/-- Something that happens while an order is followed. -/
inductive TrackEvent (ε : Type) where
  | store (event : StoreEvent ε)
  | tick

/-- What happens to the store, if anything does. -/
def TrackEvent.event? {ε : Type} : TrackEvent ε → Option (StoreEvent ε)
  | store e => some e
  | tick => none

/-- A follower and the desk, with all reports filed so far, the newest ones whenever the follower
passed something on, and what it passed on. -/
structure Tracking where
  desk : Desk
  follower : Follower
  log : List PositionReport
  shown : List PositionReport
  passed : List LocationUpdate

namespace Tracking

/-- The newest report on the order. -/
def newest? (t : Tracking) : Option PositionReport := (about t.follower.orderId t.log).getLast?

/-- Nothing has happened yet. -/
def ofOrder (capacity : Nat) (orderId : String) : Tracking :=
  ⟨.ofCapacity capacity, .ofOrder orderId, [], [], []⟩

variable {ε : Type} (lift : StoreError → ε)

/-- What an event comes to. -/
def after (t : Tracking) : TrackEvent ε → Tracking
  | .store e => { t with desk := e.apply lift t.desk, log := t.log ++ (e.filing? t.desk).toList }
  | .tick =>
    match t.follower.tick t.desk.store with
    | (none, follower) => { t with follower }
    | (some update, follower) => { t with
        follower
        shown := t.shown ++ t.newest?.toList
        passed := t.passed ++ [update] }

/-- What some events come to. -/
def run (capacity : Nat) (orderId : String) (events : List (TrackEvent ε)) : Tracking :=
  events.foldl (after lift) (ofOrder capacity orderId)

theorem run_append (capacity : Nat) (orderId : String) (events : List (TrackEvent ε))
    (e : TrackEvent ε) :
    run lift capacity orderId (events ++ [e]) = (run lift capacity orderId events).after lift e :=
  List.foldl_append

/-! ## Ticks -/

/-- There is a newest report on the order, it can be read, and the order is found. -/
structure Sees (t : Tracking) (r r' : PositionReport) (o : Order) : Prop where
  newest : t.newest? = some r
  read : Rereads.reread? r = some r'
  found : t.desk.store.get t.follower.orderId = .ok (some o)

/-- What a tick comes to. -/
inductive Ticks (t : Tracking) : Tracking → Prop where
  | silent (stale : ∀ r r' o, t.Sees r r' o → t.follower.lastReport = some r.id) : Ticks t t
  | told (r r' : PositionReport) (o : Order) (sees : t.Sees r r' o)
      (fresh : t.follower.lastReport ≠ some r.id) :
      Ticks t { t with
        follower.lastReport := some r.id
        shown := t.shown ++ [r]
        passed := t.passed ++ [.ofReport r' o.etaTarget] }

theorem ticks_after (t : Tracking) (hs : t.desk.store.Files t.log) :
    t.Ticks (t.after lift .tick) := by
  have hlatest := t.desk.store.latestReport_eq_some_iff t.log hs t.follower.orderId
  unfold after
  rcases t.follower.tick_cases t.desk.store with
    ⟨htick, hstale⟩ | ⟨r', o, hfound, hfresh, hget, htick⟩
  · rw [htick]
    refine .silent fun r r' o hsees => ?_
    rw [← id_of_reread? r r' hsees.read]
    exact hstale r' o ((hlatest r').2 ⟨r, hsees.newest, hsees.read⟩) hsees.found
  · obtain ⟨r, hnewest, hread⟩ := (hlatest r').1 hfound
    have hid := id_of_reread? r r' hread
    rw [htick]
    simp only [show t.newest? = some r from hnewest, Option.toList_some, hid,
      Follower.update_eq_ofReport]
    exact .told r r' o ⟨hnewest, hread, hget⟩ (hid ▸ hfresh)

/-- A tick that sees a report passes it on, unless it was passed on last. -/
theorem after_tick_of_sees (t : Tracking) (hs : t.desk.store.Files t.log) (r r' : PositionReport)
    (o : Order) (hsees : t.Sees r r' o) :
    t.after lift .tick =
      if t.follower.lastReport = some r.id then t
      else { t with
        follower.lastReport := some r.id
        shown := t.shown ++ [r]
        passed := t.passed ++ [.ofReport r' o.etaTarget] } := by
  have hticks := ticks_after lift t hs
  generalize t.after lift .tick = t' at hticks
  cases hticks with
  | silent stale => rw [if_pos (stale r r' o hsees)]
  | told r₂ r₂' o₂ sees fresh =>
    cases hsees.newest.symm.trans sees.newest
    cases hsees.read.symm.trans sees.read
    cases hsees.found.symm.trans sees.found
    rw [if_neg fresh]

/-- Another tick right behind it changes nothing. -/
theorem after_tick_tick (t : Tracking) (hs : t.desk.store.Files t.log) :
    (t.after lift .tick).after lift .tick = t.after lift .tick := by
  have hticks := ticks_after lift t hs
  generalize hnext : t.after lift .tick = t' at hticks
  cases hticks with
  | silent => exact hnext
  | told r r' o sees =>
    have hagain : ({ t with
        follower.lastReport := some r.id
        shown := t.shown ++ [r]
        passed := t.passed ++ [.ofReport r' o.etaTarget] } : Tracking).Sees r r' o :=
      ⟨sees.newest, sees.read, sees.found⟩
    refine (after_tick_of_sees lift _ ?_ r r' o hagain).trans (if_pos rfl)
    exact hs

/-! ## What is shown -/

/-- An update tells of a report, as it is read. -/
def Tells (r : PositionReport) (u : LocationUpdate) : Prop :=
  ∃ r' place, Rereads.reread? r = some r' ∧ u = .ofReport r' place

/-- The reports shown are some of those on the order, in order; the last of them is the one that the
follower remembers; and each update passed on tells of one of them. -/
structure Sound (t : Tracking) : Prop where
  files : t.desk.store.Files t.log
  sublist : t.shown.Sublist (about t.follower.orderId t.log)
  last : t.follower.lastReport = t.shown.getLast?.map (·.id)
  passed : List.Forall₂ Tells t.shown t.passed

theorem sound_ofOrder (capacity : Nat) (orderId : String) : (ofOrder capacity orderId).Sound where
  files := OrderStore.files_empty
  sublist := .refl _
  last := rfl
  passed := .nil

theorem sound_ticks (t t' : Tracking) (ht : t.Sound) (h : t.Ticks t') : t'.Sound := by
  cases h with
  | silent => exact ht
  | told r r' o sees fresh =>
    have hne : t.shown.getLast? ≠ some r := by
      intro hlast
      rw [ht.last, hlast] at fresh
      exact fresh rfl
    constructor
    · exact ht.files
    · exact sublist_snoc t.shown _ r ht.sublist sees.newest hne
    · show some r.id = (t.shown ++ [r]).getLast?.map (·.id)
      rw [List.getLast?_append]
      rfl
    · exact List.rel_append ht.passed (.cons ⟨r', _, sees.read, rfl⟩ .nil)

theorem sound_after (t : Tracking) (e : TrackEvent ε) (ht : t.Sound)
    (room : (t.after lift e).log.length < 2 ^ 64) : (t.after lift e).Sound := by
  cases e with
  | store e =>
    have hmore : about t.follower.orderId (t.log ++ (e.filing? t.desk).toList) =
        about t.follower.orderId t.log ++ about t.follower.orderId (e.filing? t.desk).toList :=
      List.filter_append _ _
    refine ⟨StoreEvent.files_apply lift t.desk e t.log ht.files room, ?_, ht.last, ht.passed⟩
    show t.shown.Sublist (about t.follower.orderId (t.log ++ (e.filing? t.desk).toList))
    rw [hmore]
    exact ht.sublist.trans (List.sublist_append_left _ _)
  | tick => exact sound_ticks t _ ht (ticks_after lift t ht.files)

/-! ## Runs -/

theorem desk_tick (t : Tracking) :
    (t.after lift .tick).desk = t.desk ∧ (t.after lift .tick).log = t.log := by
  unfold after
  rcases t.follower.tick_cases t.desk.store with ⟨htick, -⟩ | ⟨r', o, -, -, -, htick⟩ <;>
    rw [htick] <;> exact ⟨rfl, rfl⟩

/-- The log only grows. -/
theorem log_prefix_after (t : Tracking) (e : TrackEvent ε) : t.log <+: (t.after lift e).log := by
  cases e with
  | store e => exact List.prefix_append _ _
  | tick =>
    rw [(desk_tick lift t).2]

theorem sound_run (capacity : Nat) (orderId : String) (events : List (TrackEvent ε))
    (room : (run lift capacity orderId events).log.length < 2 ^ 64) :
    (run lift capacity orderId events).Sound := by
  induction events using List.reverseRecOn with
  | nil => exact sound_ofOrder capacity orderId
  | append_singleton events e ih =>
    rw [run_append] at room ⊢
    have hgrows := (log_prefix_after lift (run lift capacity orderId events) e).length_le
    exact sound_after lift _ e (ih (Nat.lt_of_le_of_lt hgrows room)) room

theorem orderId_after (t : Tracking) (e : TrackEvent ε) :
    (t.after lift e).follower.orderId = t.follower.orderId := by
  cases e with
  | store e => rfl
  | tick =>
    unfold after
    rcases t.follower.tick_cases t.desk.store with ⟨htick, -⟩ | ⟨r', o, -, -, -, htick⟩
    · rw [htick]
    · rw [htick]

theorem orderId_run (capacity : Nat) (orderId : String) (events : List (TrackEvent ε)) :
    (run lift capacity orderId events).follower.orderId = orderId := by
  induction events using List.reverseRecOn with
  | nil => rfl
  | append_singleton events e ih => rw [run_append, orderId_after, ih]

/-- Ticks make no difference to the desk and to what is filed. -/
theorem desk_run (capacity : Nat) (orderId : String) (events : List (TrackEvent ε)) :
    (run lift capacity orderId events).desk =
        StoreEvent.run lift capacity (events.filterMap TrackEvent.event?) ∧
      (run lift capacity orderId events).log =
        StoreEvent.log lift (.ofCapacity capacity) (events.filterMap TrackEvent.event?) := by
  induction events using List.reverseRecOn with
  | nil => exact ⟨rfl, rfl⟩
  | append_singleton events e ih =>
    obtain ⟨hdesk, hlog⟩ := ih
    rw [run_append, List.filterMap_append]
    cases e with
    | store e =>
      refine ⟨?_, ?_⟩
      · rw [show [TrackEvent.store e].filterMap TrackEvent.event? = [e] from rfl,
          StoreEvent.run_append, ← hdesk]
        rfl
      · rw [show [TrackEvent.store e].filterMap TrackEvent.event? = [e] from rfl,
          StoreEvent.log_append, ← hlog]
        show _ = _ ++ StoreEvent.log lift (StoreEvent.run lift capacity _) [e]
        rw [← hdesk, StoreEvent.log, StoreEvent.log, List.append_nil]
        rfl
    | tick =>
      obtain ⟨hsame, hnone⟩ := desk_tick lift (run lift capacity orderId events)
      rw [hsame, hnone, show [TrackEvent.tick].filterMap (TrackEvent.event? (ε := ε)) = [] from rfl,
        List.append_nil]
      exact ⟨hdesk, hlog⟩

/-! ## Exactly the new reports -/

/-- The report shown last is the newest one just if the follower remembers it, where reports have
identifiers of their own. -/
theorem shown_last_iff (t : Tracking) (ht : t.Sound) (distinct : (t.log.map (·.id)).Nodup)
    (r : PositionReport) (hnewest : t.newest? = some r) :
    t.shown.getLast? = some r ↔ t.follower.lastReport = some r.id := by
  rw [ht.last]
  constructor
  · intro h
    rw [h]
    rfl
  · intro h
    obtain ⟨last, hlast, hid⟩ := Option.map_eq_some_iff.1 h
    have hmem : last ∈ t.log := List.mem_of_mem_filter (ht.sublist.subset
      (List.mem_of_getLast? hlast))
    have hr : r ∈ t.log := List.mem_of_mem_filter (List.mem_of_getLast? hnewest)
    rw [hlast, List.inj_on_of_nodup_map distinct hmem hr hid]

/-- What a follower of an order passes on while reports with identifiers of their own are filed, and
orders come and change, in whatever order. The updates tell, in order, of some of the reports on the
order, each as it is read, and of none twice. A tick passes something on just if the order is found
and has a newest report that can be read and was not shown last: that report, with the estimate for
the place that a provider is heading for by the status that the order has then. After a tick that
finds the order the newest report is the one shown last. A tick that passes on nothing changes
nothing, as does one that does not find the order. -/
theorem follower_exact (capacity : Nat) (i : String) (events : List (TrackEvent ε))
    (room : (run lift capacity i events).log.length < 2 ^ 64)
    (distinct : ((run lift capacity i events).log.map (·.id)).Nodup) :
    let t := run lift capacity i events
    let next := run lift capacity i (events ++ [.tick])
    (t.desk = StoreEvent.run lift capacity (events.filterMap TrackEvent.event?) ∧
        t.log = StoreEvent.log lift (.ofCapacity capacity)
          (events.filterMap TrackEvent.event?)) ∧
      t.shown.Sublist (about i t.log) ∧ t.shown.Nodup ∧
      List.Forall₂ Tells t.shown t.passed ∧
      (next.passed ≠ t.passed ↔ ∃ r r' o, (about i t.log).getLast? = some r ∧
        Rereads.reread? r = some r' ∧ t.desk.store.get i = .ok (some o) ∧
        t.shown.getLast? ≠ some r) ∧
      (next.passed = t.passed → next = t) ∧
      (∀ r r' o, (about i t.log).getLast? = some r → Rereads.reread? r = some r' →
        t.desk.store.get i = .ok (some o) →
        next.shown.getLast? = some r ∧
        (t.shown.getLast? ≠ some r → next.shown = t.shown ++ [r] ∧
          next.passed = t.passed ++ [.ofReport r' (if o.status = .pickedUp ∨ o.status = .inTransit
            then o.destination else o.pickup)])) ∧
      ((∀ o, t.desk.store.get i ≠ .ok (some o)) → next = t) := by
  intro t next
  have ht : t.Sound := sound_run lift capacity i events room
  have hi : t.follower.orderId = i := orderId_run lift capacity i events
  have hsees (r r' : PositionReport) (o : Order) : t.Sees r r' o ↔
      (about i t.log).getLast? = some r ∧ Rereads.reread? r = some r' ∧
        t.desk.store.get i = .ok (some o) := by
    rw [← hi]
    exact ⟨fun h => ⟨h.newest, h.read, h.found⟩, fun h => ⟨h.1, h.2.1, h.2.2⟩⟩
  have hticks : t.Ticks next := by
    show t.Ticks (run lift capacity i (events ++ [.tick]))
    rw [run_append]
    exact ticks_after lift t ht.files
  clear_value next
  have hlast (r : PositionReport) (h : (about i t.log).getLast? = some r) :
      t.shown.getLast? = some r ↔ t.follower.lastReport = some r.id :=
    shown_last_iff t ht distinct r (by rw [newest?, hi]; exact h)
  have hsublist : t.shown.Sublist (about i t.log) := hi ▸ ht.sublist
  have hnodup : t.shown.Nodup :=
    (distinct.of_map _).sublist (hsublist.trans List.filter_sublist)
  refine ⟨desk_run lift capacity i events, hsublist, hnodup, ht.passed, ?_, ?_, ?_, ?_⟩
  · cases hticks with
    | silent stale =>
      refine iff_of_false (fun h => h rfl) ?_
      rintro ⟨r, r', o, hnewest, hread, hget, hne⟩
      exact hne ((hlast r hnewest).2 (stale r r' o ((hsees r r' o).2 ⟨hnewest, hread, hget⟩)))
    | told r r' o sees fresh =>
      refine iff_of_true (by simp) ?_
      obtain ⟨hnewest, hread, hget⟩ := (hsees r r' o).1 sees
      exact ⟨r, r', o, hnewest, hread, hget, fun h => fresh ((hlast r hnewest).1 h)⟩
  · intro hsame
    cases hticks with
    | silent => rfl
    | told => simp at hsame
  · intro r r' o hnewest hread hget
    have hseen := (hsees r r' o).2 ⟨hnewest, hread, hget⟩
    cases hticks with
    | silent stale =>
      have hold := (hlast r hnewest).2 (stale r r' o hseen)
      exact ⟨hold, fun hne => absurd hold hne⟩
    | told r₂ r₂' o₂ sees fresh =>
      cases hseen.newest.symm.trans sees.newest
      cases hseen.read.symm.trans sees.read
      cases hseen.found.symm.trans sees.found
      exact ⟨by simp, fun _ => ⟨rfl, by rw [← o.etaTarget_eq]⟩⟩
  · intro hmissing
    cases hticks with
    | silent => rfl
    | told r r' o sees => exact absurd ((hsees r r' o).1 sees).2.2 (hmissing o)

open Desk (opening assigning telling tellingAgain toldReport toldAgain assignedOrder)

/-! ## Two reports -/

/-- An order is opened and assigned, and its provider tells where it is. -/
def onTheWay : List (TrackEvent Failure) :=
  ([opening, assigning, telling].map StoreEvent.desk).map .store

/-- The follower looks twice, and the provider tells once more where it is. -/
def furtherOn : List (TrackEvent Failure) :=
  onTheWay ++ [.tick] ++ [.tick] ++ [.store (.desk tellingAgain)]

/-- Nothing is passed on without a tick. -/
theorem run_store (capacity : Nat) (i : String) (events : List (StoreEvent ε)) :
    (run lift capacity i (events.map .store)).shown = [] ∧
      (run lift capacity i (events.map .store)).passed = [] ∧
      (run lift capacity i (events.map .store)).follower = .ofOrder i := by
  induction events using List.reverseRecOn with
  | nil => exact ⟨rfl, rfl, rfl⟩
  | append_singleton events e ih =>
    rw [List.map_append, List.map_cons, List.map_nil, run_append]
    exact ih

theorem desk_onTheWay :
    (run Failure.storage 1 "o-1" onTheWay).desk = Desk.run 1 [opening, assigning, telling] ∧
      (run Failure.storage 1 "o-1" onTheWay).log = [toldReport] := by
  have hevents : onTheWay.filterMap TrackEvent.event? =
      [opening, assigning, telling].map StoreEvent.desk := rfl
  obtain ⟨hdesk, hlog⟩ := desk_run Failure.storage 1 "o-1" onTheWay
  rw [hdesk, hlog, hevents, StoreEvent.run_desk, Desk.log_telling]
  exact ⟨rfl, rfl⟩

theorem files_onTheWay : (run Failure.storage 1 "o-1" onTheWay).desk.store.Files
    (run Failure.storage 1 "o-1" onTheWay).log := by
  have hroom : (run Failure.storage 1 "o-1" onTheWay).log.length < 2 ^ 64 := by
    rw [desk_onTheWay.2]
    decide
  exact (sound_run Failure.storage 1 "o-1" onTheWay hroom).files

theorem desk_furtherOn :
    (run Failure.storage 1 "o-1" furtherOn).desk = Desk.run 1 Desk.toldTwice ∧
      (run Failure.storage 1 "o-1" furtherOn).log = [toldReport, toldAgain] := by
  have hevents : furtherOn.filterMap TrackEvent.event? = Desk.toldTwice.map StoreEvent.desk := rfl
  obtain ⟨hdesk, hlog⟩ := desk_run Failure.storage 1 "o-1" furtherOn
  rw [hdesk, hlog, hevents, StoreEvent.run_desk, Desk.log_toldTwice]
  exact ⟨rfl, rfl⟩

/-- The first report as it is read. -/
def readReport : PositionReport := { toldReport with latitude := 9.754723111570645 }

theorem sees_onTheWay :
    (run Failure.storage 1 "o-1" onTheWay).Sees toldReport readReport assignedOrder where
  newest := by
    rw [newest?, desk_onTheWay.2, orderId_run]
    rfl
  read := Desk.reread?_toldReport
  found := by
    rw [desk_onTheWay.1, orderId_run]
    exact Desk.get_telling

theorem sees_furtherOn :
    (run Failure.storage 1 "o-1" furtherOn).Sees toldAgain toldAgain assignedOrder where
  newest := by
    rw [newest?, desk_furtherOn.2, orderId_run]
    rfl
  read := Desk.reread?_toldAgain
  found := by
    rw [desk_furtherOn.1, orderId_run]
    exact Desk.get_toldTwice

/-- The first tick passes on the report that has been filed. -/
theorem after_onTheWay :
    run Failure.storage 1 "o-1" (onTheWay ++ [.tick]) =
      { run Failure.storage 1 "o-1" onTheWay with
        follower := ⟨"o-1", some "o-1"⟩
        shown := [toldReport]
        passed := [.ofReport readReport assignedOrder.etaTarget] } := by
  obtain ⟨hshown, hpassed, hfollower⟩ :=
    run_store Failure.storage 1 "o-1" ([opening, assigning, telling].map StoreEvent.desk)
  change (run Failure.storage 1 "o-1" onTheWay).shown = [] at hshown
  change (run Failure.storage 1 "o-1" onTheWay).passed = [] at hpassed
  change (run Failure.storage 1 "o-1" onTheWay).follower = _ at hfollower
  rw [run_append, after_tick_of_sees _ _ files_onTheWay _ _ _ sees_onTheWay, hshown, hpassed,
    hfollower]
  rfl

/-- The second passes on nothing, and so the follower still remembers that report. -/
theorem after_furtherOn :
    (run Failure.storage 1 "o-1" furtherOn).shown = [toldReport] ∧
      (run Failure.storage 1 "o-1" furtherOn).passed =
        [.ofReport readReport assignedOrder.etaTarget] := by
  rw [furtherOn, run_append, run_append, run_append, after_tick_tick _ _ files_onTheWay,
    ← run_append, after_onTheWay]
  exact ⟨rfl, rfl⟩

/-- Both reports are passed on, in order, and the first only once. -/
theorem follower_exact_furtherOn :
    (run Failure.storage 1 "o-1" furtherOn).log.length < 2 ^ 64 ∧
      ((run Failure.storage 1 "o-1" furtherOn).log.map (·.id)).Nodup ∧
      (run Failure.storage 1 "o-1" (furtherOn ++ [.tick])).shown = [toldReport, toldAgain] ∧
      (run Failure.storage 1 "o-1" (furtherOn ++ [.tick])).passed =
        [.ofReport readReport assignedOrder.pickup, .ofReport toldAgain assignedOrder.pickup] := by
  have hroom : (run Failure.storage 1 "o-1" furtherOn).log.length < 2 ^ 64 := by
    rw [desk_furtherOn.2]
    decide
  have hdistinct : ((run Failure.storage 1 "o-1" furtherOn).log.map (·.id)).Nodup := by
    rw [desk_furtherOn.2]
    decide
  obtain ⟨hshown, hpassed⟩ := after_furtherOn
  have hnew : (run Failure.storage 1 "o-1" furtherOn).shown.getLast? ≠ some toldAgain := by
    rw [hshown]
    decide
  obtain ⟨hnewest, hread, hfound⟩ := sees_furtherOn
  rw [newest?, orderId_run] at hnewest
  rw [orderId_run] at hfound
  obtain ⟨-, -, -, -, -, -, htold, -⟩ :=
    follower_exact Failure.storage 1 "o-1" furtherOn hroom hdistinct
  obtain ⟨hnextShown, hnextPassed⟩ := (htold _ _ _ hnewest hread hfound).2 hnew
  rw [hshown] at hnextShown
  rw [hpassed] at hnextPassed
  exact ⟨hroom, hdistinct, hnextShown, hnextPassed⟩

/-- The follower is told of a position that nobody has reported. -/
theorem update_drifts :
    (run Failure.storage 1 "o-1" (onTheWay ++ [.tick])).log = [toldReport] ∧
      toldReport.latitude = 9.754723111570643 ∧
      ∃ u, (run Failure.storage 1 "o-1" (onTheWay ++ [.tick])).passed = [u] ∧
        u.currentLocation.latitude = 9.754723111570645 ∧
        ∀ target, u ≠ Follower.update toldReport target := by
  have hdrift : (9.754723111570645 : Float) ≠ 9.754723111570643 := by decide
  refine ⟨?_, rfl, _, congrArg Tracking.passed after_onTheWay, rfl, fun target h => ?_⟩
  · rw [after_onTheWay]
    exact desk_onTheWay.2
  · exact hdrift (congrArg (·.currentLocation.latitude) h)

end Tracking

end OrderDispatch
