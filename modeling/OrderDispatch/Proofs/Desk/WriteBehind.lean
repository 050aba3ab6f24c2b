import OrderDispatch.Proofs.Desk.Alike
import OrderDispatch.Proofs.Desk.References

/-!
# The ledger does not show

Take from a run what was asked of the desk, and leave out the bookkeeper and whether the ledger was
in reach. Asked the same alone, with no ledger at all, a desk gives the same answers up to
references, and ends up alike:

    run capacity steps is alike to run 1 (asked steps)

So two runs that are asked the same cannot be told apart by any answer, order, index, position or
notification. This takes figures that settle. The bookkeeper reads a row and writes it back once
more, and where a figure is not read the second time as it was the first, that shows:
`settles_of_indistinguishable` has two runs that are told apart for every request that opens such an
order.
-/

namespace OrderDispatch

/-! ## Listings -/

/-- A page of orders without their references. -/
def OrderPage.unreferenced (p : OrderPage) : OrderPage :=
  { p with orders := p.orders.map Order.unreferenced }

/-- A listing without the references of its orders. -/
def Listing.unreferenced (l : Listing) : Listing :=
  { l with orders := l.orders.map Order.unreferenced }

namespace OrderStore

theorem row_cases (s : OrderStore) (i : String) :
    (s.orders.find? i = none ∧ s.get i = .ok none) ∨
      ∃ row, s.orders.find? i = some row ∧ s.get i = (readRow row).map some := by
  unfold get
  cases s.orders.find? i with
  | none => exact .inl ⟨rfl, rfl⟩
  | some row => exact .inr ⟨row, rfl, rfl⟩

theorem map_readRow_of_sameAt (s t : OrderStore) (i row row' : String) (h : s.SameAt t i)
    (hs : s.get i = (readRow row).map some) (ht : t.get i = (readRow row').map some) :
    (readRow row).map Order.unreferenced = (readRow row').map Order.unreferenced := by
  unfold SameAt at h
  rw [hs, ht] at h
  rcases map_eq_cases _ _ _ h with ⟨e, he, he'⟩ | ⟨a, b, ha, hb, hab⟩
  · cases hrow : (readRow row : Except StoreError Order) with
    | ok o =>
      rw [hrow] at he
      cases he
    | error e =>
      cases hrow' : (readRow row' : Except StoreError Order) with
      | ok o =>
        rw [hrow'] at he'
        cases he'
      | error e' =>
        rw [hrow] at he
        rw [hrow'] at he'
        cases he
        cases he'
        rfl
  · cases hrow : (readRow row : Except StoreError Order) with
    | error e =>
      rw [hrow] at ha
      cases ha
    | ok o =>
      cases hrow' : (readRow row' : Except StoreError Order) with
      | error e =>
        rw [hrow'] at hb
        cases hb
      | ok o' =>
        rw [hrow] at ha
        rw [hrow'] at hb
        cases ha
        cases hb
        exact congrArg Except.ok (Option.some.inj hab)

section Same

variable (s t : OrderStore) (h : ∀ i, s.SameAt t i)

include h

theorem same_rows (ids : List (String × Unit)) :
    ((ids.filterMap fun (i, _) => s.orders.find? i).mapM
        (readRow : String → Except StoreError Order)).map (List.map Order.unreferenced) =
      ((ids.filterMap fun (i, _) => t.orders.find? i).mapM
        (readRow : String → Except StoreError Order)).map (List.map Order.unreferenced) := by
  induction ids with
  | nil => rfl
  | cons entry ids ih =>
    obtain ⟨i, u⟩ := entry
    rcases row_cases s i with ⟨hrow, hs⟩ | ⟨row, hrow, hs⟩ <;>
      rcases row_cases t i with ⟨hrow', ht⟩ | ⟨row', hrow', ht⟩
    · simpa only [List.filterMap_cons, hrow, hrow'] using ih
    · have hknown := contains_of_sameAt s t i (h i)
      simp [Table.contains, hrow, hrow'] at hknown
    · have hknown := contains_of_sameAt s t i (h i)
      simp [Table.contains, hrow, hrow'] at hknown
    · simp only [List.filterMap_cons, hrow, hrow', List.mapM_cons]
      rcases map_eq_cases _ _ _ (map_readRow_of_sameAt s t i row row' (h i) hs ht) with
        ⟨e, he, he'⟩ | ⟨a, b, ha, hb, hab⟩
      · rw [he, he']
        rfl
      · rw [ha, hb]
        rcases map_eq_cases _ _ _ ih with ⟨e, he, he'⟩ | ⟨as, bs, has, hbs, habs⟩
        · simp only [ok_bind, he, he']
          rfl
        · simp only [ok_bind, has, hbs]
          show Except.ok (a.unreferenced :: as.map _) = .ok (b.unreferenced :: bs.map _)
          rw [hab, habs]

end Same

/-- The page that a listing shows of the orders under a key. -/
def page (status : Option OrderStatus) (offset limit : Nat) (orders : List Order) : OrderPage :=
  let sorted := (orders.filter fun o => status.all (· == o.status)).mergeSort
    fun a b => (newerFirst a b).isLE
  ⟨(sorted.drop offset).take limit, sorted.length⟩

/-- Neither the choice of a page nor its order looks at references. -/
theorem page_unreferenced (status : Option OrderStatus) (offset limit : Nat) (orders : List Order) :
    (page status offset limit orders).unreferenced =
      page status offset limit (orders.map Order.unreferenced) := by
  have hsorted :
      ((orders.map Order.unreferenced).filter fun o => status.all (· == o.status)).mergeSort
        (fun a b => (newerFirst a b).isLE) =
      ((orders.filter fun o => status.all (· == o.status)).mergeSort
        fun a b => (newerFirst a b).isLE).map Order.unreferenced := by
    rw [List.filter_map]
    exact (List.map_mergeSort (f := Order.unreferenced) fun _ _ _ _ => rfl).symm
  unfold page
  simp only [hsorted, OrderPage.unreferenced, List.map_take, List.map_drop, List.length_map]

theorem same_list (s t : OrderStore) (h : ∀ i, s.SameAt t i) (x : OrderIndex)
    (hindex : s.index x = t.index x) (key : String) (status : Option OrderStatus)
    (offset limit : Nat) :
    (s.list x key status offset limit).map OrderPage.unreferenced =
      (t.list x key status offset limit).map OrderPage.unreferenced := by
  have hlist : ∀ u : OrderStore, u.list x key status offset limit =
      (u.indexed x key).map (page status offset limit) := by
    intro u
    unfold list
    cases u.indexed x key <;> rfl
  have hindexed : (s.indexed x key).map (List.map Order.unreferenced) =
      (t.indexed x key).map (List.map Order.unreferenced) := by
    unfold indexed
    rw [hindex]
    exact same_rows s t h _
  rw [hlist, hlist]
  rcases map_eq_cases _ _ _ hindexed with ⟨e, hs, ht⟩ | ⟨os, ps, hs, ht, hsame⟩
  · rw [hs, ht]
  · rw [hs, ht]
    show Except.ok (page status offset limit os).unreferenced =
      .ok (page status offset limit ps).unreferenced
    rw [page_unreferenced, hsame, page_unreferenced]

end OrderStore

namespace Desk

/-! ## What anybody can see -/

/-- Nobody can tell two desks apart but by the references of their orders: the orders found, the
indexes, the position reports, the calls to the directory, and every answer to a query. -/
structure Indistinguishable (d d' : Desk) : Prop where
  orders : ∀ i, (d.store.get i).map (·.map Order.unreferenced) =
    (d'.store.get i).map (·.map Order.unreferenced)
  byUser : d.store.byUser = d'.store.byUser
  byProvider : d.store.byProvider = d'.store.byProvider
  reports : d.store.reports = d'.store.reports
  sequence : d.store.sequence = d'.store.sequence
  traffic : d.traffic = d'.traffic
  get : ∀ i, (d.get i).map Order.unreferenced = (d'.get i).map Order.unreferenced
  listByUser : ∀ userId q, (d.listByUser userId q).map Listing.unreferenced =
    (d'.listByUser userId q).map Listing.unreferenced
  listByProvider : ∀ providerId q, (d.listByProvider providerId q).map Listing.unreferenced =
    (d'.listByProvider providerId q).map Listing.unreferenced
  locationHistory : ∀ i q, d.locationHistory i q = d'.locationHistory i q
  tick : ∀ f : Follower, f.tick d.store = f.tick d'.store

section Queries

variable (d d' : Desk) (h : d.Alike d')

include h

theorem same_list (x : OrderIndex) (hindex : d.store.index x = d'.store.index x) (key : String)
    (q : ListQuery) :
    (d.list x key q).map Listing.unreferenced = (d'.list x key q).map Listing.unreferenced := by
  unfold list
  rcases map_eq_cases _ _ _ (OrderStore.same_list d.store d'.store h.found x hindex key q.status
    q.offset q.pageSize.toNat) with ⟨e, hs, ht⟩ | ⟨p, p', hs, ht, hsame⟩
  · rw [hs, ht]
  · rw [hs, ht]
    have horders : p.orders.map Order.unreferenced = p'.orders.map Order.unreferenced :=
      congrArg OrderPage.orders hsame
    have htotal : p.total = p'.total :=
      show p.unreferenced.total = p'.unreferenced.total from congrArg OrderPage.total hsame
    show Except.ok (⟨p.orders.map Order.unreferenced, p.total, _, _⟩ : Listing) =
      .ok ⟨p'.orders.map Order.unreferenced, p'.total, _, _⟩
    rw [horders, htotal]

theorem same_locationHistory (i : String) (q : LocationQuery) :
    d.locationHistory i q = d'.locationHistory i q := by
  unfold locationHistory
  rcases map_eq_cases _ _ _ (get_alike d d' i h) with ⟨f, hget, hget'⟩ | ⟨o, o', hget, hget', hsame⟩
  · rw [hget, hget']
    rfl
  · obtain ⟨ref, rfl⟩ := o.exists_ledgerRef o' hsame
    rw [hget, hget']
    simp only [ok_bind, OrderStore.reportHistory, OrderStore.reportRows, h.reports]

theorem same_tick (f : Follower) : f.tick d.store = f.tick d'.store := by
  unfold Follower.tick OrderStore.latestReport OrderStore.reportRows
  rw [h.reports]
  split
  · split
    · rfl
    · rcases OrderStore.sameAt_cases _ _ f.orderId (h.found f.orderId) with
        ⟨e, hget, hget'⟩ | ⟨hget, hget'⟩ | ⟨o, o', hget, hget', hsame⟩
      · rw [hget, hget']
      · rw [hget, hget']
      · obtain ⟨ref, rfl⟩ := o.exists_ledgerRef o' hsame
        rw [hget, hget']
        rfl
  · rfl

theorem indistinguishable_of_alike : d.Indistinguishable d' where
  orders := h.found
  byUser := h.byUser
  byProvider := h.byProvider
  reports := h.reports
  sequence := h.sequence
  traffic := h.traffic
  get i := get_alike d d' i h
  listByUser userId q := by
    unfold listByUser
    cases requireText "user ID" userId with
    | error f => rfl
    | ok u => exact same_list d d' h .user h.byUser userId q
  listByProvider providerId q := by
    unfold listByProvider
    cases requireText "provider ID" providerId with
    | error f => rfl
    | ok u => exact same_list d d' h .provider h.byProvider providerId q
  locationHistory := same_locationHistory d d' h
  tick := same_tick d d' h

end Queries

end Desk

/-! ## What is asked -/

/-- An answer of the desk to a request. -/
inductive DeskReply where
  | order (answer : Except OpenError Order)
  | position (answer : Except Failure PositionReceipt)

/-- An answer without the reference of its order. -/
def DeskReply.unreferenced : DeskReply → DeskReply
  | order answer => .order (answer.map Order.unreferenced)
  | position answer => .position answer

/-- The step as it is asked: with the ledger in reach, and without the reference of an order that
another provider is looked for. What the bookkeeper does is not asked. -/
def DeskStep.asked? (s : DeskStep) : Option DeskStep :=
  match s.event with
  | .request r => some ⟨{ s.moment with ledgerOutage := none }, .request r⟩
  | .rematch o rejectedBy =>
    some ⟨{ s.moment with ledgerOutage := none }, .rematch o.unreferenced rejectedBy⟩
  | .post | .shut => none

/-- What is asked of the desk in a run, in order and each at its moment. -/
def asked (steps : List DeskStep) : List DeskStep := steps.filterMap DeskStep.asked?

/-- What is asked opens the same orders. -/
theorem opensOnly_asked? (kind : Order → Prop) (s : DeskStep) :
    s.OpensOnly kind ↔ ∀ t, s.asked? = some t → t.OpensOnly kind := by
  obtain ⟨m, e⟩ := s
  constructor
  · intro h t ht r o hevent hopens
    cases e with
    | request q =>
      cases ht
      exact h r o hevent hopens
    | rematch p rejectedBy =>
      cases ht
      cases hevent
    | post => cases ht
    | shut => cases ht
  · rintro h r o hevent hopens
    exact h ⟨{ m with ledgerOutage := none }, e⟩ (by cases hevent; rfl) r o hevent hopens

theorem opensOnly_asked (kind : Order → Prop) (steps : List DeskStep) :
    (∀ s ∈ steps, s.OpensOnly kind) ↔ ∀ t ∈ asked steps, t.OpensOnly kind := by
  unfold asked
  constructor
  · intro h t ht
    obtain ⟨s, hs, hasked⟩ := List.mem_filterMap.1 ht
    exact (opensOnly_asked? kind s).1 (h s hs) t hasked
  · intro h s hs
    exact (opensOnly_asked? kind s).2 fun t hasked => h t (List.mem_filterMap.2 ⟨s, hs, hasked⟩)

namespace Desk

/-- The answer of the desk to a request. -/
def reply (d : Desk) (m : Moment) : DeskRequest → DeskReply
  | .create r => .order (d.create m r).1
  | .updateStatus i r => .order ((d.updateStatus m i r).1.mapError .refused)
  | .cancel i r => .order ((d.cancel m i r).1.mapError .refused)
  | .assign i r => .order ((d.assign m i r).1.mapError .refused)
  | .accept i r => .order ((d.accept m i r).1.mapError .refused)
  | .reject i r => .order ((d.reject m i r).1.mapError .refused)
  | .updateLocation i r => .position (d.updateLocation m i r).1

/-- The answer to a step, if it is a request. -/
def reply? (d : Desk) (s : DeskStep) : Option DeskReply :=
  match s.event with
  | .request r => some (d.reply s.moment r)
  | .rematch .. | .post | .shut => none

/-- All answers in a run, in order. -/
def replies (d : Desk) : List DeskStep → List DeskReply
  | [] => []
  | s :: steps => (d.reply? s).toList ++ (d.after s).replies steps

theorem replies_append (d : Desk) (steps : List DeskStep) (s : DeskStep) :
    d.replies (steps ++ [s]) = d.replies steps ++ ((steps.foldl after d).reply? s).toList := by
  induction steps generalizing d with
  | nil => simp [replies]
  | cons s' steps ih =>
    rw [List.cons_append, replies, replies, ih, List.append_assoc]
    rfl

/-! ## Runs of what is asked -/

section Asked

variable (d d' : Desk) (h : d.Alike d') (exact exact' : Prop) (hd : d.store.FindsSteady exact)
  (hd' : d'.store.FindsSteady exact')

include h hd

/-- What is not asked makes no difference. -/
theorem alike_unasked (s : DeskStep) (hs : s.asked? = none) :
    (d.after s).Alike d' ∧ d.reply? s = none := by
  obtain ⟨m, e⟩ := s
  cases e with
  | request r => cases hs
  | rematch o rejectedBy => cases hs
  | post => exact ⟨alike_post d d' h exact hd m, rfl⟩
  | shut =>
    exact ⟨⟨h.found, h.byUser, h.byProvider, h.reports, h.sequence, h.traffic, h.drawn⟩, rfl⟩

include hd'

/-- A request gets the same answer from both desks, and leaves them alike. -/
theorem alike_carryOut (m : Moment) (r : DeskRequest) :
    (d.reply m r).unreferenced = (d'.reply m r).unreferenced ∧
      (d.carryOut m r).2.Alike (d'.carryOut m r).2 := by
  have hanswer : ∀ a a' : Except Failure Order,
      a.map Order.unreferenced = a'.map Order.unreferenced →
      (DeskReply.order (a.mapError .refused)).unreferenced =
        (DeskReply.order (a'.mapError .refused)).unreferenced := by
    intro a a' hsame
    rcases map_eq_cases _ _ _ hsame with ⟨f, rfl, rfl⟩ | ⟨o, o', rfl, rfl, ho⟩
    · rfl
    · exact congrArg (DeskReply.order ∘ Except.ok) ho
  cases r with
  | create r =>
    obtain ⟨hreply, halike⟩ := agree_create d d' m r h
    exact ⟨congrArg DeskReply.order hreply, halike⟩
  | updateStatus i r => exact (agree_updateStatus d d' h _ _ hd hd' m i r).imp_left (hanswer _ _)
  | cancel i r => exact (agree_cancel d d' h _ _ hd hd' m i r).imp_left (hanswer _ _)
  | assign i r => exact (agree_assign d d' h _ _ hd hd' m i r).imp_left (hanswer _ _)
  | accept i r => exact (agree_accept d d' h _ _ hd hd' m i r).imp_left (hanswer _ _)
  | reject i r => exact (agree_reject d d' h _ _ hd hd' m i r).imp_left (hanswer _ _)
  | updateLocation i r =>
    exact (agree_updateLocation d d' m i r h).imp_left (congrArg DeskReply.position)

/-- Whether the ledger is in reach, and what reference an order has, makes no difference to what is
asked. -/
theorem alike_asked (s t : DeskStep) (hs : s.asked? = some t) :
    (d.reply? s).map DeskReply.unreferenced = (d'.reply? t).map DeskReply.unreferenced ∧
      (d.after s).Alike (d'.after t) := by
  obtain ⟨m, e⟩ := s
  cases e with
  | request r =>
    cases hs
    -- No operation looks at the outage.
    have hreach : d'.reply m r = d'.reply { m with ledgerOutage := none } r ∧
        d'.carryOut m r = d'.carryOut { m with ledgerOutage := none } r := by
      cases r <;> exact ⟨rfl, rfl⟩
    obtain ⟨hreply, halike⟩ := alike_carryOut d d' h _ _ hd hd' m r
    rw [hreach.1] at hreply
    rw [hreach.2] at halike
    exact ⟨congrArg some hreply, halike⟩
  | rematch o rejectedBy =>
    cases hs
    exact ⟨rfl, alike_rematch d d' h _ _ hd hd' m o none rejectedBy⟩
  | post => cases hs
  | shut => cases hs

end Asked

/-- A run gets the answers, and leaves the desk, that what is asked in it would alone. -/
theorem alike_run_asked (capacity : Nat) (steps : List DeskStep)
    (h : ∀ s ∈ steps, s.OpensOnly Order.Settles) :
    ((ofCapacity capacity).replies steps).map DeskReply.unreferenced =
        ((ofCapacity 1).replies (asked steps)).map DeskReply.unreferenced ∧
      (run capacity steps).Alike (run 1 (asked steps)) := by
  induction steps using List.reverseRecOn with
  | nil => exact ⟨rfl, fun _ => rfl, rfl, rfl, rfl, rfl, rfl, rfl⟩
  | append_singleton steps s ih =>
    have hbefore : ∀ s' ∈ steps, s'.OpensOnly Order.Settles :=
      fun s' hs' => h s' (List.mem_append_left _ hs')
    obtain ⟨hreplies, halike⟩ := ih hbefore
    have hfound := findsSteady_run False capacity steps hbefore False.elim
    have hasked : asked (steps ++ [s]) = asked steps ++ s.asked?.toList := by
      unfold asked
      rw [List.filterMap_append]
      cases hs : s.asked? <;> simp [hs]
    rw [run_append, replies_append, List.map_append, hreplies, hasked]
    cases hs : s.asked? with
    | none =>
      obtain ⟨hafter, hreply⟩ := alike_unasked _ _ halike _ hfound s hs
      have hnone : (steps.foldl after (ofCapacity capacity)).reply? s = none := hreply
      rw [hnone]
      simpa using hafter
    | some t =>
      have hfound' := findsSteady_run False 1 (asked steps)
        ((opensOnly_asked Order.Settles steps).1 hbefore) False.elim
      obtain ⟨hreply, hafter⟩ := alike_asked _ _ halike _ _ hfound hfound' s t hs
      have hlast : ((steps.foldl after (ofCapacity capacity)).reply? s).map DeskReply.unreferenced =
          (((asked steps).foldl after (ofCapacity 1)).reply? t).map DeskReply.unreferenced := hreply
      rw [Option.toList_some, run_append, replies_append, List.map_append]
      refine ⟨?_, hafter⟩
      rw [← Option.toList_map, ← Option.toList_map, hlast]

/-- What the bookkeeper does is not seen. Take two runs in which the same is asked at the same
times, with queues of any capacity, and with the ledger in reach or not. If every order that is
opened settles, the answers are the same up to references, and the desks cannot be told apart; so it
is for whatever is looked up in between, where two shorter runs end. If the orders are steady from
the beginning, their rows are the same texts, too, but for references. -/
theorem write_behind_unseen (capacity capacity' : Nat) (steps steps' : List DeskStep)
    (hasked : asked steps = asked steps') (hsettling : ∀ s ∈ steps, s.OpensOnly Order.Settles) :
    let d := run capacity steps
    let d' := run capacity' steps'
    ((ofCapacity capacity).replies steps).map DeskReply.unreferenced =
        ((ofCapacity capacity').replies steps').map DeskReply.unreferenced ∧
      d.Indistinguishable d' ∧
      ((∀ s ∈ steps, s.OpensOnly Order.IsSteady) → ∀ i, d.store.orders.contains i = true →
        ∃ o o', d.store.Stored i o ∧ d'.store.Stored i o' ∧ o.unreferenced = o'.unreferenced) := by
  intro d d'
  have hsettling' : ∀ s ∈ steps', s.OpensOnly Order.Settles := by
    rw [opensOnly_asked, ← hasked, ← opensOnly_asked]
    exact hsettling
  obtain ⟨hreplies, halone⟩ := alike_run_asked capacity steps hsettling
  obtain ⟨hreplies', halone'⟩ := alike_run_asked capacity' steps' hsettling'
  rw [← hasked] at hreplies' halone'
  have halike : d.Alike d' := halone.trans _ _ _ halone'.symm
  refine ⟨hreplies.trans hreplies'.symm, indistinguishable_of_alike d d' halike, ?_⟩
  intro hsteady i hi
  have hsteady' : ∀ s ∈ steps', s.OpensOnly Order.IsSteady := by
    rw [opensOnly_asked, ← hasked, ← opensOnly_asked]
    exact hsteady
  obtain ⟨o, hget, -⟩ := OrderStore.exists_found d.store (readable_run capacity steps) i hi
  rcases OrderStore.sameAt_cases _ _ i (halike.found i) with
    ⟨e, hnone, -⟩ | ⟨hnone, -⟩ | ⟨p, o', hfound, hget', hsame⟩
  · rw [hget] at hnone
    cases hnone
  · rw [hget] at hnone
    cases hnone
  · rw [hget] at hfound
    cases hfound
    have hstored := findsSteady_run True capacity steps hsettling (fun _ => hsteady) i o hget
    have hstored' :=
      findsSteady_run True capacity' steps' hsettling' (fun _ => hsteady') i o' hget'
    exact ⟨o, o', hstored.2 trivial, hstored'.2 trivial, hsame⟩

/-- A request for two items at ten each. -/
def plain : CreateRequest := { costly with items := [⟨"", "a", 2, 10, .empty⟩] }

def plainTotals : Totals := ⟨20, 2, 16⟩

def plainOrder : Order :=
  plain.order "o-1" 0 0 (.ofPoint ⟨1, 2⟩) (.ofPoint ⟨3, 4⟩) plainTotals

/-- The request is made while the ledger is out of reach. -/
def plainOpening : DeskStep :=
  ⟨{ quiet with ledgerOutage := some "down" }, .request (.create plain)⟩

theorem totals_plain : Totals.ofItems plain.items = .ok plainTotals := by decide

theorem isSteady_plainOrder : plainOrder.IsSteady := by
  unfold Order.IsSteady
  decide +kernel

/-- A request that is checked opens the one order that it is for. -/
theorem CreateRequest.Opens.eq (r : CreateRequest) (m : Moment) (pickup destination : Location)
    (totals : Totals) (i : String) (o : Order) (hcheck : r.check = .ok (pickup, destination))
    (htotals : Totals.ofItems r.items = .ok totals) (hid : ∀ n, m.newId n = i) (h : r.Opens m o) :
    o = r.order i m.now m.later pickup destination totals := by
  obtain ⟨drawn, _, _, _, hchecked, hsum, rfl⟩ := h
  rw [hcheck] at hchecked
  rw [htotals] at hsum
  cases hchecked
  cases hsum
  rw [hid]

/-- An order is opened while the ledger is out of reach, and left so, or opened and recorded. -/
theorem write_behind_unseen_plain :
    asked [plainOpening] = asked [⟨quiet, .request (.create plain)⟩, posting] ∧
      (∀ s ∈ [plainOpening], s.OpensOnly Order.IsSteady) ∧
      (run 1 [plainOpening]).Indistinguishable
        (run 7 [⟨quiet, .request (.create plain)⟩, posting]) ∧
      ∃ o o', (run 1 [plainOpening]).store.Stored "o-1" o ∧
        (run 7 [⟨quiet, .request (.create plain)⟩, posting]).store.Stored "o-1" o' ∧
        o.unreferenced = o'.unreferenced := by
  have hasked : asked [plainOpening] = asked [⟨quiet, .request (.create plain)⟩, posting] := rfl
  have hsteady : ∀ s ∈ [plainOpening], s.OpensOnly Order.IsSteady := by
    intro s hs r o hevent hopens
    cases List.mem_singleton.1 hs
    cases hevent
    rw [CreateRequest.Opens.eq plain _ _ _ plainTotals "o-1" o rfl totals_plain (fun _ => rfl)
      hopens]
    exact isSteady_plainOrder
  have hsettling : ∀ s ∈ [plainOpening], s.OpensOnly Order.Settles :=
    fun s hs r o hevent hopens => (hsteady s hs r o hevent hopens).settles
  obtain ⟨-, hseen, hrows⟩ := write_behind_unseen 1 7 _ _ hasked hsettling
  obtain ⟨store, -, hstored, hbooks⟩ := toBooks_first 1 { quiet with ledgerOutage := some "down" }
    plain _ _ plainTotals plainOrder rfl totals_plain rfl
  have hopened : (run 1 [plainOpening]).store.orders.contains "o-1" = true := by
    rw [show (run 1 [plainOpening]).store = store from congrArg Books.store hbooks]
    exact OrderStore.contains_of_stored store "o-1" plainOrder hstored
  exact ⟨hasked, hsteady, hseen, hrows hsteady "o-1" hopened⟩

/-! ## Figures that do not settle -/

/-- An order and what the bookkeeper leaves of it, as they are found. -/
theorem get_recorded (m : Moment) (r : CreateRequest) (pickup destination : Location)
    (totals : Totals) (o found again : Order) (hcheck : r.check = .ok (pickup, destination))
    (htotals : Totals.ofItems r.items = .ok totals)
    (ho : r.order (m.newId 0) m.now m.later pickup destination totals = o)
    (hread : Rereads.reread? o = some found) (hagain : Rereads.reread? found = some again)
    (hreach : m.ledgerOutage = none) :
    (run 1 [⟨m, .request (.create r)⟩]).store.get o.id = .ok (some found) ∧
      ∃ txRef, (run 1 [⟨m, .request (.create r)⟩, ⟨m, .post⟩]).store.get o.id =
        .ok (some { again with ledgerRef := some txRef }) := by
  obtain ⟨store, -, hstored, hbooks⟩ := toBooks_first 1 m r _ _ _ o hcheck htotals ho
  rw [show [(⟨m, .request (.create r)⟩ : DeskStep), ⟨m, .post⟩] =
    [⟨m, .request (.create r)⟩] ++ [⟨m, .post⟩] from rfl, run_append]
  generalize run 1 [⟨m, .request (.create r)⟩] = d at hbooks
  have hget : d.store.get o.id = .ok (some found) := by
    rw [hbooks]
    exact OrderStore.get_of_reread? store o.id o found hstored hread
  have hholds : d.ledger.Holds [] := by
    rw [hbooks]
    exact Ledger.holds_empty
  have hwaiting : d.queue.waiting = [.ofOrder o] := by
    rw [hbooks]
    rfl
  obtain ⟨e, -, -, -, hnoted⟩ :=
    after_post d m [] (.ofOrder o) [] found hreach hholds (by decide) hwaiting hget
  exact ⟨hget, e.txRef, OrderStore.get_of_reread? _ o.id _ _ hnoted
    (reread?_ledgerRef found again (some e.txRef) hagain)⟩

/-- Whatever the request, if the order that it opens does not settle, recording its snapshot
shows. -/
theorem settles_of_indistinguishable (m : Moment) (r : CreateRequest) (o : Order)
    (hopens : r.Opens m o) :
    ∃ m' : Moment, r.Opens m' o ∧
      asked [⟨m', .request (.create r)⟩] = asked [⟨m', .request (.create r)⟩, ⟨m', .post⟩] ∧
      ((run 1 [⟨m', .request (.create r)⟩]).Indistinguishable
        (run 1 [⟨m', .request (.create r)⟩, ⟨m', .post⟩]) → o.Settles) := by
  obtain ⟨found, hread, hfound⟩ := o.reread?_isFinite (r.isFinite_opens m o hopens)
  obtain ⟨again, hagain, -⟩ := found.reread?_isFinite hfound
  obtain ⟨drawn, pickup, destination, totals, hcheck, htotals, ho⟩ := hopens
  let m' : Moment := { m with ledgerOutage := none, newId := fun _ => m.newId drawn }
  obtain ⟨hbefore, txRef, hafter⟩ := get_recorded m' r pickup destination totals o found again
    hcheck htotals ho.symm hread hagain rfl
  refine ⟨m', ⟨0, pickup, destination, totals, hcheck, htotals, ho⟩, rfl, fun h => ?_⟩
  have hsame := h.orders o.id
  rw [hbefore, hafter] at hsame
  -- Neither has a reference but for the one that is noted.
  have hunreferenced : found.unreferenced = again.unreferenced :=
    Option.some.inj (Except.ok.inj hsame)
  have hnone : found.unreferenced = found ∧ again.unreferenced = again := by
    rw [reread?_order found again hagain, reread?_order o found hread, ho]
    exact ⟨rfl, rfl⟩
  rw [hnone.1, hnone.2] at hunreferenced
  unfold Order.Settles
  rw [hread]
  show Rereads.reread? found = some found
  rw [hagain, hunreferenced]

/-- A request for an item whose price is read back as three numbers in turn. -/
def small : CreateRequest :=
  { costly with items := [⟨"", "a", 0.00437095, 1.9454784807e-05, .empty⟩] }

def smallTotals : Totals :=
  ⟨8.503589165215666e-08, 8.503589165215665e-09, 6.802871332172532e-08⟩

def smallOrder : Order :=
  small.order "o-1" 0 0 (.ofPoint ⟨1, 2⟩) (.ofPoint ⟨3, 4⟩) smallTotals

def smallOpening : DeskStep := ⟨quiet, .request (.create small)⟩

/-- The total of an order is another one, to whoever looks it up, once a snapshot of the order has
been recorded. -/
theorem recording_shows :
    asked [smallOpening] = asked [smallOpening, posting] ∧
      ∃ o o', (run 1 [smallOpening]).get "o-1" = .ok o ∧
        (run 1 [smallOpening, posting]).get "o-1" = .ok o' ∧
        o.totalPrice = 8.503589165215667e-08 ∧ o'.totalPrice = 8.503589165215668e-08 ∧
        o.unreferenced ≠ o'.unreferenced := by
  have htotals : Totals.ofItems small.items = .ok smallTotals := by decide +kernel
  have hread : Rereads.reread? smallOrder =
      some { smallOrder with totalPrice := 8.503589165215667e-08 } := by decide +kernel
  have hagain : Rereads.reread? { smallOrder with totalPrice := 8.503589165215667e-08 } =
      some { smallOrder with totalPrice := 8.503589165215668e-08 } := by decide +kernel
  have hdrift : (8.503589165215667e-08 : Float) ≠ 8.503589165215668e-08 := by decide
  obtain ⟨hbefore, txRef, hafter⟩ :=
    get_recorded quiet small _ _ smallTotals smallOrder _ _ rfl htotals rfl hread hagain rfl
  have hblank : Text.isBlank "o-1" = false := by decide
  exact ⟨rfl, _, _, get_of_store_get _ _ _ hblank hbefore, get_of_store_get _ _ _ hblank hafter,
    rfl, rfl, fun h => hdrift (congrArg Order.totalPrice h)⟩

end Desk

end OrderDispatch
