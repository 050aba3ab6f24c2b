import OrderDispatch.Proofs.Store.Rows

/-!
# The indexes follow the orders

The two indexes of the store are the images of its rows, whatever is inserted and however stored
orders are changed, as long as changes leave alone who an order is and whose.

    (user, i) is listed      ↔  some o is stored under i with o.userId = user
    (provider, i) is listed  ↔  some o is stored under i with o.providerId = some provider

The user index never changes once an order is inserted. The provider index follows every change of
the provider: the old entry goes, the new one comes, and nothing is touched when it stays.
-/

namespace OrderDispatch

/-- Something that is done to the order store. -/
inductive StoreAction (ε : Type) where
  | insert (order : Order)
  | update (orderId : String) (change : Order → Except ε Order)
  | setLedgerRef (orderId txRef : String)

namespace StoreAction

variable {ε : Type}

/-- What the store becomes; what is refused leaves it as it was. -/
def apply (lift : StoreError → ε) (s : OrderStore) : StoreAction ε → OrderStore
  | insert o => (s.insert o).toOption.getD s
  | update orderId change => ((s.update lift orderId change).toOption.map (·.2)).getD s
  | setLedgerRef orderId txRef => ((s.setLedgerRef orderId txRef).toOption.map (·.2)).getD s

/-- The identifier of an order and its user stay as they are. -/
def KeepsOwner : StoreAction ε → Prop
  | insert _ | setLedgerRef .. => True
  | update _ change => ∀ o o', change o = .ok o' → o'.id = o.id ∧ o'.userId = o.userId

/-- The store that a sequence of actions makes of an empty one. -/
def run (lift : StoreError → ε) (actions : List (StoreAction ε)) : OrderStore :=
  actions.foldl (apply lift) .empty

end StoreAction

namespace OrderStore

/-! ## The invariant -/

/-- Every row is the text of an order with its key, and the indexes list what the rows say. -/
structure Indexed (s : OrderStore) : Prop where
  row : ∀ i, s.orders.contains i = true → ∃ o, s.Stored i o ∧ o.id = i
  user : ∀ u i, s.byUser.find? ⟨u, i⟩ = some () ↔ ∃ o, s.Stored i o ∧ o.userId = u
  provider : ∀ p i, s.byProvider.find? ⟨p, i⟩ = some () ↔ ∃ o, s.Stored i o ∧ o.providerId = some p

theorem indexed_empty : empty.Indexed where
  row := by
    intro i h
    cases h
  user := by
    intro u i
    constructor
    · intro h
      cases h
    · rintro ⟨o, h, -⟩
      cases h
  provider := by
    intro p i
    constructor
    · intro h
      cases h
    · rintro ⟨o, h, -⟩
      cases h

/-! ## Entries of an index -/

theorem contains_unit_iff (index : Table (PairKey String String) Unit)
    (key : PairKey String String) : index.contains key = true ↔ index.find? key = some () := by
  unfold Table.contains
  cases index.find? key with
  | none => simp
  | some u => simp

theorem pairKey_eq_iff (a b c d : String) :
    (⟨a, b⟩ : PairKey String String) = ⟨c, d⟩ ↔ a = c ∧ b = d :=
  ⟨fun h => by cases h; exact ⟨rfl, rfl⟩, by rintro ⟨rfl, rfl⟩; rfl⟩

theorem find?_enlist (index : Table (PairKey String String) Unit) (owner : Option String)
    (i x j : String) :
    (enlist index owner i).find? ⟨x, j⟩ = some () ↔
      (j = i ∧ owner = some x) ∨ index.find? ⟨x, j⟩ = some () := by
  cases owner with
  | none => simp [enlist]
  | some o =>
    unfold enlist
    simp only [Table.find?_insert, pairKey_eq_iff]
    split
    · next h => simp [h]
    · next h =>
      constructor
      · exact .inr
      · rintro (⟨rfl, ho⟩ | hj)
        · exact absurd ⟨(Option.some.inj ho).symm, rfl⟩ h
        · exact hj

theorem find?_delist (index : Table (PairKey String String) Unit) (owner : Option String)
    (i x j : String) :
    (delist index owner i).find? ⟨x, j⟩ = some () ↔
      ¬ (j = i ∧ owner = some x) ∧ index.find? ⟨x, j⟩ = some () := by
  cases owner with
  | none => simp [delist]
  | some o =>
    unfold delist
    simp only [Table.find?_erase, pairKey_eq_iff]
    split
    · next h => simp [h]
    · next h =>
      constructor
      · intro hj
        refine ⟨?_, hj⟩
        rintro ⟨rfl, ho⟩
        exact h ⟨(Option.some.inj ho).symm, rfl⟩
      · exact fun hj => hj.2

/-- The orders whose text stands in one row agree on what the indexes list. -/
theorem exists_stored_iff (s : OrderStore) (i : String) (o : Order) (h : s.Stored i o) :
    (∀ u, (∃ p, s.Stored i p ∧ p.userId = u) ↔ o.userId = u) ∧
      ∀ q, (∃ p, s.Stored i p ∧ p.providerId = some q) ↔ o.providerId = some q := by
  have hsame : ∀ p, s.Stored i p → p.userId = o.userId ∧ p.providerId = o.providerId := by
    intro p hp
    have htext : Coded.render p = Coded.render o := Option.some.inj (hp.symm.trans h)
    exact (owners_of_render_eq p o htext).2
  refine ⟨fun u => ⟨?_, fun hu => ⟨o, h, hu⟩⟩, fun q => ⟨?_, fun hq => ⟨o, h, hq⟩⟩⟩
  · rintro ⟨p, hp, hu⟩
    rw [← (hsame p hp).1, hu]
  · rintro ⟨p, hp, hq⟩
    rw [← (hsame p hp).2, hq]

/-! ## Steps -/

/-- A row that is written holds its order, and no other row changes. -/
theorem stored_write (s t : OrderStore) (i : String) (o : Order)
    (h : t.orders = s.orders.insert i (Coded.render o)) :
    t.Stored i o ∧ ∀ j, j ≠ i → ∀ p, t.Stored j p ↔ s.Stored j p := by
  unfold Stored
  rw [h]
  refine ⟨by rw [Table.find?_insert, if_pos rfl], fun j hj p => ?_⟩
  rw [Table.find?_insert, if_neg hj]

/-- The indexes of a store with one more row list what the rows say, if the new entries belong to
the new row and all others to the others. -/
theorem indexed_write (s t : OrderStore) (i : String) (o : Order) (hs : s.Indexed)
    (horders : t.orders = s.orders.insert i (Coded.render o)) (hid : o.id = i)
    (huser : ∀ u j, t.byUser.find? ⟨u, j⟩ = some () ↔
      if j = i then o.userId = u else s.byUser.find? ⟨u, j⟩ = some ())
    (hprovider : ∀ p j, t.byProvider.find? ⟨p, j⟩ = some () ↔
      if j = i then o.providerId = some p else s.byProvider.find? ⟨p, j⟩ = some ()) :
    t.Indexed := by
  obtain ⟨hnew, hothers⟩ := stored_write s t i o horders
  obtain ⟨husers, hproviders⟩ := exists_stored_iff t i o hnew
  constructor
  · intro j hj
    by_cases h : j = i
    · subst h
      exact ⟨o, hnew, hid⟩
    · have hold : s.orders.contains j = true := by
        unfold Table.contains at hj ⊢
        rwa [horders, Table.find?_insert, if_neg h] at hj
      obtain ⟨p, hp, hpj⟩ := hs.row j hold
      exact ⟨p, (hothers j h p).2 hp, hpj⟩
  · intro u j
    rw [huser]
    split
    · next h =>
      subst h
      exact (husers u).symm
    · next h =>
      simp only [hothers j h]
      exact hs.user u j
  · intro p j
    rw [hprovider]
    split
    · next h =>
      subst h
      exact (hproviders p).symm
    · next h =>
      simp only [hothers j h]
      exact hs.provider p j

theorem indexed_insert (s t : OrderStore) (o : Order) (hs : s.Indexed) (h : s.insert o = .ok t) :
    t.Indexed := by
  unfold insert at h
  split at h
  · cases h
  · next hfree =>
    cases h
    have hnone : ∀ p, ¬ s.Stored o.id p := by
      intro p hp
      apply hfree
      unfold Table.contains
      rw [hp]
      rfl
    apply indexed_write s _ o.id o hs rfl rfl
    · intro u j
      rw [find?_enlist, hs.user]
      split
      · next hj => simp [hj, hnone]
      · next hj => simp [hj]
    · intro p j
      rw [find?_enlist, hs.provider]
      split
      · next hj => simp [hj, hnone]
      · next hj => simp [hj]

/-- Writing back an order with the same identifier and user lets the indexes follow. -/
theorem indexed_replace (s : OrderStore) (i : String) (old new : Order) (hs : s.Indexed)
    (hold : s.Stored i old) (hid : new.id = i) (huser : new.userId = old.userId) :
    (s.replace i old.providerId new).Indexed := by
  obtain ⟨husers, hproviders⟩ := exists_stored_iff s i old hold
  apply indexed_write s _ i new hs rfl hid
  · intro u j
    show s.byUser.find? ⟨u, j⟩ = some () ↔ _
    split
    · next hj => rw [hj, hs.user, husers u, huser]
    · rfl
  · intro p j
    have hlisted : s.byProvider.find? ⟨p, i⟩ = some () ↔ old.providerId = some p :=
      (hs.provider p i).trans (hproviders p)
    show (if old.providerId = new.providerId then s.byProvider
      else enlist (delist s.byProvider old.providerId i) new.providerId i).find? ⟨p, j⟩ =
        some () ↔ _
    by_cases hsame : old.providerId = new.providerId
    · rw [if_pos hsame]
      split
      · next hj => rw [hj, hlisted, hsame]
      · rfl
    · rw [if_neg hsame, find?_enlist, find?_delist]
      by_cases hj : j = i
      · subst hj
        simp only [true_and, hlisted, not_and_self_iff, or_false, if_true]
      · simp [hj]

/-- Writing back what was found, changed but for its identifier and its user. -/
theorem indexed_replace_found (s : OrderStore) (i : String) (old new : Order) (hs : s.Indexed)
    (hget : s.get i = .ok (some old)) (hid : new.id = old.id) (huser : new.userId = old.userId) :
    (s.replace i old.providerId new).Indexed := by
  obtain ⟨o, hstored, ho⟩ := hs.row i (contains_of_get s i old hget)
  have hread := reread?_order o old (reread?_of_get s i o old hstored hget)
  have hprovider : old.providerId = o.providerId := by rw [hread]; rfl
  rw [hprovider]
  apply indexed_replace s i o new hs hstored
  · rw [hid, hread]
    exact ho
  · rw [huser, hread]
    rfl

theorem indexed_update {ε : Type} (s t : OrderStore) (lift : StoreError → ε) (i : String)
    (change : Order → Except ε Order) (new : Order) (hs : s.Indexed)
    (hkeeps : ∀ o o', change o = .ok o' → o'.id = o.id ∧ o'.userId = o.userId)
    (h : s.update lift i change = .ok (new, t)) : t.Indexed := by
  obtain ⟨old, hget, hchange, rfl⟩ := update_eq_ok s t lift i change new h
  obtain ⟨hid, huser⟩ := hkeeps old new hchange
  exact indexed_replace_found s i old new hs hget hid huser

/-! ## Runs -/

theorem indexed_apply {ε : Type} (lift : StoreError → ε) (s : OrderStore) (a : StoreAction ε)
    (hs : s.Indexed) (ha : a.KeepsOwner) : (a.apply lift s).Indexed := by
  cases a with
  | insert o =>
    show ((s.insert o).toOption.getD s).Indexed
    cases h : s.insert o with
    | error e => exact hs
    | ok t => exact indexed_insert s t o hs h
  | update i change =>
    show (((s.update lift i change).toOption.map (·.2)).getD s).Indexed
    cases h : s.update lift i change with
    | error e => exact hs
    | ok r => exact indexed_update s r.2 lift i change r.1 hs ha h
  | setLedgerRef i txRef =>
    show (((s.setLedgerRef i txRef).toOption.map (·.2)).getD s).Indexed
    cases h : s.setLedgerRef i txRef with
    | error e => exact hs
    | ok r =>
      refine indexed_update s r.2 id i _ r.1 hs ?_ h
      intro o o' ho
      cases ho
      exact ⟨rfl, rfl⟩

theorem indexed_run {ε : Type} (lift : StoreError → ε) (actions : List (StoreAction ε))
    (h : ∀ a ∈ actions, a.KeepsOwner) (s : OrderStore) (hs : s.Indexed) :
    (actions.foldl (StoreAction.apply lift) s).Indexed := by
  induction actions generalizing s with
  | nil => exact hs
  | cons a as ih =>
    exact ih (fun b hb => h b (List.mem_cons_of_mem _ hb)) _
      (indexed_apply lift s a hs (h a List.mem_cons_self))

/-- The indexes are exactly the image of the orders: no entry points at a missing order, no order
is listed under two providers, and what is found of an order stands where the indexes list it. -/
theorem indexes_eq_image {ε : Type} (lift : StoreError → ε) (actions : List (StoreAction ε))
    (h : ∀ a ∈ actions, a.KeepsOwner) :
    let s := StoreAction.run lift actions
    (∀ u i, s.byUser.contains ⟨u, i⟩ = true ↔ ∃ o, s.Stored i o ∧ o.userId = u) ∧
    (∀ p i, s.byProvider.contains ⟨p, i⟩ = true ↔ ∃ o, s.Stored i o ∧ o.providerId = some p) ∧
    (∀ x key i, (s.index x).contains ⟨key, i⟩ = true → s.orders.contains i = true) ∧
    (∀ p q i, s.byProvider.contains ⟨p, i⟩ = true → s.byProvider.contains ⟨q, i⟩ = true → p = q) ∧
    ∀ i o, s.get i = .ok (some o) →
      (∀ u, s.byUser.contains ⟨u, i⟩ = true ↔ o.userId = u) ∧
      ∀ p, s.byProvider.contains ⟨p, i⟩ = true ↔ o.providerId = some p := by
  intro s
  have hs : s.Indexed := indexed_run lift actions h empty indexed_empty
  have huser := fun u i => (contains_unit_iff s.byUser ⟨u, i⟩).trans (hs.user u i)
  have hprovider := fun p i => (contains_unit_iff s.byProvider ⟨p, i⟩).trans (hs.provider p i)
  refine ⟨huser, hprovider, ?_, ?_, ?_⟩
  · intro x key i hlisted
    cases x with
    | user =>
      obtain ⟨o, ho, -⟩ := (huser key i).1 hlisted
      exact contains_of_stored s i o ho
    | provider =>
      obtain ⟨o, ho, -⟩ := (hprovider key i).1 hlisted
      exact contains_of_stored s i o ho
  · intro p q i hp hq
    obtain ⟨o, ho, hop⟩ := (hprovider p i).1 hp
    have hoq := ((exists_stored_iff s i o ho).2 q).1 ((hprovider q i).1 hq)
    rw [hop] at hoq
    exact Option.some.inj hoq
  · intro i o hget
    obtain ⟨p, hp, -⟩ := hs.row i (contains_of_get s i o hget)
    obtain ⟨husers, hproviders⟩ := exists_stored_iff s i p hp
    have hread := reread?_order p o (reread?_of_get s i p o hp hget)
    refine ⟨fun u => ?_, fun q => ?_⟩
    · rw [huser, husers, hread]
      rfl
    · rw [hprovider, hproviders, hread]
      rfl

/-- An order is inserted for a provider; two more actions are refused. -/
def refusals : List (StoreAction StoreError) :=
  [.insert { (default : Order) with id := "o-1", userId := "u-1", providerId := some "p-1" },
   .insert { (default : Order) with id := "o-1", userId := "u-2", providerId := some "p-2" },
   .update "o-2" fun o => .ok { o with providerId := some "p-2" }]

theorem indexes_eq_image_refusals :
    (∀ a ∈ refusals, a.KeepsOwner) ∧
      (∃ o, (StoreAction.run id refusals).Stored "o-1" o ∧ o.providerId = some "p-1") ∧
      ¬ ∃ o, (StoreAction.run id refusals).Stored "o-1" o ∧ o.userId = "u-2" := by
  have hkeeps : ∀ a ∈ refusals, a.KeepsOwner := by
    intro a ha
    simp only [refusals, List.mem_cons, List.not_mem_nil, or_false] at ha
    rcases ha with rfl | rfl | rfl
    · trivial
    · trivial
    · rintro o o' ⟨⟩
      exact ⟨rfl, rfl⟩
  obtain ⟨huser, hprovider, -⟩ := indexes_eq_image id refusals hkeeps
  refine ⟨hkeeps, (hprovider "p-1" "o-1").1 (by decide), fun h => ?_⟩
  have hlisted := (huser "u-2" "o-1").2 h
  have hnot : (StoreAction.run id refusals).byUser.contains ⟨"u-2", "o-1"⟩ = false := by
    decide
  rw [hnot] at hlisted
  cases hlisted

end OrderStore

end OrderDispatch
