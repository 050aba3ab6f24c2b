import OrderDispatch.Proofs.Desk.Rows
import OrderDispatch.Proofs.Table

/-!
# Listings

What an index lists under a key are the stored orders of that owner, each once: the entries under
the key are the identifiers of the orders whose rows say so, and all rows can be read. So a listing
is a part of all stored orders, sorted. No two of them have the same identifier, so that the order
of a listing leaves nothing open.

    all s                     the stored orders, in the order of their identifiers
    matching s x key status   those of an owner, of one status or of any
    list s x key status i n   n of these from i on, newest first, and their count     (list_eq)
-/

namespace OrderDispatch

/-- The order is listed under a key of an index. -/
def Order.isUnder (o : Order) : OrderIndex → String → Bool
  | .user, key => o.userId == key
  | .provider, key => o.providerId == some key

namespace OrderStore

/-- The order that is found under an identifier, if any. -/
def found? (s : OrderStore) (i : String) : Option Order := (s.get i).toOption.join

/-- All stored orders, in the order of their identifiers. -/
def all (s : OrderStore) : List Order := s.orders.keys.filterMap s.found?

/-- The stored orders of an owner, of one status or of any. -/
def matching (s : OrderStore) (x : OrderIndex) (key : String) (status : Option OrderStatus) :
    List Order :=
  s.all.filter fun o => status.all (· == o.status) && o.isUnder x key

theorem found?_eq_some_iff (s : OrderStore) (i : String) (o : Order) :
    s.found? i = some o ↔ s.get i = .ok (some o) := by
  unfold found?
  rcases s.get i with e | _ | p <;> simp [Except.toOption]

/-- What is found stands in a row. -/
theorem exists_row_of_get (s : OrderStore) (i : String) (o : Order) (h : s.get i = .ok (some o)) :
    ∃ row, s.orders.find? i = some row ∧ readRow row = .ok o := by
  unfold get at h
  cases hrow : s.orders.find? i with
  | none =>
    rw [hrow] at h
    cases h
  | some row =>
    rw [hrow] at h
    refine ⟨row, rfl, ?_⟩
    cases hread : (readRow row : Except StoreError Order) with
    | error e =>
      simp only [hread] at h
      cases h
    | ok o' =>
      simp only [hread] at h
      cases h
      rfl

/-! ## The order of a listing -/

instance : Std.TransCmp newerFirst :=
  have : Std.TransCmp fun a b : Order => compareOn Order.createdAt b a := .opposite
  inferInstanceAs (Std.TransCmp
    (compareLex (fun a b => compareOn Order.createdAt b a) (compareOn Order.id)))

/-- The order that was created later goes first, and of two as old as each other the one with the
smaller identifier. -/
theorem newerFirst_eq_lt_iff (a b : Order) :
    newerFirst a b = .lt ↔
      b.createdAt < a.createdAt ∨ a.createdAt = b.createdAt ∧ a.id < b.id := by
  have hid : compare a.id b.id = .lt ↔ a.id < b.id := compareOfLessAndEq_eq_lt
  unfold newerFirst
  rw [Ordering.then_eq_lt, Std.compare_eq_lt, Std.compare_eq_iff_eq, hid, eq_comm]

/-- Of two orders with different identifiers one goes before the other. -/
theorem id_eq_of_newerFirst (a b : Order) (h : newerFirst a b = .eq) : a.id = b.id :=
  Std.LawfulEqOrd.eq_of_compare (Ordering.then_eq_eq.1 h).2

/-- A sorted list of orders with different identifiers. -/
theorem pairwise_newerFirst (os : List Order) (h : (os.map (·.id)).Nodup) :
    (os.mergeSort fun a b => (newerFirst a b).isLE).Pairwise fun a b =>
      b.createdAt < a.createdAt ∨ a.createdAt = b.createdAt ∧ a.id < b.id := by
  have hsorted : (os.mergeSort fun a b => (newerFirst a b).isLE).Pairwise
      fun a b => (newerFirst a b).isLE = true := by
    refine List.pairwise_mergeSort (fun a b c => Std.TransCmp.isLE_trans) (fun a b => ?_) os
    have hswap : newerFirst b a = (newerFirst a b).swap := Std.OrientedCmp.eq_swap
    rw [hswap]
    cases newerFirst a b <;> rfl
  have hids : (os.mergeSort fun a b => (newerFirst a b).isLE).Pairwise fun a b => a.id ≠ b.id := by
    rw [← List.pairwise_map]
    exact ((List.mergeSort_perm os _).map (·.id)).nodup_iff.2 h
  refine (hsorted.and hids).imp ?_
  rintro a b ⟨hle, hne⟩
  rw [← newerFirst_eq_lt_iff]
  cases hcmp : newerFirst a b with
  | lt => rfl
  | eq => exact absurd (id_eq_of_newerFirst a b hcmp) hne
  | gt =>
    rw [hcmp] at hle
    cases hle

/-! ## What an index lists -/

section Reachable

variable (s : OrderStore) (hs : s.Indexed) (hread : s.Readable)

include hs

/-- Who is found is listed where the order says. -/
theorem listed_iff_of_get (i : String) (o : Order) (h : s.get i = .ok (some o)) (x : OrderIndex)
    (key : String) : (s.index x).find? ⟨key, i⟩ = some () ↔ o.isUnder x key = true := by
  obtain ⟨p, hp, -⟩ := hs.row i (contains_of_get s i o h)
  obtain ⟨husers, hproviders⟩ := exists_stored_iff s i p hp
  have hsame := reread?_order p o (reread?_of_get s i p o hp h)
  cases x with
  | user =>
    have huser : o.userId = p.userId := by rw [hsame]; rfl
    show s.byUser.find? ⟨key, i⟩ = some () ↔ (o.userId == key) = true
    rw [hs.user, husers, huser, beq_iff_eq]
  | provider =>
    have hprovider : o.providerId = p.providerId := by rw [hsame]; rfl
    show s.byProvider.find? ⟨key, i⟩ = some () ↔ (o.providerId == some key) = true
    rw [hs.provider, hproviders, hprovider, beq_iff_eq]

theorem contains_of_listed (x : OrderIndex) (key i : String)
    (h : (s.index x).find? ⟨key, i⟩ = some ()) : s.orders.contains i = true := by
  cases x with
  | user =>
    obtain ⟨o, ho, -⟩ := (hs.user key i).1 h
    exact contains_of_stored s i o ho
  | provider =>
    obtain ⟨o, ho, -⟩ := (hs.provider key i).1 h
    exact contains_of_stored s i o ho

/-- What is found under some identifiers has these identifiers. -/
theorem map_id_found? (is : List String) :
    (is.filterMap s.found?).map (·.id) = is.filter fun i => (s.found? i).isSome := by
  induction is with
  | nil => rfl
  | cons i is ih =>
    cases hfound : s.found? i with
    | none =>
      rw [List.filterMap_cons_none hfound, ih, List.filter_cons_of_neg (by simp [hfound])]
    | some o =>
      have hid := Desk.id_of_get s hs i o ((found?_eq_some_iff s i o).1 hfound)
      rw [List.filterMap_cons_some hfound, List.map_cons, ih,
        List.filter_cons_of_pos (by simp [hfound]), hid]

theorem nodup_found? (is : List String) (h : is.Nodup) :
    ((is.filterMap s.found?).map (·.id)).Nodup := by
  rw [map_id_found? s hs]
  exact h.filter _

theorem mem_all_iff (o : Order) : o ∈ s.all ↔ s.get o.id = .ok (some o) := by
  unfold all
  rw [List.mem_filterMap]
  constructor
  · rintro ⟨i, -, hfound⟩
    have hget := (found?_eq_some_iff s i o).1 hfound
    rwa [Desk.id_of_get s hs i o hget]
  · intro hget
    have hkey := (Table.mem_keys_iff s.orders o.id).2 (contains_of_get s o.id o hget)
    exact ⟨o.id, hkey, (found?_eq_some_iff s o.id o).2 hget⟩

include hread

/-- All stored orders can be read. -/
theorem map_id_all : s.all.map (·.id) = s.orders.keys := by
  unfold all
  rw [map_id_found? s hs, List.filter_eq_self]
  intro i hi
  obtain ⟨o, hget, -⟩ := exists_found s hread i ((Table.mem_keys_iff s.orders i).1 hi)
  rw [(found?_eq_some_iff s i o).2 hget]
  rfl

omit hs in
/-- The rows of stored orders are read one by one. -/
theorem mapM_readRow_found? (is : List String) (h : ∀ i ∈ is, s.orders.contains i = true) :
    (is.filterMap s.orders.find?).mapM readRow = .ok (is.filterMap s.found?) := by
  induction is with
  | nil => rfl
  | cons i is ih =>
    obtain ⟨o, hget, -⟩ := exists_found s hread i (h i List.mem_cons_self)
    obtain ⟨row, hrow, hreadRow⟩ := exists_row_of_get s i o hget
    rw [List.filterMap_cons_some hrow,
      List.filterMap_cons_some ((found?_eq_some_iff s i o).2 hget), List.mapM_cons, hreadRow,
      ih fun j hj => h j (List.mem_cons_of_mem _ hj)]
    rfl

/-- An index lists the orders that are found under its entries. -/
theorem indexed_eq (x : OrderIndex) (key : String) :
    s.indexed x key = .ok ((((s.index x).under key).map (·.1)).filterMap s.found?) := by
  have hrows : ((s.index x).under key).filterMap (fun e => s.orders.find? e.1) =
      (((s.index x).under key).map (·.1)).filterMap s.orders.find? := by
    rw [List.filterMap_map]
    rfl
  show (((s.index x).under key).filterMap fun e => s.orders.find? e.1).mapM readRow = _
  rw [hrows]
  refine mapM_readRow_found? s hread _ ?_
  intro i hi
  obtain ⟨⟨_, u⟩, he, rfl⟩ := List.mem_map.1 hi
  exact contains_of_listed s hs x key _ ((Table.mem_under_iff _ key _ u).1 he)

omit hread in
/-- They are the stored orders of the owner. -/
theorem perm_indexed (x : OrderIndex) (key : String) :
    ((((s.index x).under key).map (·.1)).filterMap s.found?).Perm
      (s.all.filter (·.isUnder x key)) := by
  have hlisted := (nodup_found? s hs _ (Table.nodup_under (s.index x) key)).of_map
  have hall : s.all.Nodup := (nodup_found? s hs _ (Table.nodup_keys s.orders)).of_map
  rw [List.perm_ext_iff_of_nodup hlisted (hall.filter _)]
  intro o
  rw [List.mem_filterMap, List.mem_filter, mem_all_iff s hs]
  constructor
  · rintro ⟨i, hi, hfound⟩
    obtain ⟨⟨_, u⟩, he, rfl⟩ := List.mem_map.1 hi
    have hget := (found?_eq_some_iff s _ o).1 hfound
    have hentry := (Table.mem_under_iff _ key _ u).1 he
    have hunder := (listed_iff_of_get s hs _ o hget x key).1 hentry
    rw [Desk.id_of_get s hs _ o hget]
    exact ⟨hget, hunder⟩
  · rintro ⟨hget, hunder⟩
    have hentry := (listed_iff_of_get s hs o.id o hget x key).2 hunder
    exact ⟨o.id, List.mem_map.2 ⟨_, (Table.mem_under_iff _ key _ ()).2 hentry, rfl⟩,
      (found?_eq_some_iff s o.id o).2 hget⟩

/-- A listing is cut out of all matching orders, sorted. -/
theorem list_eq (x : OrderIndex) (key : String) (status : Option OrderStatus) :
    ∃ listing : List Order, listing.Perm (s.matching x key status) ∧
      (listing.Pairwise fun a b =>
        b.createdAt < a.createdAt ∨ a.createdAt = b.createdAt ∧ a.id < b.id) ∧
      ∀ offset limit, s.list x key status offset limit =
        .ok ⟨(listing.drop offset).take limit, (s.matching x key status).length⟩ := by
  have hindexed := indexed_eq s hs hread x key
  have hperm := (perm_indexed s hs x key).filter fun o => status.all (· == o.status)
  have hids := nodup_found? s hs _ (Table.nodup_under (s.index x) key)
  generalize (((s.index x).under key).map (·.1)).filterMap s.found? = os at hindexed hperm hids
  rw [List.filter_filter] at hperm
  have hall := (List.mergeSort_perm (os.filter fun o => status.all (· == o.status))
    fun a b => (newerFirst a b).isLE).trans hperm
  refine ⟨_, hall, pairwise_newerFirst _ ?_, fun offset limit => ?_⟩
  · exact hids.sublist (List.filter_sublist.map _)
  · unfold list matching
    rw [hindexed, ← hall.length_eq]
    rfl

end Reachable

end OrderStore

end OrderDispatch
