import OrderDispatch.Proofs.Directory.Registry
import OrderDispatch.Proofs.Json.Skipping

/-!
# Seeding is all or nothing

A seed is the text of a list, and which items the list has does not depend on what they are taken
for (`places?`). If every item is a provider, all of them are registered and counted, and under each
identifier the last one stays. If a single item is not, wherever it is, none is registered.

    read text = .ok as ↔ the items of the text stand for as, one by one     (read_list_iff)

-/

namespace OrderDispatch

/-! ## The items of a list -/

namespace Json

/-- Passes over a value, and answers the text from it on. -/
def place : Reader (List Char) := fun cs => (skipValue cs).map fun (_, rest) => (cs, rest)

/-- The items of a list, each by the text from it on. -/
def places : Reader (List (List Char)) := fun cs =>
  match skipSpace cs with
  | '[' :: cs => items place cs
  | _ => .error .malformed

/-- The items of the list that a text is, if it is one, each by the text from it on. -/
def places? (text : String) : Option (List (List Char)) := (whole places text).toOption

example : (places? " [1, [2, 3], \x7b\"a\": [4]\x7d ] ").map List.length = some 3 := by
  decide +kernel

/-- A value that stands at the beginning of a text. -/
def Begins {α : Type} (read : Reader α) (cs : List Char) (a : α) : Prop :=
  ∃ rest, read cs = .ok (a, rest)

theorem place_eq_ok_iff (cs e rest : List Char) :
    place cs = .ok (e, rest) ↔ e = cs ∧ skipValue cs = .ok ((), rest) := by
  unfold place
  cases h : skipValue cs with
  | error p => simp [Except.map]
  | ok found =>
    obtain ⟨_, rest'⟩ := found
    simp [Except.map, eq_comm]

theorem place_of_read {α : Type} (read : Reader α) (hread : PassedOver read) (cs : List Char)
    (a : α) (rest : List Char) (h : read cs = .ok (a, rest)) : place cs = .ok (cs, rest) :=
  (place_eq_ok_iff cs cs rest).2 ⟨rfl, hread _ cs a rest (Nat.lt_succ_self _) h⟩

/-- Items are read one by one, from where they stand. -/
theorem itemsWithin_eq_ok_iff {α : Type} (read : Reader α) (hread : PassedOver read) (n : Nat)
    (first : Bool) (cs : List Char) (as : List α) (rest : List Char) :
    itemsWithin read n first cs = .ok (as, rest) ↔
      ∃ es, itemsWithin place n first cs = .ok (es, rest) ∧ List.Forall₂ (Begins read) es as := by
  induction n generalizing first cs as with
  | zero =>
    constructor
    · intro h
      cases h
    · rintro ⟨es, h, -⟩
      cases h
  | succ n ih =>
    unfold itemsWithin
    cases hnext : next ']' first cs with
    | error p =>
      constructor
      · intro h
        cases h
      · rintro ⟨es, h, -⟩
        cases h
    | ok what =>
      simp only [ok_bind]
      cases what with
      | close rest' =>
        constructor
        · rintro ⟨⟩
          exact ⟨[], rfl, .nil⟩
        · rintro ⟨es, h, hall⟩
          cases h
          cases hall
          rfl
      | item cs' =>
        constructor
        · intro h
          obtain ⟨⟨a, cs''⟩, ha, h⟩ := bind_eq_ok h
          obtain ⟨⟨as', rest'⟩, has, h⟩ := bind_eq_ok h
          cases h
          obtain ⟨es, hes, hall⟩ := (ih false cs'' as').1 has
          refine ⟨cs' :: es, ?_, .cons ⟨cs'', ha⟩ hall⟩
          simp only [place_of_read read hread cs' a cs'' ha, ok_bind, hes]
          rfl
        · rintro ⟨es, h, hall⟩
          obtain ⟨⟨e, cs''⟩, he, h⟩ := bind_eq_ok h
          obtain ⟨⟨es', rest'⟩, hes, h⟩ := bind_eq_ok h
          cases h
          -- The item is read to where it was passed over to.
          obtain _ | ⟨⟨behind, ha⟩, hall⟩ := hall
          obtain ⟨rfl, -⟩ := (place_eq_ok_iff _ _ _).1 he
          have hplace := place_of_read read hread _ _ _ ha
          rw [he] at hplace
          cases hplace
          simp only [ha, ok_bind, (ih false cs'' _).2 ⟨es', hes, hall⟩]
          rfl

theorem whole_eq_ok_iff {α : Type} (read : Reader α) (text : String) (a : α) :
    whole read text = .ok a ↔
      ∃ rest, read text.toList = .ok (a, rest) ∧ (skipSpace rest).isEmpty = true := by
  unfold whole
  constructor
  · intro h
    obtain ⟨⟨a', rest⟩, hread, h⟩ := bind_eq_ok h
    simp only at h
    split at h
    · next hend =>
      cases h
      exact ⟨rest, hread, hend⟩
    · cases h
  · rintro ⟨rest, hread, hend⟩
    rw [hread, ok_bind]
    exact if_pos hend

theorem places?_eq_some_iff (text : String) (es : List (List Char)) :
    places? text = some es ↔
      ∃ rest, places text.toList = .ok (es, rest) ∧ (skipSpace rest).isEmpty = true := by
  rw [← whole_eq_ok_iff]
  unfold places?
  cases whole places text <;> simp [Except.toOption]

/-- A list is read where there is one, item by item. -/
theorem readList_eq_ok_iff (read : Reader Json) (hread : PassedOver read) (cs : List Char) (j : Json)
    (rest : List Char) :
    Shape.readList read cs = .ok (j, rest) ↔
      ∃ es js, places cs = .ok (es, rest) ∧ List.Forall₂ (Begins read) es js ∧ j = .list js := by
  by_cases hopen : ∃ behind, skipSpace cs = '[' :: behind
  · obtain ⟨behind, hspace⟩ := hopen
    simp only [Shape.readList, places, hspace]
    constructor
    · intro h
      obtain ⟨⟨js, rest'⟩, hjs, h⟩ := map_eq_ok h
      cases h
      obtain ⟨es, hes, hall⟩ := (itemsWithin_eq_ok_iff read hread _ true behind js _).1 hjs
      exact ⟨es, js, hes, hall, rfl⟩
    · rintro ⟨es, js, hes, hall, rfl⟩
      have hjs : items read behind = .ok (js, rest) :=
        (itemsWithin_eq_ok_iff read hread _ true behind js rest).2 ⟨es, hes, hall⟩
      rw [hjs]
      rfl
  · have hlist : Shape.readList read cs = .error (mismatch (skipSpace cs)) := by
      unfold Shape.readList
      split
      · next behind hspace => exact absurd ⟨behind, hspace⟩ hopen
      · rfl
    have hplaces : places cs = .error .malformed := by
      unfold places
      split
      · next behind hspace => exact absurd ⟨behind, hspace⟩ hopen
      · rfl
    rw [hlist, hplaces]
    constructor
    · rintro ⟨⟩
    · rintro ⟨es, js, ⟨⟩, -⟩

end Json

section Lists

variable {α : Type} [Coded α]

/-- A value that the beginning of a text stands for. -/
def Stands (cs : List Char) (a : α) : Prop :=
  ∃ j, Json.Begins (Coded.shape α).read cs j ∧ Coded.decode? j = some a

theorem forall₂_stands_iff (es : List (List Char)) (as : List α) :
    List.Forall₂ Stands es as ↔ ∃ js, List.Forall₂ (Json.Begins (Coded.shape α).read) es js ∧
      js.mapM Coded.decode? = some as := by
  induction es generalizing as with
  | nil =>
    constructor
    · rintro ⟨⟩
      exact ⟨[], .nil, rfl⟩
    · rintro ⟨_, ⟨⟩, h⟩
      cases h
      exact .nil
  | cons e es ih =>
    constructor
    · rintro (_ | ⟨⟨j, hj, ha⟩, hall⟩)
      obtain ⟨js, hjs, has⟩ := (ih _).1 hall
      exact ⟨j :: js, .cons hj hjs, by simp [List.mapM_cons, ha, has]⟩
    · rintro ⟨_, _ | ⟨hj, hjs⟩, h⟩
      rw [List.mapM_cons] at h
      obtain ⟨a, ha, h⟩ := Option.bind_eq_some_iff.1 h
      obtain ⟨as', has, h⟩ := Option.bind_eq_some_iff.1 h
      cases h
      exact .cons ⟨_, hj, ha⟩ ((ih _).2 ⟨_, hjs, has⟩)

/-- A text is read as a list of values just if its items stand for them, one by one. -/
theorem read_list_iff (text : String) (as : List α) :
    (Coded.read text : Except Json.Problem (List α)) = .ok as ↔
      ∃ es, Json.places? text = some es ∧ List.Forall₂ Stands es as := by
  have hpassed : Json.PassedOver (Coded.shape α).read := Json.passed_read _
  have hread : (Coded.shape (List α)).read = Shape.readList (Coded.shape α).read := by
    show (Shape.list (Coded.shape α)).read = _
    simp only [Shape.read]
  unfold Coded.read
  rw [hread]
  constructor
  · intro h
    obtain ⟨j, hj, h⟩ := bind_eq_ok h
    obtain ⟨rest, hj, hend⟩ := (Json.whole_eq_ok_iff _ _ _).1 hj
    obtain ⟨es, js, hes, hall, rfl⟩ := (Json.readList_eq_ok_iff _ hpassed _ _ _).1 hj
    split at h
    · next as' has =>
      cases h
      exact ⟨es, (Json.places?_eq_some_iff text es).2 ⟨rest, hes, hend⟩,
        (forall₂_stands_iff es as).2 ⟨js, hall, has⟩⟩
    · cases h
  · rintro ⟨es, hes, hall⟩
    obtain ⟨js, hjs, has⟩ := (forall₂_stands_iff es as).1 hall
    obtain ⟨rest, hes, hend⟩ := (Json.places?_eq_some_iff text es).1 hes
    rw [(Json.whole_eq_ok_iff _ _ _).2
      ⟨rest, (Json.readList_eq_ok_iff _ hpassed _ _ _).2 ⟨es, js, hes, hjs, rfl⟩, hend⟩, ok_bind,
      show (Coded.decode? (Json.list js) : Option (List α)) = some as from has]
    rfl

end Lists

/-! ## Registering one after another -/

namespace Registry

/-- Under each identifier the last registration stays, and what was there before if there is none. -/
theorem find?_foldl_register (r : Registry) (ps : List Provider) (i : String) :
    (ps.foldl register r).providers.find? i =
      (ps.reverse.find? (·.providerId == i)).or (r.providers.find? i) := by
  induction ps using List.reverseRecOn with
  | nil => rfl
  | append_singleton ps p ih =>
    rw [List.foldl_append]
    show ((ps.foldl register r).providers.insert p.providerId p).find? i = _
    rw [Table.find?_insert, ih, List.reverse_append, List.reverse_singleton, List.singleton_append,
      List.find?_cons]
    by_cases hi : i = p.providerId
    · subst hi
      simp
    · rw [if_neg hi, beq_false_of_ne (Ne.symm hi)]

/-- Seeding is all or nothing. If the text is no list, or any item of it is no provider, the seed is
refused, and the directory answers and takes notifications as before. Otherwise all the items are
counted, and under each identifier there is the last of them, or what was there before. -/
theorem seeding_all_or_nothing (r : Registry) (text : String) :
    let r' := (r.load text).2
    ((∃ e, (r.load text).1 = .error e) ∧
      (∀ es, Json.places? text = some es → ∃ e ∈ es, ∀ p : Provider, ¬ Stands e p) ∧
      (∀ search, r'.directory.find search = r.directory.find search) ∧
      ∀ n, r'.directory.notify n = r.directory.notify n) ∨
    ∃ es ps, Json.places? text = some es ∧ List.Forall₂ Stands es ps ∧
      (r.load text).1 = .ok es.length ∧
      ∀ i, r'.providers.find? i =
        (ps.reverse.find? (·.providerId == i)).or (r.providers.find? i) := by
  dsimp only
  unfold load
  cases hread : (Coded.read text : Except Json.Problem (List Provider)) with
  | error problem =>
    refine .inl ⟨⟨_, rfl⟩, fun es hes => ?_, fun search => rfl, fun n => rfl⟩
    by_contra hno
    push Not at hno
    choose! provider hprovider using hno
    have hall : List.Forall₂ Stands es (es.map provider) :=
      List.forall₂_map_right_iff.2 (List.forall₂_same.2 hprovider)
    rw [(read_list_iff text _).2 ⟨es, hes, hall⟩] at hread
    cases hread
  | ok ps =>
    obtain ⟨es, hes, hall⟩ := (read_list_iff text ps).1 hread
    exact .inr ⟨es, ps, hes, hall, by rw [hall.length_eq], find?_foldl_register r ps⟩

end Registry

end OrderDispatch
