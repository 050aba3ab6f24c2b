import Mathlib
import OrderDispatch.Json.Shape
import OrderDispatch.Proofs.Json.Numeral
import OrderDispatch.Proofs.Json.Text
import OrderDispatch.Proofs.Table

/-!
# Echoes

What reading by a shape makes of a text that was written from a value. `Echoes read text result`
says that `read` takes exactly `text` off the front of whatever it is part of, and finds `result`,
or fails if there is none; so it says both when a row is read and what is found in it.

    Echoes real.read (real x).chars (reread? x)                      (echoes_real)
    an echo of every part is an echo of the whole        (echoes_list, echoes_record)
    read (render a) finds reread? a                                  (read_render)
-/

namespace OrderDispatch

theorem ok_bind {ε α β : Type} (a : α) (f : α → Except ε β) : (Except.ok a >>= f) = f a := rfl

/-- A chain succeeds only if both its parts do. -/
theorem bind_eq_ok {ε α β : Type} {x : Except ε α} {f : α → Except ε β} {b : β}
    (h : (x >>= f) = .ok b) : ∃ a, x = .ok a ∧ f a = .ok b := by
  cases x with
  | error e => cases h
  | ok a => exact ⟨a, rfl, h⟩

theorem toOption_bind {ε α β : Type} (x : Except ε α) (f : α → Except ε β) :
    (x >>= f).toOption = x.toOption.bind fun a => (f a).toOption := by
  cases x <;> rfl

theorem toOption_map {ε α β : Type} (x : Except ε α) (f : α → β) :
    (x.map f).toOption = x.toOption.map f := by
  cases x <;> rfl

theorem toOption_mapError {ε δ α : Type} (x : Except ε α) (f : ε → δ) :
    (x.mapError f).toOption = x.toOption := by
  cases x <;> rfl

namespace Json

/-- What `read` makes of `text`, whatever stands behind it. -/
def Echoes {α : Type} (read : Reader α) (text : List Char) (result : Option α) : Prop :=
  ∀ rest, Delimited rest → (read (text ++ rest)).toOption = result.map (·, rest)

/-! ## First characters -/

/-- A text that begins like a value other than null: with no blank, comma or closing bracket. -/
def Opens (text : List Char) : Prop :=
  ∃ c cs, text = c :: cs ∧ isSpace c = false ∧ c ∉ [',', ']', '}', 'n']

theorem skipSpace_cons (c : Char) (cs : List Char) (h : isSpace c = false) :
    skipSpace (c :: cs) = c :: cs := by
  unfold skipSpace
  rw [List.dropWhile_cons_of_neg (by simp [h])]

theorem opens_text (s : String) : Opens (Json.text s).chars :=
  ⟨'"', _, rfl, by decide, by decide⟩

theorem opens_list (js : List Json) : Opens (list js).chars :=
  ⟨'[', itemChars js ++ [']'], rfl, by decide, by decide⟩

theorem opens_record (fields : List (String × Json)) : Opens (record fields).chars :=
  ⟨'{', fieldChars fields ++ ['}'], rfl, by decide, by decide⟩

/-! ## Separators -/

/-- What stands before an item: a comma, unless it is the first one. -/
def separator (first : Bool) : List Char := if first then [] else [',']

/-- Texts with commas between them, and one before them unless they are the first ones. -/
def joined : (first : Bool) → List (List Char) → List Char
  | _, [] => []
  | first, t :: ts => separator first ++ (t ++ joined false ts)

/-- A field as it is written. -/
def fieldText (field : String × Json) : List Char := quoted field.1 ++ ':' :: field.2.chars

theorem itemChars_eq (js : List Json) : itemChars js = joined true (js.map chars) := by
  induction js with
  | nil => rfl
  | cons j js ih =>
    cases js with
    | nil => simp [itemChars, joined, separator]
    | cons k ks =>
      rw [itemChars, ih]
      · simp [joined, separator]
      · simp

theorem fieldChars_eq (fields : List (String × Json)) :
    fieldChars fields = joined true (fields.map fieldText) := by
  induction fields with
  | nil => rfl
  | cons f fs ih =>
    obtain ⟨name, value⟩ := f
    cases fs with
    | nil => simp [fieldChars, joined, separator, fieldText]
    | cons g gs =>
      rw [fieldChars, ih]
      · simp [joined, separator, fieldText]
      · simp

/-! ## What is written of each kind -/

theorem chars_int (n : Int) : (int n).chars = Binary64.intChars n := rfl

theorem chars_real (x : Float) : (real x).chars = realChars x := rfl

theorem chars_text (s : String) : (text s).chars = quoted s := rfl

theorem chars_list (js : List Json) :
    (list js).chars = '[' :: (joined true (js.map chars) ++ [']']) := by
  show '[' :: (itemChars js ++ [']']) = _
  rw [itemChars_eq]

theorem chars_record (fields : List (String × Json)) :
    (record fields).chars = '{' :: (joined true (fields.map fieldText) ++ ['}']) := by
  show '{' :: (fieldChars fields ++ ['}']) = _
  rw [fieldChars_eq]

/-! ## Items, one after the other -/

/-- No item is shorter than one character. -/
theorem length_le_joined (first : Bool) (texts : List (List Char)) (h : ∀ t ∈ texts, t ≠ []) :
    texts.length ≤ (joined first texts).length := by
  induction texts generalizing first with
  | nil => exact Nat.zero_le _
  | cons t ts ih =>
    have ht := List.length_pos_iff.2 (h t List.mem_cons_self)
    have hts := ih false fun t' ht' => h t' (List.mem_cons_of_mem _ ht')
    simp only [joined, List.length_append, List.length_cons]
    omega

theorem delimited_joined (texts : List (List Char)) (closing : Char) (rest : List Char)
    (h : closing = ']' ∨ closing = '}') : Delimited (joined false texts ++ closing :: rest) := by
  cases texts with
  | nil => exact delimited_cons rest (.inr h)
  | cons t ts => exact delimited_cons _ (.inl rfl)

/-- An item that opens like a value comes next, whether or not something stands before it. -/
theorem next_item (closing : Char) (first : Bool) (text rest : List Char)
    (hclosing : closing = ']' ∨ closing = '}') (h : Opens text) :
    next closing first (separator first ++ (text ++ rest)) = .ok (.item (text ++ rest)) := by
  obtain ⟨c, cs, rfl, hspace, hc⟩ := h
  have hne : c ≠ closing := by
    rintro rfl
    rcases hclosing with rfl | rfl <;> simp at hc
  have hcomma : ',' ≠ closing := by rcases hclosing with rfl | rfl <;> decide
  cases first with
  | true =>
    show next closing true (c :: (cs ++ rest)) = _
    unfold next
    rw [skipSpace_cons c _ hspace]
    simp only [hne, if_false, if_true]
    rfl
  | false =>
    show next closing false (',' :: c :: (cs ++ rest)) = _
    unfold next
    rw [skipSpace_cons ',' _ (by decide)]
    simp only [hcomma, hne, if_false, if_true, Bool.false_eq_true, skipSpace_cons c _ hspace]
    rfl

theorem next_close (closing : Char) (first : Bool) (rest : List Char)
    (h : closing = ']' ∨ closing = '}') :
    next closing first (closing :: rest) = .ok (.close rest) := by
  unfold next
  rw [skipSpace_cons closing rest (by rcases h with rfl | rfl <;> decide)]
  simp

/-! ## Kinds without parts -/

/-- A number begins with a minus sign or a digit. -/
theorem startsNumber_of_literal (cs : List Char) (found : Literal × List Char)
    (h : literal cs = .ok found) : ∃ c rest, cs = c :: rest ∧ startsNumber c = true := by
  cases cs with
  | nil => cases h
  | cons c rest =>
    refine ⟨c, rest, rfl, ?_⟩
    by_contra hc
    have hnot : c ≠ '-' ∧ c.isDigit = false := by simpa [startsNumber] using hc
    simp [literal, hnot, Binary64.spanDigits] at h

theorem isSpace_of_startsNumber (c : Char) (h : startsNumber c = true) : isSpace c = false := by
  cases hs : isSpace c with
  | false => rfl
  | true =>
    unfold isSpace at hs
    simp only [Bool.or_eq_true, decide_eq_true_eq] at hs
    rcases hs with ((rfl | rfl) | rfl) | rfl <;> cases h

/-- Where a number stands, it is read and converted. -/
theorem readNumber_of_literal (convert? : Json → Option Json) (cs : List Char)
    (found : Literal × List Char) (h : literal cs = .ok found) :
    (Shape.readNumber convert? cs).toOption =
      (number cs).toOption.bind fun (j, rest) => (convert? j).map (·, rest) := by
  obtain ⟨c, rest, rfl, hstart⟩ := startsNumber_of_literal cs found h
  unfold Shape.readNumber
  rw [skipSpace_cons c rest (isSpace_of_startsNumber c hstart)]
  simp only [hstart, if_true]
  cases number (c :: rest) with
  | error p => rfl
  | ok found =>
    obtain ⟨j, rest⟩ := found
    cases hj : convert? j with
    | none => simp [Except.toOption, hj]
    | some k => simp [Except.toOption, hj]

/-- An integer within the bounds is found as it is. -/
theorem echoes_whole (low high n : Int) (hlow : low ≤ n) (hhigh : n ≤ high) (hn : IsWord n) :
    Echoes (Shape.whole low high).read (int n).chars (some (.int n)) := by
  intro rest hrest
  show Except.toOption (Shape.readNumber (Shape.within? low high) _) = _
  rw [chars_int, readNumber_of_literal _ _ _ (literal_intChars n rest hrest),
    number_intChars n rest hn hrest]
  simp [Except.toOption, Shape.within?, hlow, hhigh]

/-- A text is found as it is. -/
theorem readText_quoted (s : String) (rest : List Char) :
    Shape.readText (quoted s ++ rest) = .ok (s, rest) := by
  rw [quoted_append]
  unfold Shape.readText
  rw [skipSpace_cons '"' _ (by decide)]
  exact textBody_quoted s rest

theorem echoes_text (s : String) :
    Echoes Shape.text.read (Json.text s).chars (some (.text s)) := by
  intro rest _
  show Except.toOption ((Shape.readText (quoted s ++ rest)).map _) = _
  rw [readText_quoted]
  rfl

/-- One of the names is found as it is. -/
theorem echoes_choice (names : List String) (name : String) (h : name ∈ names) :
    Echoes (Shape.choice names).read (Json.text name).chars (some (.text name)) := by
  intro rest _
  show Except.toOption (Shape.readChoice names _) = _
  rw [chars_text, quoted_append]
  unfold Shape.readChoice
  rw [skipSpace_cons '"' _ (by decide)]
  show Except.toOption (textBody _ >>= _) = _
  rw [textBody_quoted]
  show Except.toOption (if name ∈ names then _ else _) = _
  rw [if_pos h]
  rfl

/-- What may be null, but is not, is read like anything else. -/
theorem echoes_optional (shape : Shape) (text : List Char) (result : Option Json)
    (hopens : Opens text) (h : Echoes shape.read text result) :
    Echoes (Shape.optional shape).read text result := by
  intro rest hrest
  rw [← h rest hrest]
  show Except.toOption (Shape.readOptional shape.read _) = _
  obtain ⟨c, cs, rfl, hspace, hc⟩ := hopens
  have hn : c ≠ 'n' := by
    rintro rfl
    simp at hc
  unfold Shape.readOptional
  rw [List.cons_append, skipSpace_cons c _ hspace]
  split
  · next heq => exact absurd (List.cons.inj heq).1 hn
  · rfl

/-- A double is found as what is read of its digits; one that is no number is not found. -/
theorem echoes_real (x : Float) :
    Echoes Shape.real.read (Json.real x).chars ((Binary64.reread? x).map .real) := by
  intro rest hrest
  show Except.toOption (Shape.readNumber Shape.asReal? _) = _
  rw [chars_real]
  unfold realChars
  split
  · next hfin =>
    rw [readNumber_of_literal _ _ _ (literal_dataChars x rest hfin hrest),
      Binary64.number_dataChars x rest hfin hrest]
    cases Binary64.reread? x with
    | none => rfl
    | some y => rfl
  · next hfin =>
    unfold Binary64.reread?
    rw [if_neg hfin]
    rfl

/-! ## Lists -/

/-- The items of a list are found one by one, each after the ones before it. -/
theorem itemsWithin_joined {α β : Type} (item : Reader β) (text : α → List Char)
    (result : α → Option β) (as : List α) (rest : List Char) (hopens : ∀ a ∈ as, Opens (text a))
    (hitem : ∀ a ∈ as, Echoes item (text a) (result a)) (fuel : Nat) (first : Bool)
    (hfuel : as.length < fuel) :
    (itemsWithin item fuel first (joined first (as.map text) ++ ']' :: rest)).toOption =
      (as.mapM result).map (·, rest) := by
  induction as generalizing fuel first with
  | nil =>
    obtain ⟨fuel, rfl⟩ : ∃ k, fuel = k + 1 := ⟨fuel - 1, by omega⟩
    show Except.toOption (next ']' first (']' :: rest) >>= _) = _
    rw [next_close ']' first rest (.inl rfl)]
    rfl
  | cons a as ih =>
    obtain ⟨fuel, rfl⟩ : ∃ k, fuel = k + 1 := ⟨fuel - 1, by omega⟩
    have hhead := hitem a List.mem_cons_self _ (delimited_joined (as.map text) ']' rest (.inl rfl))
    have htail := ih (fun b hb => hopens b (List.mem_cons_of_mem _ hb))
      (fun b hb => hitem b (List.mem_cons_of_mem _ hb)) fuel false
      (by simpa using hfuel)
    rw [List.map_cons, joined, List.append_assoc, List.append_assoc]
    show Except.toOption (next ']' first _ >>= _) = _
    rw [next_item ']' first (text a) _ (.inl rfl) (hopens a List.mem_cons_self)]
    show Except.toOption (item _ >>= _) = _
    rw [toOption_bind, hhead, List.mapM_cons]
    cases result a with
    | none => rfl
    | some b =>
      show Except.toOption (itemsWithin item fuel false _ >>= _) = _
      rw [toOption_bind, htail]
      cases as.mapM result with
      | none => rfl
      | some bs => rfl

/-- The items of a list are found if every one of them is. -/
theorem echoes_list {α : Type} (shape : Shape) (write : α → Json) (result : α → Option Json)
    (as : List α) (hopens : ∀ a ∈ as, Opens (write a).chars)
    (hitem : ∀ a ∈ as, Echoes shape.read (write a).chars (result a)) :
    Echoes (Shape.list shape).read (list (as.map write)).chars ((as.mapM result).map .list) := by
  intro rest _
  have hne : ∀ t ∈ as.map fun a => (write a).chars, t ≠ [] := by
    intro t ht
    obtain ⟨a, ha, rfl⟩ := List.mem_map.1 ht
    obtain ⟨c, cs, hc, -⟩ := hopens a ha
    rw [hc]
    exact List.cons_ne_nil c cs
  have hlength := length_le_joined true _ hne
  have hitems := itemsWithin_joined shape.read (fun a => (write a).chars) result as rest hopens
    hitem ((joined true (as.map fun a => (write a).chars) ++ ']' :: rest).length + 1) true
    (by rw [List.length_append]; rw [List.length_map] at hlength; omega)
  have hchars : (list (as.map write)).chars ++ rest =
      '[' :: (joined true (as.map fun a => (write a).chars) ++ ']' :: rest) := by
    rw [chars_list, List.map_map]
    simp [Function.comp_def]
  rw [hchars]
  show Except.toOption (Shape.readList shape.read _) = _
  unfold Shape.readList
  rw [skipSpace_cons '[' _ (by decide)]
  show Except.toOption ((items shape.read _).map _) = _
  unfold items
  rw [toOption_map, hitems]
  cases as.mapM result with
  | none => rfl
  | some js => rfl

/-! ## Tables -/

theorem fieldName_quoted (s : String) (rest : List Char) :
    fieldName (quoted s ++ rest) = .ok (s, rest) := by
  rw [quoted_append]
  exact textBody_quoted s rest

theorem colon_cons (rest : List Char) : colon (':' :: rest) = .ok rest := by
  unfold colon
  rw [skipSpace_cons ':' rest (by decide)]
  rfl

theorem opens_fieldText (field : String × Json) : Opens (fieldText field) :=
  ⟨'"', _, rfl, by decide, by decide⟩

theorem fieldText_append (name : String) (value : Json) (rest : List Char) :
    fieldText (name, value) ++ rest = quoted name ++ ':' :: (value.chars ++ rest) := by
  simp [fieldText]

/-- The entries of a table are found one by one. -/
theorem entriesWithin_joined (es : List (String × String)) (rest : List Char) (fuel : Nat)
    (first : Bool) (hfuel : es.length < fuel) :
    entriesWithin Shape.readText fuel first
        (joined first (es.map fun e => fieldText (e.1, .text e.2)) ++ '}' :: rest) =
      .ok (es, rest) := by
  induction es generalizing fuel first with
  | nil =>
    obtain ⟨fuel, rfl⟩ : ∃ k, fuel = k + 1 := ⟨fuel - 1, by omega⟩
    show (next '}' first ('}' :: rest) >>= _) = _
    rw [next_close '}' first rest (.inr rfl)]
    rfl
  | cons e es ih =>
    obtain ⟨fuel, rfl⟩ : ∃ k, fuel = k + 1 := ⟨fuel - 1, by omega⟩
    rw [List.map_cons, joined, List.append_assoc, List.append_assoc]
    show (next '}' first _ >>= _) = _
    rw [next_item '}' first _ _ (.inr rfl) (opens_fieldText _), fieldText_append]
    simp only [ok_bind, fieldName_quoted, colon_cons, chars_text, readText_quoted,
      ih fuel false (by simpa using hfuel)]
    rfl

theorem echoes_table (t : Table String String) :
    Echoes Shape.table.read (record (t.entries.map fun (k, v) => (k, .text v))).chars
      (some (record (t.entries.map fun (k, v) => (k, .text v)))) := by
  intro rest _
  have hchars : (record (t.entries.map fun (k, v) => (k, .text v))).chars ++ rest =
      '{' :: (joined true (t.entries.map fun e => fieldText (e.1, .text e.2)) ++ '}' :: rest) := by
    rw [chars_record, List.map_map]
    simp [Function.comp_def]
  have hlength := length_le_joined true (t.entries.map fun e => fieldText (e.1, .text e.2)) (by
    intro text htext
    obtain ⟨e, -, rfl⟩ := List.mem_map.1 htext
    exact List.cons_ne_nil _ _)
  rw [hchars]
  show Except.toOption (Shape.readTable _) = _
  unfold Shape.readTable
  rw [skipSpace_cons '{' _ (by decide)]
  show Except.toOption ((entries Shape.readText _).map _) = _
  unfold entries
  rw [entriesWithin_joined t.entries rest _ true
    (by rw [List.length_append]; rw [List.length_map] at hlength; omega)]
  show some (record _, rest) = _
  rw [Table.ofList_entries]
  rfl

/-! ## Records -/

/-- The fields of a record as they are written, in the order of the shape, and what is found of all
its fields, those that are left out being filled in. -/
inductive Fills :
    List (Field Shape) → List (String × Json) → Option (List (String × Json)) → Prop where
  | done : Fills [] [] (some [])
  | given {fields written result} (field : Field Shape) (value : Json) (found : Option Json)
      (h : Echoes field.shape.read value.chars found) (others : Fills fields written result) :
      Fills (field :: fields) ((field.name, value) :: written)
        (found.bind fun j => result.map ((field.name, j) :: ·))
  | absent {fields written result} (field : Field Shape) (j : Json) (h : field.absent = some j)
      (others : Fills fields written result) :
      Fills (field :: fields) written (result.map ((field.name, j) :: ·))

/-- A field of a record is found by its name. -/
theorem find?_slots (fields : List (Field Shape)) (h : (fields.map (·.name)).Nodup) :
    ∀ f ∈ fields, (Shape.slots fields).find? (·.name == f.name) =
      some { f with shape := f.shape.read } := by
  induction fields with
  | nil => intro f hf; cases hf
  | cons g gs ih =>
    rw [List.map_cons, List.nodup_cons] at h
    intro f hf
    rw [Shape.slots]
    rcases List.mem_cons.1 hf with rfl | hf
    · rw [List.find?_cons_of_pos (by simp)]
    · have hne : g.name ≠ f.name := by
        intro heq
        exact h.1 (heq ▸ List.mem_map_of_mem hf)
      rw [List.find?_cons_of_neg (by simpa using hne)]
      exact ih h.2 f hf

/-- A field that is written first is read, and then the others behind it. -/
theorem foundWithin_item (all : List (Field (Reader Json))) (field : Field Shape) (value : Json)
    (value? : Option Json) (written : List (String × Json)) (rest : List Char) (fuel : Nat)
    (first : Bool) (found : List (String × Json))
    (hfield : all.find? (·.name == field.name) = some { field with shape := field.shape.read })
    (hfree : found.lookup field.name = none) (hvalue : Echoes field.shape.read value.chars value?) :
    (Shape.foundWithin all (fuel + 1) first found
      (joined first (((field.name, value) :: written).map fieldText) ++ '}' :: rest)).toOption =
        value?.bind fun j => (Shape.foundWithin all fuel false ((field.name, j) :: found)
          (joined false (written.map fieldText) ++ '}' :: rest)).toOption := by
  have htext := hvalue _ (delimited_joined (written.map fieldText) '}' rest (.inr rfl))
  rw [List.map_cons, joined, List.append_assoc, List.append_assoc]
  show Except.toOption (next '}' first _ >>= _) = _
  rw [next_item '}' first _ _ (.inr rfl) (opens_fieldText _), fieldText_append]
  simp only [ok_bind, fieldName_quoted, hfield, hfree, colon_cons, Option.isSome_none,
    Bool.false_eq_true, if_false]
  rw [toOption_bind, htext]
  cases value? <;> rfl

/-- The value of a field that was found, or is filled in, comes before those of the others. -/
theorem complete_slots_cons (outcome : Option (List (String × Json))) (field : Field Shape)
    (fields : List (Field Shape)) (j : Json)
    (h : ∀ o, outcome = some o → (o.lookup field.name).or field.absent = some j) :
    (outcome.bind fun o => (Shape.complete o (Shape.slots fields)).toOption).map
        ((field.name, j) :: ·) =
      outcome.bind fun o => (Shape.complete o (Shape.slots (field :: fields))).toOption := by
  cases outcome with
  | none => rfl
  | some o =>
    simp only [Option.bind_some]
    rw [Shape.slots, Shape.complete, h o rfl]
    exact (toOption_map _ _).symm

/-- The fields that are written are found one by one, and nothing else is. -/
theorem foundWithin_fills (all : List (Field (Reader Json))) (fields : List (Field Shape))
    (written : List (String × Json)) (result : Option (List (String × Json)))
    (h : Fills fields written result) (rest : List Char) (fuel : Nat) (first : Bool)
    (found : List (String × Json)) (hfuel : written.length < fuel)
    (hall : ∀ f ∈ fields, all.find? (·.name == f.name) = some { f with shape := f.shape.read })
    (hnodup : (fields.map (·.name)).Nodup) (hnew : ∀ f ∈ fields, found.lookup f.name = none) :
    ∃ outcome : Option (List (String × Json)),
      (Shape.foundWithin all fuel first found
          (joined first (written.map fieldText) ++ '}' :: rest)).toOption =
        outcome.map (·, rest) ∧
      result = (outcome.bind fun o => (Shape.complete o (Shape.slots fields)).toOption) ∧
      ∀ o, outcome = some o → ∀ name, name ∉ fields.map (·.name) →
        o.lookup name = found.lookup name := by
  induction h generalizing fuel first found with
  | done =>
    obtain ⟨fuel, rfl⟩ : ∃ k, fuel = k + 1 := ⟨fuel - 1, by omega⟩
    refine ⟨some found, ?_, rfl, ?_⟩
    · show Except.toOption (next '}' first ('}' :: rest) >>= _) = _
      rw [next_close '}' first rest (.inr rfl)]
      rfl
    · rintro o ⟨⟩ name _
      rfl
  | @given fields written result field value value? hvalue others ih =>
    obtain ⟨fuel, rfl⟩ : ∃ k, fuel = k + 1 := ⟨fuel - 1, by omega⟩
    rw [List.map_cons, List.nodup_cons] at hnodup
    have hstep := foundWithin_item all field value value? written rest fuel first found
      (hall field List.mem_cons_self) (hnew field List.mem_cons_self) hvalue
    cases value? with
    | none =>
      refine ⟨none, hstep, rfl, ?_⟩
      rintro o ⟨⟩
    | some j =>
      have hlater : ∀ f ∈ fields, ((field.name, j) :: found).lookup f.name = none := by
        intro f hf
        have hne : f.name ≠ field.name := by
          intro heq
          exact hnodup.1 (heq ▸ List.mem_map_of_mem hf)
        rw [List.lookup_cons, beq_false_of_ne hne]
        exact hnew f (List.mem_cons_of_mem _ hf)
      obtain ⟨outcome, hfound, hresult, hframe⟩ := ih fuel false ((field.name, j) :: found)
        (by simpa using hfuel) (fun f hf => hall f (List.mem_cons_of_mem _ hf)) hnodup.2 hlater
      refine ⟨outcome, hstep.trans hfound, ?_, ?_⟩
      · rw [hresult]
        apply complete_slots_cons
        intro o ho
        rw [hframe o ho field.name hnodup.1]
        simp
      · intro o ho name hname
        rw [List.map_cons, List.mem_cons, not_or] at hname
        rw [hframe o ho name hname.2, List.lookup_cons, beq_false_of_ne hname.1]
  | @absent fields written result field j habsent others ih =>
    rw [List.map_cons, List.nodup_cons] at hnodup
    obtain ⟨outcome, hfound, hresult, hframe⟩ := ih fuel first found hfuel
      (fun f hf => hall f (List.mem_cons_of_mem _ hf)) hnodup.2
      (fun f hf => hnew f (List.mem_cons_of_mem _ hf))
    refine ⟨outcome, hfound, ?_, ?_⟩
    · rw [hresult]
      apply complete_slots_cons
      intro o ho
      rw [hframe o ho field.name hnodup.1, hnew field List.mem_cons_self]
      exact habsent
    · intro o ho name hname
      rw [List.map_cons, List.mem_cons, not_or] at hname
      exact hframe o ho name hname.2

/-- A record is found with all its fields if every one that is written is. -/
theorem echoes_record (fields : List (Field Shape)) (written : List (String × Json))
    (result : Option (List (String × Json))) (h : Fills fields written result)
    (hnodup : (fields.map (·.name)).Nodup) :
    Echoes (Shape.record fields).read (record written).chars (result.map .record) := by
  intro rest _
  have hchars : (record written).chars ++ rest =
      '{' :: (joined true (written.map fieldText) ++ '}' :: rest) := by
    rw [chars_record]
    simp
  have hlength := length_le_joined true (written.map fieldText) (by
    intro text htext
    obtain ⟨f, -, rfl⟩ := List.mem_map.1 htext
    exact List.cons_ne_nil _ _)
  rw [List.length_map] at hlength
  obtain ⟨outcome, hfound, hresult, -⟩ := foundWithin_fills (Shape.slots fields) fields written
    result h rest ((joined true (written.map fieldText) ++ '}' :: rest).length + 1) true []
    (by rw [List.length_append]; omega) (find?_slots fields hnodup) hnodup (fun _ _ => rfl)
  rw [hchars]
  show Except.toOption (Shape.readRecord (Shape.slots fields) _) = _
  unfold Shape.readRecord
  rw [skipSpace_cons '{' _ (by decide)]
  show Except.toOption (Shape.foundWithin _ _ _ _ _ >>= _) = _
  rw [toOption_bind, hfound, hresult]
  cases outcome with
  | none => rfl
  | some o =>
    show Except.toOption (Shape.complete o _ >>= _) = _
    rw [toOption_bind]
    simp only [Option.bind_some]
    cases (Shape.complete o (Shape.slots fields)).toOption <;> rfl

end Json

/-! ## Coded types -/

/-- A coded type whose texts can be followed: `reread?` is the value that is read where a value was
written, if there is one, and `full` its JSON as reading by the shape finds it. -/
class Rereads (α : Type) [Coded α] where
  reread? : α → Option α
  full : α → Json
  decode_full : ∀ a, Coded.decode? (full a) = some a
  opens : ∀ a : α, Json.Opens (Coded.encode a).chars
  echoes : ∀ a, Json.Echoes (Coded.shape α).read (Coded.encode a).chars ((reread? a).map full)

namespace Rereads

variable {α : Type} [Coded α] [Rereads α]

/-- What is read of a value that was written. -/
theorem read_render (a : α) : (Coded.read (Coded.render a)).toOption = reread? a := by
  have h := echoes a [] Json.delimited_nil
  rw [List.append_nil] at h
  unfold Coded.read Json.whole Coded.render Json.render
  rw [String.toList_ofList, toOption_bind, toOption_bind, h]
  cases reread? a with
  | none => rfl
  | some b =>
    show (some (full b)).bind _ = some b
    rw [Option.bind_some, decode_full]
    rfl

theorem mapM_full (as : List α) :
    as.mapM (fun a => (reread? a).map full) = (as.mapM reread?).map (·.map full) := by
  induction as with
  | nil => rfl
  | cons a as ih =>
    rw [List.mapM_cons, List.mapM_cons, ih]
    cases reread? a with
    | none => rfl
    | some b => cases as.mapM (reread? (α := α)) <;> rfl

theorem mapM_decode_full (as : List α) :
    (as.map full).mapM (Coded.decode? (α := α)) = some as := by
  induction as with
  | nil => rfl
  | cons a as ih =>
    rw [List.map_cons, List.mapM_cons, decode_full, ih]
    rfl

/-- A list is read again item by item. -/
instance : Rereads (List α) where
  reread? as := as.mapM reread?
  full as := .list (as.map full)
  decode_full := mapM_decode_full
  opens _ := Json.opens_list _
  echoes as := by
    have h := Json.echoes_list (Coded.shape α) Coded.encode (fun a => (reread? a).map full) as
      (fun a _ => opens a) (fun a _ => echoes a)
    rw [mapM_full, Option.map_map] at h
    exact h

end Rereads

end OrderDispatch
