import OrderDispatch.Proofs.Json.Echo
import OrderDispatch.Proofs.Number.Digits

/-!
# No two values are written alike

A text is the text of one value only, and tells where the value ends in whatever it is part of. The
reals in the value must be numbers, as an infinity and a NaN are written as null.

    Legible j → Legible k → j.chars ++ x = k.chars ++ y → j = k ∧ x = y        (chars_append_inj)
    Legible j → Legible k → (j.render = k.render ↔ j = k)                      (render_inj)

The first character tells what kind of value it is, and the parts of lists and records are told
apart one by one; what stands behind a part, a comma or a closing bracket, is what may stand behind
the whole of a value.
-/

namespace OrderDispatch.Json

open Binary64 (isFinite)

/-- A value whose reals are all numbers. -/
inductive Legible : Json → Prop where
  | null : Legible null
  | bool (value : Bool) : Legible (bool value)
  | int (value : Int) : Legible (int value)
  | real {value : Float} (h : isFinite value = true) : Legible (real value)
  | text (value : String) : Legible (text value)
  | list {items : List Json} (h : ∀ j ∈ items, Legible j) : Legible (list items)
  | record {fields : List (String × Json)} (h : ∀ f ∈ fields, Legible f.2) :
      Legible (record fields)

/-! ## First characters -/

/-- What the first character of a value tells about it. -/
inductive Mark where
  | null
  | truth (value : Bool)
  | number
  | text
  | list
  | record
deriving DecidableEq

/-- What the first character of a value is to tell. -/
def mark : Json → Mark
  | null => .null
  | bool b => .truth b
  | int _ => .number
  | real _ => .number
  | text _ => .text
  | list _ => .list
  | record _ => .record

/-- What a first character tells. -/
def markOf? (c : Char) : Option Mark :=
  if startsNumber c then some .number
  else
    match c with
    | 'n' => some .null
    | 't' => some (.truth true)
    | 'f' => some (.truth false)
    | '"' => some .text
    | '[' => some .list
    | '{' => some .record
    | _ => none

/-- The parts of a number as it is written. -/
def parts? : Json → Option Literal
  | int n => some ⟨decide (n < 0), Nat.toDigits 10 n.natAbs, [], 0, true⟩
  | real x => some (spelling x)
  | _ => none

theorem literal_chars (j : Json) (p : Literal) (rest : List Char) (h : Legible j)
    (hp : j.parts? = some p) (hrest : Delimited rest) :
    literal (j.chars ++ rest) = .ok (p, rest) := by
  cases h with
  | int n =>
    cases hp
    rw [chars_int, literal_intChars n rest hrest]
  | real hfin =>
    cases hp
    rw [chars_real, realChars, if_pos hfin, literal_dataChars _ rest hfin hrest]
  | null | bool | text | list | record => cases hp

theorem exists_parts (j : Json) (h : j.mark = .number) : ∃ p, j.parts? = some p := by
  cases j with
  | int | real => exact ⟨_, rfl⟩
  | null | bool | text | list | record => cases h

/-- The first character of a value tells its kind. -/
theorem chars_head (j : Json) (rest : List Char) (h : Legible j) :
    ∃ c cs, j.chars ++ rest = c :: cs ∧ markOf? c = some j.mark := by
  have hnumber : j.mark = .number → ∃ c cs, j.chars ++ rest = c :: cs ∧ markOf? c = some j.mark := by
    intro hmark
    obtain ⟨p, hp⟩ := exists_parts j hmark
    obtain ⟨c, cs, hcs, hstart⟩ :=
      startsNumber_of_literal _ _ (literal_chars j p [] h hp delimited_nil)
    refine ⟨c, cs ++ rest, ?_, ?_⟩
    · rw [List.append_nil] at hcs
      rw [hcs, List.cons_append]
    · unfold markOf?
      rw [hmark, if_pos hstart]
  cases h with
  | null => exact ⟨'n', _, rfl, rfl⟩
  | bool b => cases b <;> exact ⟨_, _, rfl, rfl⟩
  | int | real => exact hnumber rfl
  | text s => exact ⟨'"', _, rfl, rfl⟩
  | list => exact ⟨'[', _, rfl, rfl⟩
  | record => exact ⟨'{', _, rfl, rfl⟩

theorem mark_eq_of_chars (j k : Json) (x y : List Char) (hj : Legible j) (hk : Legible k)
    (h : j.chars ++ x = k.chars ++ y) : j.mark = k.mark := by
  obtain ⟨c, cs, hc, hmark⟩ := chars_head j x hj
  obtain ⟨d, ds, hd, hmark'⟩ := chars_head k y hk
  rw [hc, hd] at h
  rw [(List.cons.inj h).1, hmark'] at hmark
  exact (Option.some.inj hmark).symm

/-- No value begins with a closing bracket. -/
theorem chars_ne_closing (j : Json) (closing : Char) (x y : List Char) (h : Legible j)
    (hclosing : closing = ']' ∨ closing = '}') : j.chars ++ x ≠ closing :: y := by
  obtain ⟨c, cs, hc, hmark⟩ := chars_head j x h
  rw [hc]
  rintro ⟨⟩
  rcases hclosing with rfl | rfl <;> cases hmark

/-! ## Numbers -/

theorem toDigits_inj (m n : Nat) (h : Nat.toDigits 10 m = Nat.toDigits 10 n) : m = n := by
  rw [← Nat.ofDigitChars_ten_toDigits (n := m), h, Nat.ofDigitChars_ten_toDigits]

/-- A real has a point or an exponent. -/
theorem whole_ne_real (n : Int) (x : Float) : (int n).parts? ≠ (real x).parts? := by
  intro h
  have hwhole := congrArg Literal.isWhole (Option.some.inj h)
  rw [Binary64.spelling_isWhole] at hwhole
  cases hwhole

/-- A number is told by its parts. -/
theorem parts?_inj (j k : Json) (p : Literal) (hj : Legible j) (hk : Legible k)
    (h : j.parts? = some p) (h' : k.parts? = some p) : j = k := by
  cases hj with
  | int m =>
    cases hk with
    | int n =>
      cases h
      simp only [parts?, Option.some.injEq, Literal.mk.injEq, and_true] at h'
      have habs := toDigits_inj _ _ h'.2
      have hsign := decide_eq_decide.1 h'.1
      congr 1
      omega
    | real => exact absurd (h.trans h'.symm) (whole_ne_real m _)
    | null | bool | text | list | record => cases h'
  | real hx =>
    cases hk with
    | int n => exact absurd (h'.trans h.symm) (whole_ne_real n _)
    | real hy =>
      cases h
      rw [(Binary64.spelling_inj _ _ hx hy).1 (Option.some.inj h').symm]
    | null | bool | text | list | record => cases h'
  | null | bool | text | list | record => cases h

theorem number_append_inj (j k : Json) (x y : List Char) (hj : Legible j) (hk : Legible k)
    (hmark : j.mark = .number) (hx : Delimited x) (hy : Delimited y)
    (h : j.chars ++ x = k.chars ++ y) : j = k ∧ x = y := by
  obtain ⟨p, hp⟩ := exists_parts j hmark
  obtain ⟨q, hq⟩ := exists_parts k ((mark_eq_of_chars j k x y hj hk h).symm.trans hmark)
  have hliteral := literal_chars j p x hj hp hx
  rw [h, literal_chars k q y hk hq hy] at hliteral
  cases hliteral
  exact ⟨parts?_inj j k p hj hk hp hq, rfl⟩

/-! ## Parts -/

/-- Parts that go on are no end. -/
theorem joined_ne_closing (text : List Char) (texts : List (List Char)) (closing : Char)
    (first : Bool) (x y : List Char) (hclosing : closing = ']' ∨ closing = '}')
    (h : ∀ x y, text ++ x ≠ closing :: y) :
    joined first (text :: texts) ++ x ≠ closing :: y := by
  rw [joined, List.append_assoc, List.append_assoc]
  cases first with
  | true => exact h _ _
  | false =>
    rintro ⟨⟩
    rcases hclosing with h | h <;> cases h

/-- Parts that tell their own ends are told apart one by one. -/
theorem joined_inj {α : Type} (text : α → List Char) (closing : Char) (as bs : List α)
    (first : Bool) (x y : List Char) (hclosing : closing = ']' ∨ closing = '}')
    (has : ∀ a ∈ as, ∀ x y, text a ++ x ≠ closing :: y)
    (hbs : ∀ b ∈ bs, ∀ x y, text b ++ x ≠ closing :: y)
    (hitem : ∀ a ∈ as, ∀ b ∈ bs, ∀ x y, Delimited x → Delimited y →
      text a ++ x = text b ++ y → a = b ∧ x = y)
    (h : joined first (as.map text) ++ closing :: x = joined first (bs.map text) ++ closing :: y) :
    as = bs ∧ x = y := by
  induction as generalizing bs first with
  | nil =>
    cases bs with
    | nil => exact ⟨rfl, (List.cons.inj h).2⟩
    | cons b bs =>
      exact absurd h.symm (joined_ne_closing _ _ closing first _ _ hclosing
        (hbs b List.mem_cons_self))
  | cons a as ih =>
    cases bs with
    | nil =>
      exact absurd h (joined_ne_closing _ _ closing first _ _ hclosing (has a List.mem_cons_self))
    | cons b bs =>
      rw [List.map_cons, List.map_cons, joined, joined, List.append_assoc, List.append_assoc,
        List.append_assoc, List.append_assoc] at h
      obtain ⟨rfl, hrest⟩ := hitem a List.mem_cons_self b List.mem_cons_self _ _
        (delimited_joined _ closing x hclosing) (delimited_joined _ closing y hclosing)
        (List.append_cancel_left h)
      obtain ⟨rfl, rfl⟩ := ih bs false (fun a ha => has a (List.mem_cons_of_mem _ ha))
        (fun b hb => hbs b (List.mem_cons_of_mem _ hb))
        (fun a ha b hb => hitem a (List.mem_cons_of_mem _ ha) b (List.mem_cons_of_mem _ hb)) hrest
      exact ⟨rfl, rfl⟩

theorem field_append_inj (f g : String × Json) (x y : List Char)
    (hvalue : f.2.chars ++ x = g.2.chars ++ y → f.2 = g.2 ∧ x = y)
    (h : fieldText f ++ x = fieldText g ++ y) : f = g ∧ x = y := by
  rw [fieldText_append, fieldText_append, quoted_append_inj] at h
  obtain ⟨hname, hrest⟩ := h
  obtain ⟨heq, hend⟩ := hvalue (List.cons.inj hrest).2
  exact ⟨Prod.ext hname heq, hend⟩

/-! ## Values -/

/-- A text determines the value it is of, and where it ends. -/
theorem chars_append_inj (j k : Json) (x y : List Char) (hj : Legible j) (hk : Legible k)
    (hx : Delimited x) (hy : Delimited y) (h : j.chars ++ x = k.chars ++ y) : j = k ∧ x = y := by
  -- The induction is on the first value; the kind of the second one is then that of the first.
  induction hj generalizing k x y with
  | null =>
    have hmark := mark_eq_of_chars _ k x y .null hk h
    cases hk <;> cases hmark
    exact ⟨rfl, List.append_cancel_left h⟩
  | bool b =>
    have hmark := mark_eq_of_chars _ k x y (.bool b) hk h
    cases hk <;> cases hmark
    exact ⟨rfl, List.append_cancel_left h⟩
  | int n => exact number_append_inj _ k x y (.int n) hk rfl hx hy h
  | real hfin => exact number_append_inj _ k x y (.real hfin) hk rfl hx hy h
  | text s =>
    have hmark := mark_eq_of_chars _ k x y (.text s) hk h
    cases hk <;> cases hmark
    rw [chars_text, chars_text, quoted_append_inj] at h
    exact ⟨congrArg _ h.1, h.2⟩
  | @list items hitems ih =>
    have hmark := mark_eq_of_chars _ k x y (.list hitems) hk h
    cases hk <;> cases hmark
    next others hothers =>
    rw [chars_list, chars_list, List.cons_append, List.cons_append, List.append_assoc,
      List.append_assoc] at h
    obtain ⟨rfl, rfl⟩ := joined_inj chars ']' items others true x y (.inl rfl)
      (fun a ha x y => chars_ne_closing a ']' x y (hitems a ha) (.inl rfl))
      (fun b hb x y => chars_ne_closing b ']' x y (hothers b hb) (.inl rfl))
      (fun a ha b hb x y => ih a ha b x y (hothers b hb)) (List.cons.inj h).2
    exact ⟨rfl, rfl⟩
  | @record fields hfields ih =>
    have hmark := mark_eq_of_chars _ k x y (.record hfields) hk h
    cases hk <;> cases hmark
    next others hothers =>
    rw [chars_record, chars_record, List.cons_append, List.cons_append, List.append_assoc,
      List.append_assoc] at h
    obtain ⟨rfl, rfl⟩ := joined_inj fieldText '}' fields others true x y (.inr rfl)
      (fun _ _ _ _ => by rintro ⟨⟩) (fun _ _ _ _ => by rintro ⟨⟩)
      (fun f hf g hg x y hx hy => field_append_inj f g x y (ih f hf g.2 x y (hothers g hg) hx hy))
      (List.cons.inj h).2
    exact ⟨rfl, rfl⟩

/-- A text is the text of one value only. -/
theorem render_inj (j k : Json) (hj : Legible j) (hk : Legible k) : j.render = k.render ↔ j = k := by
  refine ⟨fun h => ?_, congrArg render⟩
  have hchars : j.chars = k.chars := String.ofList_injective h
  refine (chars_append_inj j k [] [] hj hk delimited_nil delimited_nil ?_).1
  rw [hchars]

end OrderDispatch.Json
