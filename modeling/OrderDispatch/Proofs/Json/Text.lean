import OrderDispatch.Json.Reader

/-!
# Quoted text, read back

Whatever follows a quoted text, reading takes exactly the text off and leaves the rest.

    textTail (s.flatMap escape ++ '"' :: rest) = .ok (s, rest)      (textTail_escape)
    quoted s ++ x = quoted t ++ y  ↔  s = t ∧ x = y                  (quoted_append_inj)

The second line says that a quoted text marks its own end, so that two rows with the same beginning
have the same names in it.
-/

namespace OrderDispatch.Json

/-! ## Escapes -/

theorem hexValue?_control_all : ∀ n, n < 0x20 →
    hexValue4? '0' '0' (Nat.digitChar (n / 16)) (Nat.digitChar (n % 16)) = some n := by
  decide

/-- The escape of a control character names that character. -/
theorem hexValue?_control (c : Char) (h : c.toNat < 0x20) :
    hexValue4? '0' '0' (Nat.digitChar (c.toNat / 16)) (Nat.digitChar (c.toNat % 16)) =
      some c.toNat :=
  hexValue?_control_all c.toNat h

theorem textTail_escape_cons (c : Char) (cs : List Char) :
    textTail (escape c ++ cs) = push c (textTail cs) := by
  unfold escape
  split
  · subst_vars; simp [textTail, unescape?]
  split
  · subst_vars; simp [textTail, unescape?]
  split
  · subst_vars; simp [textTail, unescape?]
  split
  · subst_vars; simp [textTail, unescape?]
  split
  · subst_vars; simp [textTail, unescape?]
  split
  · subst_vars; simp [textTail, unescape?]
  split
  · subst_vars; simp [textTail, unescape?]
  split
  · next h =>
    have hsur : ¬ (0xDC00 ≤ c.toNat ∧ c.toNat ≤ 0xDFFF) := by omega
    have hsur' : ¬ (0xD800 ≤ c.toNat ∧ c.toNat ≤ 0xDBFF) := by omega
    simp only [List.cons_append, List.nil_append]
    rw [textTail, hexValue?_control c h]
    simp only [hsur, hsur', if_false, Char.ofNat_toNat]
  · next hq hb _ _ _ _ _ h =>
    simp only [List.cons_append, List.nil_append]
    rw [textTail.eq_def]
    split
    · next heq => cases heq
    · next heq => exact absurd (List.cons.inj heq).1 hq
    · next heq => exact absurd (List.cons.inj heq).1 hb
    · next heq => exact absurd (List.cons.inj heq).1 hb
    · next heq =>
      obtain ⟨rfl, rfl⟩ := List.cons.inj heq
      rw [if_neg h]

/-- Reading takes a quoted text off, from behind its opening quote. -/
theorem textTail_escape (s rest : List Char) :
    textTail (s.flatMap escape ++ '"' :: rest) = .ok (s, rest) := by
  induction s with
  | nil => simp [textTail]
  | cons c s ih =>
    rw [List.flatMap_cons, List.append_assoc, textTail_escape_cons, ih]
    rfl

theorem quoted_append (s : String) (rest : List Char) :
    quoted s ++ rest = '"' :: (s.toList.flatMap escape ++ '"' :: rest) := by
  simp [quoted]

/-- The body of a quoted text is the text. -/
theorem textBody_quoted (s : String) (rest : List Char) :
    textBody (s.toList.flatMap escape ++ '"' :: rest) = .ok (s, rest) := by
  unfold textBody
  rw [textTail_escape]
  simp

/-- A quoted text marks its own end. -/
theorem quoted_append_inj (s t : String) (x y : List Char) :
    quoted s ++ x = quoted t ++ y ↔ s = t ∧ x = y := by
  constructor
  · intro h
    rw [quoted_append, quoted_append] at h
    have hbody : textBody (s.toList.flatMap escape ++ '"' :: x) =
        textBody (t.toList.flatMap escape ++ '"' :: y) := by rw [List.cons.inj h |>.2]
    rw [textBody_quoted, textBody_quoted] at hbody
    simpa using hbody
  · rintro ⟨rfl, rfl⟩
    rfl

end OrderDispatch.Json
