import GraphClient.Proofs.Json.Numerals

/-!
# Texts of JSON values tell them apart

The reader of JSON texts undoes the escapes of a string (`quoted_quote`), and the token of a number is
the number (`render_number_append_inj`). Both hold whatever comes after the string or the number, and so
it is with all values: from a text that goes on with a comma or a closing bracket, no second value can
be read off (`render_append_inj`). The induction is on one of the values; the other is of the same form,
since the first character of a text says which one it is.
-/

namespace GraphClient.Json

namespace Reader

theorem hexDigit?_digitChar {n : ℕ} (h : n < 16) : hexDigit? (Nat.digitChar n) = some n := by
  have hall : ∀ n < 16, hexDigit? (Nat.digitChar n) = some n := by decide
  exact hall n h

theorem unicodeEscape_control {c : Char} (h : c.toNat < 0x20) (cs : List Char) :
    unicodeEscape ('0' :: '0' :: Nat.digitChar (c.toNat / 16) :: Nat.digitChar (c.toNat % 16) :: cs) =
      some (c, cs) := by
  have hzero : hexDigit? '0' = some 0 := by decide
  have hhigh := hexDigit?_digitChar (n := c.toNat / 16) (by omega)
  have hlow := hexDigit?_digitChar (n := c.toNat % 16) (by omega)
  have hunit : ((0 * 16 + 0) * 16 + c.toNat / 16) * 16 + c.toNat % 16 = c.toNat := by omega
  have hunpaired : ¬ (0xDC00 ≤ c.toNat ∧ c.toNat ≤ 0xDFFF) ∧
      ¬ (0xD800 ≤ c.toNat ∧ c.toNat ≤ 0xDBFF) := by omega
  simp only [unicodeEscape, hexUnit, hzero, hhigh, hlow, Option.bind_eq_bind, Option.bind_some,
    Option.pure_def, hunit, if_neg hunpaired.1, if_neg hunpaired.2, Char.ofNat_toNat]

/-- One step of a reader of strings undoes one escape. -/
theorem stringBody_escape (fuel : ℕ) (c : Char) (cs : List Char) :
    stringBody (fuel + 1) (escape c ++ cs) =
      (stringBody fuel cs).map fun body => (c :: body.1, body.2) := by
  rw [escape]
  split_ifs with hquote hbackslash _ _ _ _ _ hcontrol
  -- the escapes of two characters
  iterate 7
    subst c
    simp [stringBody, escapeSequence, Option.map_eq_bind]
  · simp [stringBody, escapeSequence, unicodeEscape_control hcontrol, Option.map_eq_bind]
  · simp [stringBody, hquote, hbackslash, hcontrol, Option.map_eq_bind]

theorem stringBody_quote {fuel : ℕ} (cs rest : List Char) (h : cs.length < fuel) :
    stringBody fuel (cs.flatMap escape ++ '\x22' :: rest) = some (cs, rest) := by
  induction cs generalizing fuel with
  | nil =>
    obtain ⟨fuel, rfl⟩ := Nat.exists_eq_add_one.mpr h
    simp [stringBody]
  | cons c cs ih =>
    obtain ⟨fuel, rfl⟩ := Nat.exists_eq_add_one.mpr (Nat.zero_lt_of_lt h)
    rw [List.flatMap_cons, List.append_assoc, stringBody_escape,
      ih (Nat.lt_of_succ_lt_succ h), Option.map_some]

theorem length_le_length_escape (cs : List Char) : cs.length ≤ (cs.flatMap escape).length := by
  induction cs with
  | nil => exact Nat.le_refl _
  | cons c cs ih =>
    have hescape : 1 ≤ (escape c).length := by
      rw [escape]
      split_ifs <;> exact Nat.succ_le_succ (Nat.zero_le _)
    rw [List.flatMap_cons, List.length_append, List.length_cons]
    omega

/-- The reader of strings undoes all escapes. -/
theorem quoted_quote (s : String) (rest : List Char) :
    quoted (quote s ++ rest) = some (s, rest) := by
  have htext : quote s ++ rest = '\x22' :: (s.toList.flatMap escape ++ '\x22' :: rest) := by
    simp [quote]
  have hlength : s.toList.length < (s.toList.flatMap escape ++ '\x22' :: rest).length := by
    have := length_le_length_escape s.toList
    rw [List.length_append, List.length_cons]
    omega
  rw [htext, quoted, if_pos rfl, stringBody_quote _ _ hlength]
  simp

end Reader

open Reader

/-- Different strings have different texts, whatever comes after them. -/
theorem quote_append_inj {s t : String} {rest more : List Char}
    (h : quote s ++ rest = quote t ++ more) : s = t ∧ rest = more := by
  have hread := quoted_quote s rest
  rw [h, quoted_quote] at hread
  exact ⟨(congrArg Prod.fst (Option.some.inj hread)).symm,
    (congrArg Prod.snd (Option.some.inj hread)).symm⟩

/-- The character with which the text of a value begins; that of a number begins with a digit or a
sign. -/
def mark : Json → Option Char
  | null => some 'n'
  | bool true => some 't'
  | bool false => some 'f'
  | number _ => none
  | string _ => some '\x22'
  | array _ => some '['
  | object _ => some '{'

theorem exists_render_number_eq_cons (value : Number) :
    ∃ c cs, value.render = c :: cs ∧ (c.isDigit = true ∨ c = '-') := by
  have hwell := wellFormed_token value
  obtain ⟨c, whole, hwhole⟩ := List.exists_cons_of_ne_nil hwell.whole_ne_nil
  have hc := hwell.whole_isDigit c (hwhole ▸ List.mem_cons_self)
  rw [← text_token, NumberToken.text, hwhole]
  cases value.token.negative
  · exact ⟨c, _, rfl, .inl hc⟩
  · exact ⟨'-', _, rfl, .inr rfl⟩

theorem exists_render_eq_cons (value : Json) :
    ∃ c cs, value.render = c :: cs ∧
      (value.mark = some c ∨ value.mark = none ∧ (c.isDigit = true ∨ c = '-')) := by
  cases value with
  | null => exact ⟨_, _, rfl, .inl rfl⟩
  | bool b => cases b <;> exact ⟨_, _, rfl, .inl rfl⟩
  | number n =>
    obtain ⟨c, cs, hrender, hc⟩ := exists_render_number_eq_cons n
    exact ⟨c, cs, hrender, .inr ⟨rfl, hc⟩⟩
  | string s => exact ⟨_, _, rfl, .inl rfl⟩
  | array items => cases items <;> exact ⟨_, _, rfl, .inl rfl⟩
  | object members =>
    cases members with
    | nil => exact ⟨_, _, rfl, .inl rfl⟩
    | cons m ms => exact ⟨_, _, rfl, .inl rfl⟩

/-- A mark is no digit and no sign, and no closing bracket. -/
theorem mark_ne {value : Json} {c : Char} (h : value.mark = some c) :
    c.isDigit = false ∧ c ≠ '-' ∧ c ≠ ']' := by
  cases value with
  | bool b => cases b <;> cases h <;> decide
  | number n => cases h
  | _ =>
    cases h
    decide

/-- Texts that begin with one character are those of values of one form. -/
theorem mark_eq_of_render {x y : Json} {rest more : List Char}
    (h : x.render ++ rest = y.render ++ more) : x.mark = y.mark := by
  obtain ⟨c, cs, hx, hc⟩ := exists_render_eq_cons x
  obtain ⟨d, ds, hy, hd⟩ := exists_render_eq_cons y
  rw [hx, hy] at h
  obtain rfl : c = d := (List.cons.inj h).1
  rcases hc with hc | ⟨hc, hcdigit⟩ <;> rcases hd with hd | ⟨hd, hddigit⟩
  · rw [hc, hd]
  · have := mark_ne hc
    simp_all
  · have := mark_ne hd
    simp_all
  · rw [hc, hd]

theorem render_ne_bracket (x : Json) (rest more : List Char) : x.render ++ rest ≠ ']' :: more := by
  intro h
  obtain ⟨c, cs, hx, hc⟩ := exists_render_eq_cons x
  rw [hx] at h
  obtain rfl : c = ']' := (List.cons.inj h).1
  rcases hc with hc | ⟨-, hc⟩
  · exact (mark_ne hc).2.2 rfl
  · exact absurd hc (by decide)

theorem delimited_renderItems (xs : List Json) (rest : List Char) :
    Delimited (renderItems xs ++ rest) := by
  cases xs with
  | nil => exact fun c hc => .inr (.inl (Option.some.inj hc).symm)
  | cons x xs => exact fun c hc => .inl (Option.some.inj hc).symm

theorem delimited_renderMembers (xs : List (String × Json)) (rest : List Char) :
    Delimited (renderMembers xs ++ rest) := by
  cases xs with
  | nil => exact fun c hc => .inr (.inr (Option.some.inj hc).symm)
  | cons x xs => exact fun c hc => .inl (Option.some.inj hc).symm

mutual

/-- The text of a value is the beginning of no text of another value. -/
theorem render_append_inj : ∀ {x y : Json} {rest more : List Char}, Delimited rest →
    Delimited more → x.render ++ rest = y.render ++ more → x = y ∧ rest = more
  | null, y, rest, more, _, _, h => by
    cases y with
    | null => exact ⟨rfl, List.append_cancel_left h⟩
    | bool b => cases b <;> cases mark_eq_of_render h
    | _ => cases mark_eq_of_render h
  | bool a, y, rest, more, _, _, h => by
    cases y with
    | bool b =>
      cases a <;> cases b
      · exact ⟨rfl, List.append_cancel_left h⟩
      · cases mark_eq_of_render h
      · cases mark_eq_of_render h
      · exact ⟨rfl, List.append_cancel_left h⟩
    | _ => cases a <;> cases mark_eq_of_render h
  | number m, y, rest, more, hrest, hmore, h => by
    cases y with
    | number n =>
      obtain ⟨rfl, hends⟩ := render_number_append_inj hrest hmore h
      exact ⟨rfl, hends⟩
    | bool b => cases b <;> cases mark_eq_of_render h
    | _ => cases mark_eq_of_render h
  | string s, y, rest, more, _, _, h => by
    cases y with
    | string t =>
      obtain ⟨rfl, hends⟩ := quote_append_inj h
      exact ⟨rfl, hends⟩
    | bool b => cases b <;> cases mark_eq_of_render h
    | _ => cases mark_eq_of_render h
  | array xs, y, rest, more, _, _, h => by
    cases y with
    | array ys =>
      obtain ⟨rfl, hends⟩ := renderArray_append_inj h
      exact ⟨rfl, hends⟩
    | bool b => cases b <;> cases mark_eq_of_render h
    | _ => cases mark_eq_of_render h
  | object xs, y, rest, more, _, _, h => by
    cases y with
    | object ys =>
      obtain ⟨rfl, hends⟩ := renderObject_append_inj h
      exact ⟨rfl, hends⟩
    | bool b => cases b <;> cases mark_eq_of_render h
    | _ => cases mark_eq_of_render h

theorem renderArray_append_inj : ∀ {xs ys : List Json} {rest more : List Char},
    (array xs).render ++ rest = (array ys).render ++ more → xs = ys ∧ rest = more
  | [], [], rest, more, h => ⟨rfl, List.append_cancel_left h⟩
  | [], y :: ys, rest, more, h => by
    simp only [render, List.cons_append, List.cons.injEq, true_and, List.append_assoc] at h
    exact absurd h.symm (render_ne_bracket y _ _)
  | x :: xs, [], rest, more, h => by
    simp only [render, List.cons_append, List.cons.injEq, true_and, List.append_assoc] at h
    exact absurd h (render_ne_bracket x _ _)
  | x :: xs, y :: ys, rest, more, h => by
    simp only [render, List.cons_append, List.cons.injEq, true_and, List.append_assoc] at h
    obtain ⟨rfl, hitems⟩ :=
      render_append_inj (delimited_renderItems xs rest) (delimited_renderItems ys more) h
    obtain ⟨rfl, hends⟩ := renderItems_append_inj hitems
    exact ⟨rfl, hends⟩

theorem renderObject_append_inj : ∀ {xs ys : List (String × Json)} {rest more : List Char},
    (object xs).render ++ rest = (object ys).render ++ more → xs = ys ∧ rest = more
  | [], [], rest, more, h => ⟨rfl, List.append_cancel_left h⟩
  | [], (key, y) :: ys, rest, more, h => by simp [render, quote] at h
  | (key, x) :: xs, [], rest, more, h => by simp [render, quote] at h
  | (key, x) :: xs, (other, y) :: ys, rest, more, h => by
    simp only [render, List.cons_append, List.cons.injEq, true_and, List.append_assoc] at h
    obtain ⟨rfl, hvalue⟩ := quote_append_inj h
    obtain ⟨rfl, hmembers⟩ := render_append_inj (delimited_renderMembers xs rest)
      (delimited_renderMembers ys more) (List.cons.inj hvalue).2
    obtain ⟨rfl, hends⟩ := renderMembers_append_inj hmembers
    exact ⟨rfl, hends⟩

theorem renderItems_append_inj : ∀ {xs ys : List Json} {rest more : List Char},
    renderItems xs ++ rest = renderItems ys ++ more → xs = ys ∧ rest = more
  | [], [], rest, more, h => ⟨rfl, List.append_cancel_left h⟩
  | [], y :: ys, rest, more, h => by simp [renderItems] at h
  | x :: xs, [], rest, more, h => by simp [renderItems] at h
  | x :: xs, y :: ys, rest, more, h => by
    simp only [renderItems, List.cons_append, List.cons.injEq, true_and, List.append_assoc] at h
    obtain ⟨rfl, hitems⟩ :=
      render_append_inj (delimited_renderItems xs rest) (delimited_renderItems ys more) h
    obtain ⟨rfl, hends⟩ := renderItems_append_inj hitems
    exact ⟨rfl, hends⟩

theorem renderMembers_append_inj : ∀ {xs ys : List (String × Json)} {rest more : List Char},
    renderMembers xs ++ rest = renderMembers ys ++ more → xs = ys ∧ rest = more
  | [], [], rest, more, h => ⟨rfl, List.append_cancel_left h⟩
  | [], (key, y) :: ys, rest, more, h => by simp [renderMembers] at h
  | (key, x) :: xs, [], rest, more, h => by simp [renderMembers] at h
  | (key, x) :: xs, (other, y) :: ys, rest, more, h => by
    simp only [renderMembers, List.cons_append, List.cons.injEq, true_and, List.append_assoc] at h
    obtain ⟨rfl, hvalue⟩ := quote_append_inj h
    obtain ⟨rfl, hmembers⟩ := render_append_inj (delimited_renderMembers xs rest)
      (delimited_renderMembers ys more) (List.cons.inj hvalue).2
    obtain ⟨rfl, hends⟩ := renderMembers_append_inj hmembers
    exact ⟨rfl, hends⟩

end

/-- Different values have different texts. -/
theorem render_injective : Function.Injective render := by
  intro x y h
  have hends : Delimited [] := nofun
  exact (render_append_inj hends hends (congrArg (· ++ []) h)).1

end GraphClient.Json
