import GraphClient.Json.Canonical
import Mathlib.Tactic.SplitIfs

/-!
# Quotation marks in JSON texts

Whoever reads a JSON text from the left knows at every character whether it belongs to a string:
`Quoting.after?` is this reading. A backslash or an opening parenthesis outside of all strings stops
it, for no value is written with one. The text of every value is read to its end, which lies outside
of all strings (`after?_render`).

Two readers of one text, of which one has begun outside and the other inside of a string, never agree
again: a quotation mark that opens a string for the one closes a string for the other, and it is
escaped for neither, since the backslash before it would have stopped the one outside. So the text of
a value cannot be read as if it had begun inside of a string (`after?_inside_render_ne`).
-/

namespace GraphClient.Json

/-- Neither a quotation mark nor one of the characters that do not occur outside of strings. -/
def isBare (c : Char) : Bool := c != '\x22' && c != '\\' && c != '('

/-- The characters of a class are bare if the three that are not bare are outside of it. -/
theorem isBare_of_class {p : Char → Bool} (hquote : p '\x22' = false) (hbackslash : p '\\' = false)
    (hparenthesis : p '(' = false) {c : Char} (h : p c = true) : isBare c = true := by
  have hne : ∀ d : Char, p d = false → (c != d) = true := by
    rintro d hd
    rw [bne_iff_ne]
    rintro rfl
    rw [h] at hd
    cases hd
  rw [isBare, hne _ hquote, hne _ hbackslash, hne _ hparenthesis]
  rfl

theorem isBare_of_isDigit {c : Char} (h : c.isDigit = true) : isBare c = true :=
  isBare_of_class rfl rfl rfl h

theorem ne_quote_of_isBare {c : Char} (h : isBare c = true) : c ≠ '\x22' := by
  rintro rfl
  cases h

theorem ne_backslash_of_isBare {c : Char} (h : isBare c = true) : c ≠ '\\' := by
  rintro rfl
  cases h

/-- Where a reader of a JSON text is. -/
inductive Quoting where
  | outside
  | inside
  /-- Inside of a string, after a backslash. -/
  | escaped
deriving DecidableEq

namespace Quoting

/-- Reads one character. -/
def next? : Quoting → Char → Option Quoting
  | outside, c => if c = '\x22' then some inside else if isBare c then some outside else none
  | inside, c => if c = '\x22' then some outside else if c = '\\' then some escaped else some inside
  | escaped, _ => some inside

/-- Where a reader is after some characters. -/
def after? (q : Quoting) (cs : List Char) : Option Quoting := cs.foldlM next? q

theorem after?_cons (q : Quoting) (c : Char) (cs : List Char) :
    q.after? (c :: cs) = (q.next? c).bind fun p => p.after? cs := rfl

theorem after?_append (q : Quoting) (cs ds : List Char) :
    q.after? (cs ++ ds) = (q.after? cs).bind fun p => p.after? ds :=
  List.foldlM_append

theorem after?_cons_of {q p : Quoting} {c : Char} (h : q.next? c = some p) (cs : List Char) :
    q.after? (c :: cs) = p.after? cs := by
  rw [after?_cons, h, Option.bind_some]

theorem after?_append_of {q p : Quoting} {cs : List Char} (h : q.after? cs = some p)
    (ds : List Char) : q.after? (cs ++ ds) = p.after? ds := by
  rw [after?_append, h, Option.bind_some]

theorem next?_outside_of_isBare {c : Char} (h : isBare c = true) :
    outside.next? c = some outside := by
  rw [next?, if_neg (ne_quote_of_isBare h), if_pos h]

theorem next?_inside_of_isBare {c : Char} (h : isBare c = true) : inside.next? c = some inside := by
  rw [next?, if_neg (ne_quote_of_isBare h), if_neg (ne_backslash_of_isBare h)]

theorem next?_outside_cases {c : Char} {p : Quoting} (h : outside.next? c = some p) :
    c = '\x22' ∧ p = inside ∨ isBare c = true ∧ p = outside := by
  rw [next?] at h
  split at h
  · next hquote => exact .inl ⟨hquote, (Option.some.inj h).symm⟩
  · split at h
    · next hbare => exact .inr ⟨hbare, (Option.some.inj h).symm⟩
    · cases h

theorem after?_outside_of_isBare {cs : List Char} (h : ∀ c ∈ cs, isBare c = true) :
    outside.after? cs = some outside := by
  induction cs with
  | nil => rfl
  | cons c cs ih =>
    obtain ⟨hc, hcs⟩ := List.forall_mem_cons.mp h
    rw [after?_cons_of (next?_outside_of_isBare hc), ih hcs]

theorem after?_inside_of_isBare {cs : List Char} (h : ∀ c ∈ cs, isBare c = true) :
    inside.after? cs = some inside := by
  induction cs with
  | nil => rfl
  | cons c cs ih =>
    obtain ⟨hc, hcs⟩ := List.forall_mem_cons.mp h
    rw [after?_cons_of (next?_inside_of_isBare hc), ih hcs]

/-- One reader is outside of all strings, the other inside of one. -/
def Opposite (p q : Quoting) : Prop := p = outside ∧ q = inside ∨ p = inside ∧ q = outside

theorem Opposite.symm {p q : Quoting} (h : Opposite p q) : Opposite q p :=
  h.elim (fun ⟨hp, hq⟩ => .inr ⟨hq, hp⟩) fun ⟨hp, hq⟩ => .inl ⟨hq, hp⟩

theorem opposite_next? {c : Char} {p q : Quoting} (hp : outside.next? c = some p)
    (hq : inside.next? c = some q) : Opposite p q := by
  rcases next?_outside_cases hp with ⟨rfl, rfl⟩ | ⟨hbare, rfl⟩
  · cases hq
    exact .inr ⟨rfl, rfl⟩
  · rw [next?_inside_of_isBare hbare, Option.some.injEq] at hq
    exact .inl ⟨rfl, hq.symm⟩

/-- Opposite readers of one text stay opposite. -/
theorem Opposite.after? {p q p' q' : Quoting} (h : Opposite p q) {cs : List Char}
    (hp : p.after? cs = some p') (hq : q.after? cs = some q') : Opposite p' q' := by
  induction cs generalizing p q with
  | nil =>
    cases hp
    cases hq
    exact h
  | cons c cs ih =>
    obtain ⟨p₁, hp₁, hp⟩ := Option.bind_eq_some_iff.mp hp
    obtain ⟨q₁, hq₁, hq⟩ := Option.bind_eq_some_iff.mp hq
    have hnext : Opposite p₁ q₁ := by
      rcases h with ⟨rfl, rfl⟩ | ⟨rfl, rfl⟩
      · exact opposite_next? hp₁ hq₁
      · exact (opposite_next? hq₁ hp₁).symm
    exact ih hnext hp hq

end Quoting

open Quoting

theorem isBare_of_mem_renderInteger {value : Int} {c : Char} (h : c ∈ renderInteger value) :
    isBare c = true := by
  have hdigits : ∀ d ∈ Nat.toDigits 10 value.natAbs, isBare d = true := fun d hd =>
    isBare_of_isDigit (Nat.isDigit_of_mem_toDigits (by decide) (by decide) hd)
  rw [renderInteger] at h
  split at h
  · rcases List.mem_cons.mp h with rfl | h
    · rfl
    · exact hdigits c h
  · exact hdigits c h

theorem isDigit_of_mem_shortest {bits : UInt64} {c : Char}
    (h : c ∈ (Decimal.shortest bits).digits) : c.isDigit = true := by
  have hmem := List.mem_reverse.mp ((List.dropWhile_sublist _).subset (List.mem_reverse.mp h))
  exact Nat.isDigit_of_mem_toDigits (by decide) (by decide) hmem

section Number

variable {d : Decimal.Digits} (hd : ∀ c ∈ d.digits, isBare c = true)

include hd

theorem isBare_of_mem_positional : ∀ c ∈ Decimal.Layout.positional d, isBare c = true := by
  have hzeros : ∀ n, ∀ c ∈ List.replicate n '0', isBare c = true := by
    intro n c hc
    rw [List.eq_of_mem_replicate hc]
    rfl
  have hfraction : ∀ n, ∀ c ∈ d.digits.drop n, isBare c = true := fun n c hc =>
    hd c (List.mem_of_mem_drop hc)
  rw [Decimal.Layout.positional]
  split
  · simp only [List.forall_mem_cons, List.forall_mem_append]
    exact ⟨rfl, rfl, hzeros _, hd⟩
  · simp only [List.forall_mem_cons, List.forall_mem_append]
    refine ⟨⟨fun c hc => hd c (List.mem_of_mem_take hc), hzeros _⟩, rfl, ?_⟩
    split
    · exact List.forall_mem_singleton.mpr rfl
    · exact hfraction _

theorem isBare_of_mem_scientific : ∀ c ∈ doubleLayout.scientific d, isBare c = true := by
  have hpoint : ∀ c ∈ (if d.digits.length ≤ 1 then [] else '.' :: d.digits.drop 1),
      isBare c = true := by
    split
    · exact nofun
    · exact List.forall_mem_cons.mpr ⟨rfl, fun c hc => hd c (List.mem_of_mem_drop hc)⟩
  have hsign : ∀ c ∈ (if d.exponent < 0 then ['-'] else doubleLayout.positiveSign),
      isBare c = true := by
    split <;> exact List.forall_mem_singleton.mpr rfl
  rw [Decimal.Layout.scientific]
  simp only [List.forall_mem_append]
  refine ⟨⟨⟨⟨fun c hc => hd c (List.mem_of_mem_take hc), hpoint⟩, ?_⟩, hsign⟩, fun c hc => ?_⟩
  · exact List.forall_mem_singleton.mpr rfl
  · exact isBare_of_isDigit (Nat.isDigit_of_mem_toDigits (by decide) (by decide) hc)

end Number

/-- A number is written without quotation marks. -/
theorem isBare_of_mem_renderNumber (value : Number) : ∀ c ∈ value.render, isBare c = true := by
  cases value with
  | integer value => exact fun c => isBare_of_mem_renderInteger
  | double bits =>
    have hsign : ∀ c ∈ (if Binary64.isNegative bits then ['-'] else []), isBare c = true := by
      split
      · exact List.forall_mem_singleton.mpr rfl
      · exact nofun
    have hdigits : ∀ c ∈ (Decimal.shortest bits).digits, isBare c = true := fun c hc =>
      isBare_of_isDigit (isDigit_of_mem_shortest hc)
    rw [Number.render, Decimal.Layout.render]
    dsimp only
    split
    · exact List.forall_mem_append.mpr ⟨hsign, List.all_eq_true.mp rfl⟩
    · split
      · exact List.forall_mem_append.mpr ⟨hsign, isBare_of_mem_positional hdigits⟩
      · exact List.forall_mem_append.mpr ⟨hsign, isBare_of_mem_scientific hdigits⟩

theorem after?_controlEscape {n : Nat} (h : n < 0x20) :
    inside.after? ['\\', 'u', '0', '0', Nat.digitChar (n / 16), Nat.digitChar (n % 16)] =
      some inside := by
  have hdigit : ∀ n < 16, isBare (Nat.digitChar n) = true := by decide
  have hdigits : ∀ c ∈ ['0', '0', Nat.digitChar (n / 16), Nat.digitChar (n % 16)],
      isBare c = true := by
    simp only [List.forall_mem_cons]
    exact ⟨rfl, rfl, hdigit _ (by omega), hdigit _ (by omega), nofun⟩
  rw [after?_cons_of rfl, after?_cons_of rfl, after?_inside_of_isBare hdigits]

/-- Whatever a character is written as inside of a string, the string goes on after it. -/
theorem after?_escape (c : Char) : inside.after? (escape c) = some inside := by
  rw [escape]
  split_ifs with hquote hbackslash _ _ _ _ _ hcontrol
  -- the escapes of two characters
  iterate 7 rfl
  · exact after?_controlEscape hcontrol
  · rw [after?_cons, next?, if_neg hquote, if_neg hbackslash]
    rfl

theorem after?_quote (s : String) : outside.after? (quote s) = some outside := by
  have hbody : ∀ cs : List Char, inside.after? (cs.flatMap escape) = some inside := by
    intro cs
    induction cs with
    | nil => rfl
    | cons c cs ih => rw [List.flatMap_cons, after?_append_of (after?_escape c), ih]
  rw [quote, after?_cons_of rfl, after?_append_of (hbody s.toList)]
  rfl

mutual

/-- The text of a value is read to its end, outside of all strings. -/
theorem after?_render : ∀ value : Json, outside.after? value.render = some outside
  | null => rfl
  | bool true => rfl
  | bool false => rfl
  | number value => after?_outside_of_isBare (isBare_of_mem_renderNumber value)
  | string value => after?_quote value
  | array [] => rfl
  | array (x :: xs) => by
    rw [render, after?_cons_of rfl, after?_append_of (after?_render x)]
    exact after?_renderItems xs
  | object [] => rfl
  | object ((key, x) :: xs) => by
    rw [render, after?_cons_of rfl, after?_append_of (after?_quote key), after?_cons_of rfl,
      after?_append_of (after?_render x)]
    exact after?_renderMembers xs

theorem after?_renderItems : ∀ xs : List Json, outside.after? (renderItems xs) = some outside
  | [] => rfl
  | x :: xs => by
    rw [renderItems, after?_cons_of rfl, after?_append_of (after?_render x)]
    exact after?_renderItems xs

theorem after?_renderMembers : ∀ xs : List (String × Json),
    outside.after? (renderMembers xs) = some outside
  | [] => rfl
  | (key, x) :: xs => by
    rw [renderMembers, after?_cons_of rfl, after?_append_of (after?_quote key),
      after?_cons_of rfl, after?_append_of (after?_render x)]
    exact after?_renderMembers xs

end

/-- Read as if it had begun inside of a string, the text of a value does not end outside. -/
theorem after?_inside_render_ne (value : Json) : inside.after? value.render ≠ some outside := by
  intro h
  have hopposite : Opposite outside outside :=
    Opposite.after? (.inl ⟨rfl, rfl⟩) (after?_render value) h
  rcases hopposite with ⟨-, h⟩ | ⟨h, -⟩ <;> cases h

end GraphClient.Json
