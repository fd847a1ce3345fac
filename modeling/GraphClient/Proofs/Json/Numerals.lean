import GraphClient.Json.Reader
import GraphClient.Proofs.Decimal.Rounding
import GraphClient.Proofs.Json.Quotation

/-!
# The texts of numbers

A number is written as a token that the reader of JSON texts takes apart again: its sign, its whole
digits, its fraction and its exponent (`numberToken_text`). The token of an integer is the integer; the
token of a double has a fraction or an exponent, and stands for a number that rounds to the double. So
no two numbers have one text, whatever comes after it (`render_number_append_inj`): an integer and a
double differ in the form of their tokens, the two zeros in their sign, and two other doubles in what
their tokens stand for.
-/

namespace GraphClient.Json

namespace Reader

/-- No value goes on with these characters: they are none, or begin with what ends an item. -/
def Delimited (rest : List Char) : Prop := ∀ c ∈ rest.head?, c = ',' ∨ c = ']' ∨ c = '}'

theorem digits_append {ds rest : List Char} (hds : ∀ c ∈ ds, c.isDigit = true)
    (hrest : ∀ c ∈ rest.head?, c.isDigit = false) : digits (ds ++ rest) = (ds, rest) := by
  have hnone : rest.takeWhile Char.isDigit = [] ∧ rest.dropWhile Char.isDigit = rest := by
    cases rest with
    | nil => exact ⟨rfl, rfl⟩
    | cons c rest => simp [hrest c rfl]
  rw [digits, List.takeWhile_append_of_pos hds, List.dropWhile_append_of_pos hds, hnone.1, hnone.2,
    List.append_nil]

theorem isDigit_of_delimited {rest : List Char} (h : Delimited rest) :
    ∀ c ∈ rest.head?, c.isDigit = false := by
  intro c hc
  rcases h c hc with rfl | rfl | rfl <;> rfl

theorem digitsValue_eq (ds : List Char) : digitsValue ds = Nat.ofDigitChars 10 ds 0 := by
  rw [digitsValue, Nat.ofDigitChars_eq_foldl]
  congr 1
  funext n d
  rw [Nat.mul_comm]
  rfl

namespace NumberToken

variable {t : NumberToken}

def fractionText (t : NumberToken) : List Char :=
  if t.fraction.isEmpty then [] else '.' :: t.fraction

/-- The exponent with its sign, which a positive one has too. -/
def exponentText (t : NumberToken) : List Char :=
  t.exponent.elim [] fun e => 'e' :: (if e.1 then '-' else '+') :: e.2

def text (t : NumberToken) : List Char :=
  (if t.negative then ['-'] else []) ++ t.whole ++ t.fractionText ++ t.exponentText

/-- The parts of a token are digits, with no zero before the others. -/
structure WellFormed (t : NumberToken) : Prop where
  whole_ne_nil : t.whole ≠ []
  whole_isDigit : ∀ c ∈ t.whole, c.isDigit = true
  whole_head : t.whole.head? = some '0' → t.whole.length = 1
  fraction_isDigit : ∀ c ∈ t.fraction, c.isDigit = true
  exponent_ne_nil : ∀ e ∈ t.exponent, e.2 ≠ []
  exponent_isDigit : ∀ e ∈ t.exponent, ∀ c ∈ e.2, c.isDigit = true

theorem fractionPart_text (h : t.WellFormed) (rest : List Char)
    (hdot : rest.head? ≠ some '.') (hrest : ∀ c ∈ rest.head?, c.isDigit = false) :
    fractionPart (t.fractionText ++ rest) = some (t.fraction, rest) := by
  rw [fractionText]
  split
  · next hempty =>
    rw [List.isEmpty_iff] at hempty
    rw [List.nil_append, hempty, fractionPart]
    rintro cs rfl
    exact hdot rfl
  · next hnonempty =>
    rw [List.cons_append, fractionPart, digits_append h.fraction_isDigit hrest, if_neg hnonempty]

theorem exponentPart_text (h : t.WellFormed) {rest : List Char} (hrest : Delimited rest) :
    exponentPart (t.exponentText ++ rest) = some (t.exponent, rest) := by
  rw [exponentText]
  cases hexponent : t.exponent with
  | none =>
    cases rest with
    | nil => rfl
    | cons c rest =>
      have hc : ¬ (c = 'e' ∨ c = 'E') := by
        rcases hrest c rfl with rfl | rfl | rfl <;> decide
      simp only [Option.elim_none, List.nil_append, exponentPart, if_neg hc]
  | some e =>
    obtain ⟨negative, ds⟩ := e
    have hdigits := digits_append (h.exponent_isDigit _ hexponent) (isDigit_of_delimited hrest)
    have hnonempty : ds.isEmpty = false := List.isEmpty_eq_false_iff.mpr (h.exponent_ne_nil _ hexponent)
    cases negative <;> simp [exponentPart, hdigits, hnonempty]

theorem head?_exponentText_append {rest : List Char} (hrest : Delimited rest) :
    ∀ c ∈ (t.exponentText ++ rest).head?, c.isDigit = false ∧ c ≠ '.' := by
  rw [exponentText]
  cases t.exponent with
  | none =>
    intro c hc
    rcases hrest c hc with rfl | rfl | rfl <;> decide
  | some e =>
    rintro c hc
    obtain rfl : 'e' = c := Option.some.inj hc
    decide

/-- The reader takes the text of a token apart. -/
theorem numberToken_text (h : t.WellFormed) {rest : List Char} (hrest : Delimited rest) :
    numberToken (t.text ++ rest) = some (t, rest) := by
  have hexponent := head?_exponentText_append (t := t) hrest
  have hfraction := fractionPart_text h (t.exponentText ++ rest)
    (fun hdot => (hexponent '.' hdot).2 rfl) fun c hc => (hexponent c hc).1
  have hfractionHead : ∀ c ∈ (t.fractionText ++ (t.exponentText ++ rest)).head?,
      c.isDigit = false := by
    rw [fractionText]
    split
    · exact fun c hc => (hexponent c hc).1
    · rintro c hc
      obtain rfl : '.' = c := Option.some.inj hc
      rfl
  have hwhole := digits_append h.whole_isDigit hfractionHead
  have hhead : ∀ cs, t.whole ++ (t.fractionText ++ (t.exponentText ++ rest)) ≠ '-' :: cs := by
    intro cs hcs
    obtain ⟨c, whole, hwhole⟩ := List.exists_cons_of_ne_nil h.whole_ne_nil
    rw [hwhole, List.cons_append] at hcs
    obtain rfl : c = '-' := (List.cons.inj hcs).1
    exact absurd (h.whole_isDigit '-' (hwhole ▸ List.mem_cons_self)) (by decide)
  have hzero : ¬ t.whole = [] ∧ (t.whole.head? = some '0' → t.whole.length ≤ 1) :=
    ⟨h.whole_ne_nil, fun hzero => (h.whole_head hzero).le⟩
  obtain ⟨negative, whole, fraction, exponent⟩ := t
  cases negative with
  | true => simpa [numberToken, text, hwhole, hfraction, exponentPart_text h hrest] using hzero
  | false =>
    -- the digits do not begin with a sign
    simpa [numberToken, text, hwhole, hfraction, exponentPart_text h hrest, hhead] using hzero

/-- Tokens with one text are equal, whatever ends the texts. -/
theorem text_append_inj {s t : NumberToken} (hs : s.WellFormed) (ht : t.WellFormed)
    {rest more : List Char} (hrest : Delimited rest) (hmore : Delimited more)
    (h : s.text ++ rest = t.text ++ more) : s = t ∧ rest = more := by
  have hread := numberToken_text hs hrest
  rw [h, numberToken_text ht hmore] at hread
  exact ⟨(congrArg Prod.fst (Option.some.inj hread)).symm,
    (congrArg Prod.snd (Option.some.inj hread)).symm⟩

/-- The exponent of a token, zero if there is none. -/
def exponentValue (t : NumberToken) : ℤ :=
  t.exponent.elim 0 fun e => if e.1 then -(digitsValue e.2 : ℤ) else digitsValue e.2

/-- The number that a token stands for, but for its sign. -/
def magnitude (t : NumberToken) : ℚ :=
  digitsValue (t.whole ++ t.fraction) * 10 ^ (t.exponentValue - t.fraction.length)

end NumberToken

end Reader

open Reader

/-- The token of digits with the point at the place of the exponent. -/
def positionalToken (negative : Bool) (d : Decimal.Digits) : NumberToken :=
  if d.exponent < 0 then
    ⟨negative, ['0'], List.replicate (-d.exponent - 1).toNat '0' ++ d.digits, none⟩
  else
    let size := d.exponent.toNat + 1
    let whole := d.digits.take size
    let fraction := d.digits.drop size
    ⟨negative, whole ++ List.replicate (size - whole.length) '0',
      if fraction.isEmpty then ['0'] else fraction, none⟩

/-- The token of one digit, the others after a point, and the exponent. -/
def scientificToken (negative : Bool) (d : Decimal.Digits) : NumberToken :=
  ⟨negative, d.digits.take 1, d.digits.drop 1,
    some (decide (d.exponent < 0), Nat.toDigits 10 d.exponent.natAbs)⟩

/-- The token as which a number is written. -/
def Number.token : Number → NumberToken
  | .integer value => ⟨decide (value < 0), Nat.toDigits 10 value.natAbs, [], none⟩
  | .double bits =>
    let negative := Binary64.isNegative bits
    if Binary64.isZero bits then ⟨negative, ['0'], ['0'], none⟩
    else
      let d := Decimal.shortest bits
      if doubleLayout.minPositional ≤ d.exponent ∧ d.exponent ≤ doubleLayout.maxPositional then
        positionalToken negative d
      else scientificToken negative d

section Digits

variable {d : Decimal.Digits} (negative : Bool)

theorem text_positionalToken (hne : d.digits ≠ []) :
    (positionalToken negative d).text =
      (if negative then ['-'] else []) ++ Decimal.Layout.positional d := by
  rw [positionalToken, Decimal.Layout.positional]
  split
  · simp [NumberToken.text, NumberToken.fractionText, NumberToken.exponentText, hne]
  · by_cases hfraction : d.digits.drop (d.exponent.toNat + 1) = [] <;>
      simp [NumberToken.text, NumberToken.fractionText, NumberToken.exponentText, hfraction]

theorem text_scientificToken :
    (scientificToken negative d).text =
      (if negative then ['-'] else []) ++ doubleLayout.scientific d := by
  have hlength : d.digits.length ≤ 1 ↔ d.digits.tail = [] := by cases d.digits <;> simp
  by_cases hexponent : d.exponent < 0 <;> by_cases htail : d.digits.tail = [] <;>
    simp [scientificToken, Decimal.Layout.scientific, doubleLayout, NumberToken.text,
      NumberToken.fractionText, NumberToken.exponentText, hexponent, hlength, htail]

theorem magnitude_positionalToken : (positionalToken negative d).magnitude = d.value := by
  rw [positionalToken]
  split
  · next hneg =>
    have hexponent : (0 : ℤ) - (List.replicate (-d.exponent - 1).toNat '0' ++ d.digits).length =
        d.exponent + 1 - d.digits.length := by
      rw [List.length_append, List.length_replicate]
      omega
    have hvalue : digitsValue (['0'] ++ (List.replicate (-d.exponent - 1).toNat '0' ++ d.digits)) =
        Nat.ofDigitChars 10 d.digits 0 := by
      rw [digitsValue_eq, Nat.ofDigitChars_append, Nat.ofDigitChars_append]
      simp [Nat.ofDigitChars_cons, Nat.ofDigitChars_replicate_zero]
    rw [NumberToken.magnitude]
    simp only [NumberToken.exponentValue, Option.elim_none, hexponent, hvalue]
    rfl
  · next hneg =>
    dsimp only
    set size := d.exponent.toNat + 1 with hsize
    rcases Nat.lt_or_ge size d.digits.length with hlt | hge
    · -- the point stands between the digits
      have hfraction : (d.digits.drop size).isEmpty = false := by
        simp [List.isEmpty_eq_false_iff, hlt]
      have hlength : (d.digits.take size).length = size := by
        rw [List.length_take]
        omega
      have hexponent : (0 : ℤ) - (d.digits.drop size).length = d.exponent + 1 - d.digits.length := by
        rw [List.length_drop]
        omega
      rw [NumberToken.magnitude]
      simp only [NumberToken.exponentValue, Option.elim_none, hfraction, Bool.false_eq_true, if_false,
        hlength, Nat.sub_self, List.replicate_zero, List.append_nil, List.take_append_drop, hexponent,
        digitsValue_eq]
      rfl
    · -- zeros stand between the last digit and the point
      have hfraction : (d.digits.drop size).isEmpty = true := by simp [hge]
      have hexponent : d.exponent + 1 - d.digits.length = (size - d.digits.length : ℕ) := by omega
      rw [NumberToken.magnitude, Decimal.Digits.value, hexponent, zpow_natCast]
      simp only [NumberToken.exponentValue, Option.elim_none, hfraction, if_true,
        List.take_of_length_le hge, digitsValue_eq, Nat.ofDigitChars_append,
        Nat.ofDigitChars_replicate_zero]
      simp [Nat.ofDigitChars_cons]
      ring

theorem magnitude_scientificToken (hne : d.digits ≠ []) :
    (scientificToken negative d).magnitude = d.value := by
  have hexponent : (scientificToken negative d).exponentValue = d.exponent := by
    simp only [scientificToken, NumberToken.exponentValue, Option.elim_some, digitsValue_eq,
      Nat.ofDigitChars_ten_toDigits, decide_eq_true_eq]
    split <;> omega
  have hlength : d.exponent - (d.digits.drop 1).length = d.exponent + 1 - d.digits.length := by
    have := List.length_pos_of_ne_nil hne
    rw [List.length_drop]
    omega
  rw [NumberToken.magnitude, hexponent]
  simp only [scientificToken]
  rw [List.take_append_drop, digitsValue_eq, hlength]
  rfl

variable (hd : ∀ c ∈ d.digits, c.isDigit = true) {c : Char} {cs : List Char}
  (hdigits : d.digits = c :: cs)

include hd hdigits

theorem wellFormed_positionalToken (hc : c ≠ '0') : (positionalToken negative d).WellFormed := by
  have hzeros : ∀ n, ∀ c ∈ List.replicate n '0', c.isDigit = true := by
    intro n c hc
    rw [List.eq_of_mem_replicate hc]
    rfl
  rw [positionalToken]
  split
  · refine ⟨List.cons_ne_nil _ _, List.forall_mem_singleton.mpr rfl, fun _ => rfl, ?_, nofun, nofun⟩
    exact List.forall_mem_append.mpr ⟨hzeros _, hd⟩
  · have htake : ∀ n, d.digits.take (n + 1) = c :: cs.take n := fun n => by rw [hdigits]; rfl
    refine ⟨?_, ?_, ?_, ?_, nofun, nofun⟩
    · simp [htake]
    · exact List.forall_mem_append.mpr ⟨fun c hc => hd c (List.mem_of_mem_take hc), hzeros _⟩
    · simp [htake, hc]
    · dsimp only
      split
      · exact List.forall_mem_singleton.mpr rfl
      · exact fun c hc => hd c (List.mem_of_mem_drop hc)

theorem wellFormed_scientificToken : (scientificToken negative d).WellFormed := by
  refine ⟨?_, fun c hc => hd c (List.mem_of_mem_take hc), ?_,
    fun c hc => hd c (List.mem_of_mem_drop hc), ?_, ?_⟩
  · simp [scientificToken, hdigits]
  · simp [scientificToken, hdigits]
  · rintro e he
    obtain rfl := Option.some.inj he
    exact Nat.toDigits_ne_nil
  · rintro e he
    obtain rfl := Option.some.inj he
    exact fun c => Nat.isDigit_of_mem_toDigits (by decide) (by decide)

end Digits

theorem text_token (value : Number) : value.token.text = value.render := by
  cases value with
  | integer value =>
    by_cases hvalue : value < 0 <;>
    simp [Number.token, Number.render, renderInteger, NumberToken.text, NumberToken.fractionText,
      NumberToken.exponentText, hvalue]
  | double bits =>
    rw [Number.token, Number.render, Decimal.Layout.render]
    dsimp only
    split
    · simp [NumberToken.text, NumberToken.fractionText, NumberToken.exponentText]
    · next hzero =>
      obtain ⟨c, cs, hdigits, -⟩ :=
        Decimal.exists_digits_shortest_eq_cons (Bool.eq_false_iff.mpr hzero)
      split
      · exact text_positionalToken _ (by rw [hdigits]; exact List.cons_ne_nil c cs)
      · exact text_scientificToken _

theorem wellFormed_token (value : Number) : value.token.WellFormed := by
  cases value with
  | integer value =>
    rw [Number.token]
    refine ⟨Nat.toDigits_ne_nil, fun c => Nat.isDigit_of_mem_toDigits (by decide) (by decide),
      fun hhead => ?_, nofun, nofun, nofun⟩
    rcases Nat.eq_zero_or_pos value.natAbs with hzero | hpos
    · rw [hzero]
      rfl
    · exact absurd hhead (Decimal.head?_toDigits hpos)
  | double bits =>
    rw [Number.token]
    dsimp only
    split
    · exact ⟨List.cons_ne_nil _ _, List.forall_mem_singleton.mpr rfl, fun _ => rfl,
        List.forall_mem_singleton.mpr rfl, nofun, nofun⟩
    · next hzero =>
      have hd : ∀ c ∈ (Decimal.shortest bits).digits, c.isDigit = true := fun c =>
        isDigit_of_mem_shortest
      obtain ⟨c, cs, hdigits, hc⟩ :=
        Decimal.exists_digits_shortest_eq_cons (Bool.eq_false_iff.mpr hzero)
      split
      · exact wellFormed_positionalToken _ hd hdigits hc
      · exact wellFormed_scientificToken _ hd hdigits

/-- What the token of a double stands for rounds to the double. -/
theorem contains_token (bits : UInt64) :
    (Decimal.RoundingInterval.ofBits bits).Contains (Number.double bits).token.magnitude := by
  rw [Number.token]
  dsimp only
  split
  · next hzero =>
    have hvalue : digitsValue (['0'] ++ ['0']) = 0 := rfl
    rw [NumberToken.magnitude, hvalue, Nat.cast_zero, zero_mul]
    exact Decimal.RoundingInterval.contains_zero hzero
  · next hzero =>
    rw [Bool.not_eq_true] at hzero
    obtain ⟨c, cs, hdigits, -⟩ := Decimal.exists_digits_shortest_eq_cons hzero
    have hcontains := Decimal.contains_shortest hzero
    split
    · rwa [magnitude_positionalToken]
    · rwa [magnitude_scientificToken _ (by rw [hdigits]; exact List.cons_ne_nil c cs)]

/-- The token of a double has a fraction or an exponent. -/
theorem fraction_or_exponent_of_double (bits : UInt64) :
    (Number.double bits).token.fraction ≠ [] ∨ (Number.double bits).token.exponent ≠ none := by
  rw [Number.token]
  dsimp only
  split
  · exact .inl (List.cons_ne_nil _ _)
  · next hzero =>
    obtain ⟨c, cs, hdigits, -⟩ :=
      Decimal.exists_digits_shortest_eq_cons (Bool.eq_false_iff.mpr hzero)
    split
    · left
      rw [positionalToken]
      split
      · simp [hdigits]
      · dsimp only
        split
        · exact List.cons_ne_nil _ _
        · next hfraction => exact fun hnil => hfraction (List.isEmpty_iff.mpr hnil)
    · exact .inr nofun

theorem negative_token_of_double (bits : UInt64) :
    (Number.double bits).token.negative = Binary64.isNegative bits := by
  rw [Number.token]
  dsimp only
  split
  · rfl
  · split
    · rw [positionalToken]
      split <;> rfl
    · rfl

/-- Different numbers have different tokens. -/
theorem Number.token_injective : Function.Injective Number.token := by
  intro m n h
  cases m with
  | integer a =>
    cases n with
    | integer b =>
      have hsign := congrArg NumberToken.negative h
      have hwhole := congrArg (fun t => digitsValue t.whole) h
      simp only [Number.token, digitsValue_eq, Nat.ofDigitChars_ten_toDigits, decide_eq_decide]
        at hsign hwhole
      rw [Number.integer.injEq]
      omega
    | double b =>
      rcases fraction_or_exponent_of_double b with hne | hne <;> rw [← h] at hne <;>
        exact absurd rfl hne
  | double a =>
    cases n with
    | integer b =>
      rcases fraction_or_exponent_of_double a with hne | hne <;> rw [h] at hne <;>
        exact absurd rfl hne
    | double b =>
      have hsign := congrArg NumberToken.negative h
      rw [negative_token_of_double, negative_token_of_double] at hsign
      have hcontains := contains_token b
      rw [← h] at hcontains
      have hunsigned :=
        Decimal.RoundingInterval.unsigned_eq_of_contains (contains_token a) hcontains
      rw [Binary64.eq_of_unsigned_eq hunsigned hsign]

/-- Different numbers have different texts, whatever ends them. -/
theorem render_number_append_inj {m n : Number} {rest more : List Char} (hrest : Delimited rest)
    (hmore : Delimited more) (h : m.render ++ rest = n.render ++ more) : m = n ∧ rest = more := by
  rw [← text_token, ← text_token] at h
  obtain ⟨htoken, hends⟩ :=
    NumberToken.text_append_inj (wellFormed_token m) (wellFormed_token n) hrest hmore h
  exact ⟨Number.token_injective htoken, hends⟩

end GraphClient.Json
