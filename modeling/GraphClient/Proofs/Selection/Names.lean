import GraphClient.Proofs.Json.Quotation
import GraphClient.Proofs.Selection.Applying

/-!
# Names of fields

A name begins with a letter or an underscore and goes on with letters, digits and underscores. The
key under which a field of such a name is stored is the name itself, or the name with the text of the
arguments in parentheses (`toList_cacheKey_cases`); before the arguments there are only characters of
names.
-/

namespace GraphClient

def isNameStart (c : Char) : Bool := c.isAlpha || c == '_'

def isNameChar (c : Char) : Bool := c.isAlphanum || c == '_'

/-- The names of fields and of types. -/
def isName (name : String) : Bool :=
  match name.toList with
  | [] => false
  | c :: cs => isNameStart c && cs.all isNameChar

theorem isNameChar_of_isNameStart {c : Char} (h : isNameStart c = true) : isNameChar c = true := by
  rw [isNameStart, Bool.or_eq_true] at h
  rw [isNameChar, Char.isAlphanum]
  rcases h with h | h <;> simp [h]

theorem isNameChar_of_isDigit {c : Char} (h : c.isDigit = true) : isNameChar c = true := by
  simp [isNameChar, Char.isAlphanum, h]

theorem isDigit_eq_false_of_isNameStart {c : Char} (h : isNameStart c = true) :
    c.isDigit = false := by
  rw [isNameStart, Bool.or_eq_true, beq_iff_eq] at h
  -- the letters come after the digits
  have hlow : 'A'.toNat ≤ c.toNat := by
    rcases h with h | rfl
    · have hletter : (decide ('A'.val ≤ c.val ∧ c.val ≤ 'Z'.val) ||
          (decide ('a'.val ≤ c.val) && decide (c.val ≤ 'z'.val))) = true := h
      simp only [Bool.or_eq_true, Bool.and_eq_true, decide_eq_true_eq,
        UInt32.le_iff_toNat_le] at hletter
      rcases hletter with ⟨hlow, -⟩ | ⟨hlow, -⟩
      · exact hlow
      · exact Nat.le_trans (by decide) hlow
    · decide
  rw [← Bool.not_eq_true, Char.isDigit_iff_toNat]
  rintro ⟨-, hhigh⟩
  exact absurd (Nat.le_trans hlow hhigh) (by decide)

theorem isName_cases {name : String} (h : isName name = true) :
    ∃ c cs, name.toList = c :: cs ∧ isNameStart c = true ∧ ∀ d ∈ cs, isNameChar d = true := by
  rw [isName] at h
  split at h
  · cases h
  · next c cs hname =>
    rw [Bool.and_eq_true, List.all_eq_true] at h
    exact ⟨c, cs, hname, h.1, h.2⟩

theorem isNameChar_of_mem {name : String} (h : isName name = true) :
    ∀ c ∈ name.toList, isNameChar c = true := by
  obtain ⟨c, cs, hname, hc, hcs⟩ := isName_cases h
  rw [hname]
  exact List.forall_mem_cons.mpr ⟨isNameChar_of_isNameStart hc, hcs⟩

/-- Texts are cut alike at the first character that is none of a name. -/
theorem append_cons_inj_of_isNameChar {a b x y : List Char} {c d : Char}
    (ha : ∀ e ∈ a, isNameChar e = true) (hb : ∀ e ∈ b, isNameChar e = true)
    (hc : isNameChar c = false) (hd : isNameChar d = false) (h : a ++ c :: x = b ++ d :: y) :
    a = b ∧ c = d ∧ x = y := by
  induction a generalizing b with
  | nil =>
    cases b with
    | nil =>
      cases h
      exact ⟨rfl, rfl, rfl⟩
    | cons e b =>
      obtain ⟨rfl, -⟩ := List.cons.inj h
      cases hc.symm.trans (hb c List.mem_cons_self)
  | cons e a ih =>
    obtain ⟨he, ha⟩ := List.forall_mem_cons.mp ha
    cases b with
    | nil =>
      obtain ⟨rfl, -⟩ := List.cons.inj h
      cases hd.symm.trans he
    | cons e' b =>
      obtain ⟨rfl, hrest⟩ := List.cons.inj h
      obtain ⟨rfl, rest⟩ := ih ha (List.forall_mem_cons.mp hb).2 hrest
      exact ⟨rfl, rest⟩

theorem isBare_of_isNameChar {c : Char} (h : isNameChar c = true) : Json.isBare c = true :=
  Json.isBare_of_class rfl rfl rfl h

namespace Field

/-- The name under which a field is stored ends with its arguments, if there are any. -/
theorem toList_cacheKey_cases (field : Field) (vars : Json.Object) :
    (field.cacheKey vars).toList = field.name.toList ∨
      ∃ value : Json, (field.cacheKey vars).toList =
        field.name.toList ++ '(' :: (value.render ++ [')']) := by
  rw [cacheKey]
  split
  · exact .inl rfl
  · refine .inr ⟨(resolveArguments vars field.arguments).sorted, ?_⟩
    simp [Json.canonicalText]

end Field

mutual

/-- Every field of a selection, at any depth, has a name. -/
def Selection.isNamed : Selection → Bool
  | .field field shape => isName field.name && shape.isNamed
  | .fragment _ selections => selectionsNamed selections

def Shape.isNamed : Shape → Bool
  | .leaf => true
  | .object selections => selectionsNamed selections
  | .list item => item.isNamed

def selectionsNamed : List Selection → Bool
  | [] => true
  | s :: ss => s.isNamed && selectionsNamed ss

end

mutual

theorem Selection.isNamed_of_applying : ∀ {s : Selection}, s.isNamed = true →
    ∀ {typename f}, f ∈ s.applying typename → isName f.1.name = true ∧ f.2.isNamed = true
  | .field field shape, h, typename, f, hf => by
    rw [Selection.applying, List.mem_singleton] at hf
    subst hf
    exact Bool.and_eq_true_iff.mp h
  | .fragment _ _, h, typename, f, hf => by
    rw [Selection.applying] at hf
    split at hf
    · exact isNamed_of_applying h hf
    · cases hf

/-- The fields that apply to objects of a type have names, and so have those inside of them. -/
theorem isNamed_of_applying : ∀ {ss : List Selection}, selectionsNamed ss = true →
    ∀ {typename f}, f ∈ selectionsApplying typename ss →
      isName f.1.name = true ∧ f.2.isNamed = true
  | [], _, typename, f, hf => by
    rw [selectionsApplying] at hf
    cases hf
  | s :: ss, h, typename, f, hf => by
    obtain ⟨hs, hss⟩ := Bool.and_eq_true_iff.mp h
    rw [selectionsApplying_cons, List.mem_append] at hf
    rcases hf with hf | hf
    · exact Selection.isNamed_of_applying hs hf
    · exact isNamed_of_applying hss hf

end

end GraphClient
