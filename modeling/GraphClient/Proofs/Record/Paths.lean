import GraphClient.Proofs.Selection.Names
import GraphClient.Record.Basic
import Mathlib.Data.List.Basic
import Mathlib.Data.List.Induction

/-!
# Keys as paths

A key is made longer by steps: the name under which a field is stored, or the index of an item. Each
step is put behind a point, and neither the key before it nor the arguments of a field are kept from
containing points, parentheses or whole keys. Still the last step can be told from what is before it
(`fieldKey_inj`). A name or an index has no point. In a field with arguments a point could only stand
in front of another step if the arguments of that step began inside of a string of the first
arguments, and then they would not end where those end.

So two ways through the same steps are told apart by the key they lead to: of two ways to one key,
one is the end of the other (`walk_eq_walk`).
-/

namespace GraphClient

/-- What a key is made longer by. -/
inductive Step where
  /-- A field, by the name under which it is stored. -/
  | field (name : String)
  | item (index : Nat)
deriving DecidableEq

namespace Step

/-- What is put behind the point. -/
def text : Step → String
  | field name => name
  | item index => String.ofList (Nat.toDigits 10 index)

/-- A field is stored under the key of a field with a name, whatever its arguments are. -/
def IsStored : Step → Prop
  | field name => ∃ (f : Field) (vars : Json.Object), isName f.name = true ∧ name = f.cacheKey vars
  | item _ => True

/-- A step is written with the characters of names, but for arguments in parentheses. -/
theorem toList_text_cases {s : Step} (hs : s.IsStored) :
    (∀ c ∈ s.text.toList, isNameChar c = true) ∨
      ∃ (name : List Char) (value : Json), (∀ c ∈ name, isNameChar c = true) ∧
        s.text.toList = name ++ '(' :: (value.render ++ [')']) := by
  cases s with
  | field name =>
    obtain ⟨f, vars, hname, rfl⟩ := hs
    rcases f.toList_cacheKey_cases vars with hplain | ⟨value, harguments⟩
    · left
      rw [text, hplain]
      exact isNameChar_of_mem hname
    · exact .inr ⟨f.name.toList, value, isNameChar_of_mem hname, harguments⟩
  | item index =>
    left
    rw [text, String.toList_ofList]
    exact fun c hc => isNameChar_of_isDigit (Nat.isDigit_of_mem_toDigits (by decide) (by decide) hc)

open Json.Quoting in
/-- The arguments of one field do not end with a point, a name and the arguments of another. -/
theorem render_ne_append (value other : Json) (before : List Char) {name : List Char}
    (hname : ∀ c ∈ name, isNameChar c = true) :
    value.render ≠ before ++ '.' :: (name ++ '(' :: other.render) := by
  intro h
  have hread := Json.after?_render value
  rw [h, after?_append, Option.bind_eq_some_iff] at hread
  obtain ⟨q, -, hread⟩ := hread
  -- the point and the name leave a reader inside or outside of strings, but after no backslash
  have hbare : ∀ c ∈ name, Json.isBare c = true := fun c hc => isBare_of_isNameChar (hname c hc)
  have hreach : outside.after? ('(' :: other.render) = some outside ∨
      inside.after? ('(' :: other.render) = some outside := by
    cases q with
    | outside =>
      left
      rwa [after?_cons_of rfl, after?_append_of (after?_outside_of_isBare hbare)] at hread
    | inside =>
      right
      rwa [after?_cons_of rfl, after?_append_of (after?_inside_of_isBare hbare)] at hread
    | escaped =>
      right
      rwa [after?_cons_of rfl, after?_append_of (after?_inside_of_isBare hbare)] at hread
  rcases hreach with houtside | hinside
  · cases houtside
  · exact Json.after?_inside_render_ne other hinside

/-- No step ends with a point and another step. -/
theorem toList_text_ne_append {s t : Step} (hs : s.IsStored) (ht : t.IsStored)
    (before : List Char) : s.text.toList ≠ before ++ '.' :: t.text.toList := by
  intro h
  rcases toList_text_cases hs with hplain | ⟨name, value, hname, hs⟩
  · have hpoint := hplain '.' (by rw [h]; simp)
    cases hpoint
  rw [hs] at h
  rcases toList_text_cases ht with hplain | ⟨name', value', hname', ht⟩
  · -- the first ends with a parenthesis, the second with a point or a character of a name
    have hlast : ')' ∈ '.' :: t.text.toList := by
      refine List.mem_of_getLast? ?_
      rw [← List.getLast?_append_cons before, ← h, List.getLast?_append_cons,
        ← List.cons_append, List.getLast?_concat]
    rcases List.mem_cons.1 hlast with hpoint | hchar
    · cases hpoint
    · cases hplain _ hchar
  · rw [ht] at h
    have hclosed : ((name ++ ['(']) ++ value.render) ++ [')'] =
        (before ++ '.' :: (name' ++ '(' :: value'.render)) ++ [')'] := by simpa using h
    rcases List.append_eq_append_iff.1 (List.append_cancel_right hclosed) with ⟨middle, rfl, hrender⟩ | ⟨middle, hopened, hrest⟩
    · exact render_ne_append value value' middle hname' hrender
    · -- the point is one of the characters of the name
      cases middle with
      | nil => exact render_ne_append value value' [] hname' hrest.symm
      | cons c middle =>
        obtain ⟨rfl, -⟩ := List.cons.inj hrest
        have hpoint : '.' ∈ name ++ ['('] := by rw [hopened]; simp
        rcases List.mem_append.1 hpoint with hpoint | hpoint
        · cases hname _ hpoint
        · cases List.mem_singleton.1 hpoint

/-- An index begins with a digit, a field does not. -/
theorem text_item_ne {index : Nat} {name : String} (hs : (field name).IsStored) :
    (item index).text ≠ (field name).text := by
  intro h
  obtain ⟨f, vars, hname, rfl⟩ := hs
  obtain ⟨c, cs, hchars, hc, -⟩ := isName_cases hname
  have hstart : ∃ rest, (f.cacheKey vars).toList = c :: rest := by
    rcases f.toList_cacheKey_cases vars with hplain | ⟨value, harguments⟩
    · exact ⟨cs, by rw [hplain, hchars]⟩
    · exact ⟨_, by rw [harguments, hchars, List.cons_append]⟩
  obtain ⟨rest, hrest⟩ := hstart
  have hdigit : c ∈ Nat.toDigits 10 index := by
    have := congrArg String.toList h
    rw [text, text, String.toList_ofList, hrest] at this
    rw [this]
    exact List.mem_cons_self
  have := Nat.isDigit_of_mem_toDigits (by decide) (by decide) hdigit
  rw [isDigit_eq_false_of_isNameStart hc] at this
  cases this

/-- A step is told by its text. -/
theorem text_inj {s t : Step} (hs : s.IsStored) (ht : t.IsStored) (h : s.text = t.text) :
    s = t := by
  have htext : s.text.toList = t.text.toList := congrArg String.toList h
  cases s with
  | field name =>
    cases t with
    | field other => exact congrArg field h
    | item index => exact absurd h.symm (text_item_ne hs)
  | item index =>
    cases t with
    | field other => exact absurd h (text_item_ne ht)
    | item other =>
      simp only [text, String.toList_ofList] at htext
      have hvalue := congrArg (Nat.ofDigitChars 10 · 0) htext
      simp only [Nat.ofDigitChars_toDigits (b := 10) (by decide) (by decide)] at hvalue
      exact congrArg item hvalue

end Step

namespace RecordKey

theorem toList_fieldKey (key : RecordKey) (name : String) :
    (key.fieldKey name).toList = key.text.toList ++ '.' :: name.toList := by
  simp [fieldKey]

/-- The key of a field of a record tells the record and the field. -/
theorem fieldKey_inj {a b : RecordKey} {s t : Step} (hs : s.IsStored) (ht : t.IsStored)
    (h : a.fieldKey s.text = b.fieldKey t.text) : a = b ∧ s = t := by
  have h := congrArg String.toList h
  rw [toList_fieldKey, toList_fieldKey] at h
  rcases List.append_eq_append_iff.1 h with ⟨middle, hb, hrest⟩ | ⟨middle, ha, hrest⟩
  · cases middle with
    | nil =>
      refine ⟨?_, Step.text_inj hs ht (String.toList_inj.1 (List.cons.inj hrest).2)⟩
      rw [List.append_nil] at hb
      exact (congrArg RecordKey.mk (String.toList_inj.1 hb)).symm
    | cons c middle => exact (Step.toList_text_ne_append hs ht middle (List.cons.inj hrest).2).elim
  · cases middle with
    | nil =>
      refine ⟨?_, (Step.text_inj ht hs (String.toList_inj.1 (List.cons.inj hrest).2)).symm⟩
      rw [List.append_nil] at ha
      exact congrArg RecordKey.mk (String.toList_inj.1 ha)
    | cons c middle => exact (Step.toList_text_ne_append ht hs middle (List.cons.inj hrest).2).elim

theorem child_inj {a b : RecordKey} {s t : Step} (hs : s.IsStored) (ht : t.IsStored)
    (h : a.child s.text = b.child t.text) : a = b ∧ s = t :=
  fieldKey_inj hs ht (congrArg RecordKey.text h)

/-- The key to which steps lead from a key. -/
def walk (key : RecordKey) (steps : List Step) : RecordKey :=
  steps.foldl (fun k s => k.child s.text) key

@[simp] theorem walk_nil (key : RecordKey) : key.walk [] = key := rfl

@[simp] theorem walk_cons (key : RecordKey) (s : Step) (steps : List Step) :
    key.walk (s :: steps) = (key.child s.text).walk steps := rfl

theorem walk_append (key : RecordKey) (steps more : List Step) :
    key.walk (steps ++ more) = (key.walk steps).walk more :=
  List.foldl_append

theorem walk_concat (key : RecordKey) (steps : List Step) (s : Step) :
    key.walk (steps ++ [s]) = (key.walk steps).child s.text :=
  walk_append key steps [s]

/-- Every step makes a key longer. -/
theorem length_le_length_walk (key : RecordKey) (steps : List Step) :
    key.text.length + steps.length ≤ (key.walk steps).text.length := by
  induction steps generalizing key with
  | nil => simp
  | cons s steps ih =>
    have hchild : (key.child s.text).text.length = key.text.length + 1 + s.text.length := by
      rw [child, ← String.length_toList, toList_fieldKey, List.length_append, List.length_cons,
        String.length_toList, String.length_toList]
      omega
    have := ih (key.child s.text)
    rw [walk_cons, List.length_cons]
    omega

/-- Of two ways to one key, one is the end of the other. -/
theorem walk_eq_walk {a b : RecordKey} {p q : List Step} (hp : ∀ s ∈ p, s.IsStored)
    (hq : ∀ s ∈ q, s.IsStored) (h : a.walk p = b.walk q) :
    (∃ r, p = r ++ q ∧ a.walk r = b) ∨ ∃ r, q = r ++ p ∧ b.walk r = a := by
  induction p using List.reverseRecOn generalizing q with
  | nil => exact .inr ⟨q, by simp, h.symm⟩
  | append_singleton p s ih =>
    cases q using List.reverseRecOn with
    | nil => exact .inl ⟨p ++ [s], by simp, h⟩
    | append_singleton q t =>
      rw [walk_concat, walk_concat] at h
      obtain ⟨hbefore, rfl⟩ := child_inj (hp s (by simp)) (hq t (by simp)) h
      have hp : ∀ s ∈ p, s.IsStored := fun s hs => hp s (List.mem_append_left _ hs)
      have hq : ∀ s ∈ q, s.IsStored := fun s hs => hq s (List.mem_append_left _ hs)
      rcases ih hp hq hbefore with ⟨r, rfl, hr⟩ | ⟨r, rfl, hr⟩
      · exact .inl ⟨r, by simp, hr⟩
      · exact .inr ⟨r, by simp, hr⟩

/-- No steps lead from a key back to it. -/
theorem eq_nil_of_walk_eq_self {key : RecordKey} {p : List Step} (h : key.walk p = key) :
    p = [] := by
  have := length_le_length_walk key p
  rw [h] at this
  exact List.length_eq_zero_iff.1 (by omega)

/-- Two ways from one key to one key are the same way. -/
theorem walk_inj {key : RecordKey} {p q : List Step} (hp : ∀ s ∈ p, s.IsStored)
    (hq : ∀ s ∈ q, s.IsStored) (h : key.walk p = key.walk q) : p = q := by
  rcases walk_eq_walk hp hq h with ⟨r, rfl, hr⟩ | ⟨r, rfl, hr⟩
  · rw [eq_nil_of_walk_eq_self hr, List.nil_append]
  · rw [eq_nil_of_walk_eq_self hr, List.nil_append]

end RecordKey

end GraphClient
