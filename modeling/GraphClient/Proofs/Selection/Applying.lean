import GraphClient.Json.Basic
import GraphClient.Selection.Basic

/-!
# The fields that apply to an object

Once the concrete type of an object is known, its fragments are decided, and what is left of its
selections is a list of fields with their shapes. `selectionsApplying` is that list. Taking a
response apart and reading records both walk such a list for every object, only the type comes from
different places, so statements about them need no cases for fragments.

The shape of a field that applies is smaller than the shape it is found in, whatever the type is;
`Shape.inductionOn` is induction on shapes along this order. `EachSet p` says that `p` holds of every
selection set of a shape, at any depth, and `allFields` lists the fields of all of them.
-/

namespace GraphClient

namespace Selection

/-- Whether a selection is a fragment. -/
def isFragment : Selection → Bool
  | .fragment _ _ => true
  | .field _ _ => false

end Selection

mutual

/-- The fields that a selection asks of an object of a concrete type. -/
def Selection.applying (typename : Option String) : Selection → List (Field × Shape)
  | .field field shape => [(field, shape)]
  | .fragment types selections =>
    if fragmentApplies types typename then selectionsApplying typename selections else []

/-- The fields that selections ask of an object of a concrete type, in order. -/
def selectionsApplying (typename : Option String) : List Selection → List (Field × Shape)
  | [] => []
  | s :: ss => s.applying typename ++ selectionsApplying typename ss

end

theorem selectionsApplying_cons (typename : Option String) (s : Selection) (ss : List Selection) :
    selectionsApplying typename (s :: ss) =
      s.applying typename ++ selectionsApplying typename ss := by
  rw [selectionsApplying]

/-- A field that is selected directly applies to objects of every type. -/
theorem mem_selectionsApplying_of_mem {field : Field} {shape : Shape} {selections : List Selection}
    (h : .field field shape ∈ selections) (typename : Option String) :
    (field, shape) ∈ selectionsApplying typename selections := by
  induction selections with
  | nil => cases h
  | cons s ss ih =>
    rw [selectionsApplying_cons, List.mem_append]
    rcases List.mem_cons.mp h with rfl | hmem
    · exact .inl (by rw [Selection.applying]; exact List.mem_singleton.mpr rfl)
    · exact .inr (ih hmem)

/-- What applies to an object without a type applies to objects of every type. -/
theorem selectionsApplying_none_subset (typename : Option String) (selections : List Selection) :
    selectionsApplying none selections ⊆ selectionsApplying typename selections := by
  induction selections with
  | nil => simp [selectionsApplying]
  | cons s ss ih =>
    rw [selectionsApplying_cons, selectionsApplying_cons]
    cases s with
    | field field shape =>
      simpa [Selection.applying] using List.Subset.trans ih (List.subset_cons_self _ _)
    | fragment types selections =>
      rw [Selection.applying, fragmentApplies_none]
      exact List.subset_append_of_subset_right _ ih

/-- Without fragments the type makes no difference. -/
theorem selectionsApplying_eq_of_no_fragment {selections : List Selection}
    (h : selections.any Selection.isFragment = false) (typename other : Option String) :
    selectionsApplying typename selections = selectionsApplying other selections := by
  induction selections with
  | nil => rw [selectionsApplying, selectionsApplying]
  | cons s ss ih =>
    rw [List.any_cons, Bool.or_eq_false_iff] at h
    cases s with
    | field field shape =>
      rw [selectionsApplying_cons, selectionsApplying_cons, ih h.2, Selection.applying,
        Selection.applying]
    | fragment types selections => cases h.1

/-- Induction on shapes: an object shape may use the statement for the shape of every field that
applies to an object of some type. -/
@[elab_as_elim]
theorem Shape.inductionOn {motive : Shape → Prop} (shape : Shape) (leaf : motive .leaf)
    (list : ∀ item, motive item → motive (.list item))
    (object : ∀ selections,
      (∀ typename, ∀ f ∈ selectionsApplying typename selections, motive f.2) →
        motive (.object selections)) : motive shape := by
  -- a selection and a list of selections stand for the shapes of the fields that apply
  refine @Shape.rec (fun s => ∀ typename, ∀ f ∈ s.applying typename, motive f.2) motive
    (fun ss => ∀ typename, ∀ f ∈ selectionsApplying typename ss, motive f.2)
    ?_ ?_ leaf object list ?_ ?_ shape
  · intro field shape hshape typename f hf
    rw [Selection.applying, List.mem_singleton] at hf
    subst hf
    exact hshape
  · intro types selections hselections typename f hf
    rw [Selection.applying] at hf
    split at hf
    · exact hselections typename f hf
    · cases hf
  · intro typename f hf
    rw [selectionsApplying] at hf
    cases hf
  · intro s ss hs hss typename f hf
    rw [selectionsApplying_cons, List.mem_append] at hf
    rcases hf with hf | hf
    · exact hs typename f hf
    · exact hss typename f hf

mutual

/-- The selection sets inside a selection satisfy `p`. -/
def Selection.EachSet (p : List Selection → Prop) : Selection → Prop
  | .field _ shape => shape.EachSet p
  | .fragment _ selections => SelectionsEachSet p selections

/-- The selection sets of a shape, at any depth, satisfy `p`. -/
def Shape.EachSet (p : List Selection → Prop) : Shape → Prop
  | .leaf => True
  | .object selections => p selections ∧ SelectionsEachSet p selections
  | .list item => item.EachSet p

/-- The selection sets inside selections satisfy `p`. -/
def SelectionsEachSet (p : List Selection → Prop) : List Selection → Prop
  | [] => True
  | s :: ss => s.EachSet p ∧ SelectionsEachSet p ss

end

mutual

theorem Selection.EachSet.imp {p q : List Selection → Prop} (hpq : ∀ ss, p ss → q ss) :
    ∀ {s : Selection}, s.EachSet p → s.EachSet q
  | .field _ _, h => Shape.EachSet.imp hpq h
  | .fragment _ _, h => SelectionsEachSet.imp hpq h

/-- What follows for each selection set follows for those of a shape. -/
theorem Shape.EachSet.imp {p q : List Selection → Prop} (hpq : ∀ ss, p ss → q ss) :
    ∀ {shape : Shape}, shape.EachSet p → shape.EachSet q
  | .leaf, _ => trivial
  | .object _, h => ⟨hpq _ h.1, SelectionsEachSet.imp hpq h.2⟩
  | .list item, h => @Shape.EachSet.imp p q hpq item h

theorem SelectionsEachSet.imp {p q : List Selection → Prop} (hpq : ∀ ss, p ss → q ss) :
    ∀ {ss : List Selection}, SelectionsEachSet p ss → SelectionsEachSet q ss
  | [], _ => trivial
  | _ :: _, h => ⟨Selection.EachSet.imp hpq h.1, SelectionsEachSet.imp hpq h.2⟩

end

mutual

theorem Selection.EachSet.of_applying {p : List Selection → Prop} : ∀ {s : Selection},
    s.EachSet p → ∀ {typename f}, f ∈ s.applying typename → f.2.EachSet p
  | .field _ _, h, typename, f, hf => by
    rw [Selection.applying, List.mem_singleton] at hf
    subst hf
    exact h
  | .fragment _ _, h, typename, f, hf => by
    rw [Selection.applying] at hf
    split at hf
    · exact SelectionsEachSet.of_applying h hf
    · cases hf

/-- What holds of every selection set holds of those of the fields that apply. -/
theorem SelectionsEachSet.of_applying {p : List Selection → Prop} : ∀ {ss : List Selection},
    SelectionsEachSet p ss → ∀ {typename f}, f ∈ selectionsApplying typename ss → f.2.EachSet p
  | [], _, typename, f, hf => by
    rw [selectionsApplying] at hf
    cases hf
  | s :: ss, h, typename, f, hf => by
    rw [selectionsApplying_cons, List.mem_append] at hf
    rcases hf with hf | hf
    · exact Selection.EachSet.of_applying h.1 hf
    · exact SelectionsEachSet.of_applying h.2 hf

end

mutual

/-- The fields that a selection asks for, at any depth. -/
def Selection.allFields : Selection → List Field
  | .field field shape => field :: shape.allFields
  | .fragment _ selections => selectionsAllFields selections

/-- The fields that are asked for inside of a value of a shape, at any depth. -/
def Shape.allFields : Shape → List Field
  | .leaf => []
  | .object selections => selectionsAllFields selections
  | .list item => item.allFields

/-- The fields that selections ask for, at any depth. -/
def selectionsAllFields : List Selection → List Field
  | [] => []
  | s :: ss => s.allFields ++ selectionsAllFields ss

end

mutual

theorem Selection.allFields_of_applying : ∀ {s : Selection} {typename f},
    f ∈ s.applying typename → f.1 ∈ s.allFields ∧ f.2.allFields ⊆ s.allFields
  | .field _ _, typename, f, hf => by
    rw [Selection.applying, List.mem_singleton] at hf
    subst hf
    exact ⟨List.mem_cons_self, List.subset_cons_self _ _⟩
  | .fragment _ _, typename, f, hf => by
    rw [Selection.applying] at hf
    split at hf
    · exact allFields_of_applying hf
    · cases hf

/-- A field that applies is asked for, and so are those inside of it. -/
theorem allFields_of_applying : ∀ {ss : List Selection} {typename f},
    f ∈ selectionsApplying typename ss →
      f.1 ∈ selectionsAllFields ss ∧ f.2.allFields ⊆ selectionsAllFields ss
  | [], typename, f, hf => by
    rw [selectionsApplying] at hf
    cases hf
  | s :: ss, typename, f, hf => by
    rw [selectionsApplying_cons, List.mem_append] at hf
    rcases hf with hf | hf
    · obtain ⟨hfield, hinside⟩ := Selection.allFields_of_applying hf
      exact ⟨List.mem_append_left _ hfield, List.subset_append_of_subset_left _ hinside⟩
    · obtain ⟨hfield, hinside⟩ := allFields_of_applying hf
      exact ⟨List.mem_append_right _ hfield, List.subset_append_of_subset_right _ hinside⟩

end

end GraphClient
