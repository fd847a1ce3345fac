import GraphClient.Proofs.Selection.Applying

/-!
# Selections that overlap

Two lists of selections overlap where they ask for fields of one object under one response name. Such
fields have selections of their own that overlap in turn. `EachOverlap R` says that `R` relates any
two fields at which the lists overlap, at every depth.

The selections of a field are those of the objects that it asks for, however deep in lists they are.
-/

namespace GraphClient

/-- What is asked of the objects of a shape, if it is a shape of objects or of lists of objects. -/
def Shape.selections? : Shape → Option (List Selection)
  | .leaf => none
  | .object selections => some selections
  | .list item => item.selections?

/-- Whether the shape is that of a list in which objects are asked for. -/
def Shape.listsObjects : Shape → Bool
  | .list item => item.selections?.isSome
  | _ => false

/-- The same field is asked for, with the same arguments. -/
def Field.Same (f g : Field) : Prop := f.name = g.name ∧ f.arguments = g.arguments

theorem Field.Same.cacheKey_eq {f g : Field} (h : f.Same g) (vars : Json.Object) :
    f.cacheKey vars = g.cacheKey vars := by
  rw [cacheKey, cacheKey, h.1, h.2]

theorem selectionsApplying_append (typename : Option String) (ss others : List Selection) :
    selectionsApplying typename (ss ++ others) =
      selectionsApplying typename ss ++ selectionsApplying typename others := by
  induction ss with
  | nil => rw [selectionsApplying, List.nil_append, List.nil_append]
  | cons s ss ih =>
    rw [List.cons_append, selectionsApplying_cons, selectionsApplying_cons, ih, List.append_assoc]

/-- Any two fields that the lists ask for under one response name of one object are related, as are
those that their selections ask for, and so on. -/
inductive EachOverlap (R : Field × Shape → Field × Shape → Prop) :
    List Selection → List Selection → Prop
  | intro {ss others : List Selection}
      (fields : ∀ {typename f g}, f ∈ selectionsApplying typename ss →
        g ∈ selectionsApplying typename others → f.1.responseName = g.1.responseName → R f g)
      (inside : ∀ {typename f g inner innerOthers}, f ∈ selectionsApplying typename ss →
        g ∈ selectionsApplying typename others → f.1.responseName = g.1.responseName →
        f.2.selections? = some inner → g.2.selections? = some innerOthers →
        EachOverlap R inner innerOthers) :
      EachOverlap R ss others

namespace EachOverlap

variable {R Q : Field × Shape → Field × Shape → Prop} {ss others : List Selection}

theorem mono (h : EachOverlap R ss others) (hR : ∀ {f g}, R f g → Q f g) :
    EachOverlap Q ss others := by
  induction h with
  | intro fields _ ih =>
    exact .intro (fun hf hg hname => hR (fields hf hg hname)) fun hf hg hname => ih hf hg hname

theorem and (h : EachOverlap R ss others) (h' : EachOverlap Q ss others) :
    EachOverlap (fun f g => R f g ∧ Q f g) ss others := by
  induction h with
  | intro fields _ ih =>
    obtain ⟨fields', inside'⟩ := h'
    exact .intro (fun hf hg hname => ⟨fields hf hg hname, fields' hf hg hname⟩)
      fun hf hg hname hinner hothers =>
        ih hf hg hname hinner hothers (inside' hf hg hname hinner hothers)

/-- Fewer selections overlap in fewer places. -/
theorem of_subset {fewer fewerOthers : List Selection} (h : EachOverlap R ss others)
    (hss : ∀ typename, selectionsApplying typename fewer ⊆ selectionsApplying typename ss)
    (hothers : ∀ typename,
      selectionsApplying typename fewerOthers ⊆ selectionsApplying typename others) :
    EachOverlap R fewer fewerOthers := by
  obtain ⟨fields, inside⟩ := h
  exact .intro (fun hf hg => fields (hss _ hf) (hothers _ hg))
    fun hf hg => inside (hss _ hf) (hothers _ hg)

/-- The overlaps of the parts of a list are overlaps of the list with itself. -/
theorem of_append (h : EachOverlap R (ss ++ others) (ss ++ others)) :
    EachOverlap R ss others ∧ EachOverlap R others others := by
  have hss : ∀ typename,
      selectionsApplying typename ss ⊆ selectionsApplying typename (ss ++ others) := fun typename =>
    selectionsApplying_append typename ss others ▸ List.subset_append_left _ _
  have hothers : ∀ typename,
      selectionsApplying typename others ⊆ selectionsApplying typename (ss ++ others) :=
    fun typename => selectionsApplying_append typename ss others ▸ List.subset_append_right _ _
  exact ⟨h.of_subset hss hothers, h.of_subset hothers hothers⟩

end EachOverlap

/-- What holds of every selection set of a shape holds of that of its objects. -/
theorem Shape.EachSet.of_selections? {p : List Selection → Prop} {shape : Shape}
    (h : shape.EachSet p) {ss : List Selection} (hss : shape.selections? = some ss) :
    p ss ∧ SelectionsEachSet p ss := by
  induction shape using Shape.inductionOn with
  | leaf => cases hss
  | object selections =>
    obtain rfl := Option.some.inj hss
    exact h
  | list item ih => exact ih h hss

/-- Every field is asked for by its own name and without arguments. -/
def Unaliased (ss : List Selection) : Prop :=
  ∀ typename, ∀ f ∈ selectionsApplying typename ss, f.1.responseName = f.1.name ∧ f.1.arguments = []

/-- Without aliases and arguments, one response name always stands for one field. -/
theorem eachOverlap_same_of_unaliased {shape shape' : Shape} (h : shape.EachSet Unaliased)
    (h' : shape'.EachSet Unaliased) {ss others : List Selection}
    (hss : shape.selections? = some ss) (hothers : shape'.selections? = some others) :
    EachOverlap (fun f g => f.1.Same g.1) ss others := by
  induction shape using Shape.inductionOn generalizing shape' ss others with
  | leaf => cases hss
  | list item ih => exact ih h h' hss hothers
  | object selections ih =>
    obtain rfl := Option.some.inj hss
    obtain ⟨hplain, hinner⟩ := h'.of_selections? hothers
    refine .intro (fun {typename f g} hf hg hname => ?_) fun {typename f g _ _} hf hg _ => ?_
    · obtain ⟨hfname, hfargs⟩ := h.1 typename f hf
      obtain ⟨hgname, hgargs⟩ := hplain typename g hg
      exact ⟨hfname.symm.trans (hname.trans hgname), hfargs.trans hgargs.symm⟩
    · exact ih typename f hf (h.2.of_applying hf) (hinner.of_applying hg)

end GraphClient
