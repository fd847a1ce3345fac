import GraphClient.Proofs.Normalization.Visits
import GraphClient.Proofs.Record.Paths

/-!
# The paths of objects

An object of a response stands at the end of steps from the object that holds it: the field, under
the name by which it is stored, and the indices of the items if there are lists. `LeadsBy` and
`ReachesBy` are `Leads` and `Reaches` with these steps.

An object without an identity is stored under the key to which the steps lead from the key of the
object that holds it. If the resolver identifies no object at all, the key of every object is walked
to from the root, and no two objects are stored under one key (`ReachesBy.eq_of_key_eq`).
-/

namespace GraphClient.Normalization

variable {c : Context}

/-- The objects that a value of a shape holds, each with the indices of the items it stands in. -/
inductive StandsAt : Shape → Json → List Nat → List Selection → Json.Object → Prop
  | object {selections members} :
      StandsAt (.object selections) (.object members) [] selections members
  | item {shape items index x indices selections members} :
      items[index]? = some x → StandsAt shape x indices selections members →
      StandsAt (.list shape) (.array items) (index :: indices) selections members

theorem meets_iff {field : Field} {shape : Shape} {path : RecordKey} {value : Json} {v : Visit} :
    Meets c field shape path value v ↔
      ∃ indices, StandsAt shape value indices v.selections v.object ∧
        v.key = (c.resolver.ofObject field v.object).getD (path.walk (indices.map .item)) := by
  constructor
  · intro h
    induction h with
    | object => exact ⟨[], .object, rfl⟩
    | @item _ _ _ index _ _ hx _ ih =>
      obtain ⟨indices, hstands, hkey⟩ := ih
      exact ⟨index :: indices, .item hx hstands, hkey⟩
  · rintro ⟨indices, hstands, hkey⟩
    obtain ⟨key, selections, object⟩ := v
    dsimp only at hstands hkey
    induction hstands generalizing path with
    | object => exact hkey ▸ .object
    | item hx _ ih => exact .item hx (ih hkey)

/-- A field that applies to the one object holds the other at the end of these steps. -/
def LeadsBy (c : Context) (v : Visit) (steps : List Step) (w : Visit) : Prop :=
  ∃ f ∈ v.fields, ∃ value indices, Assoc.get? v.object f.1.responseName = some value ∧
    StandsAt f.2 value indices w.selections w.object ∧
    steps = .field (f.1.cacheKey c.vars) :: indices.map .item ∧
    w.key = (c.resolver.ofObject f.1 w.object).getD (v.key.walk steps)

theorem leads_iff {v w : Visit} : Leads c v w ↔ ∃ steps, LeadsBy c v steps w := by
  constructor
  · rintro ⟨f, hf, value, hvalue, hmeets⟩
    obtain ⟨indices, hstands, hkey⟩ := meets_iff.mp hmeets
    exact ⟨_, f, hf, value, indices, hvalue, hstands, rfl, hkey⟩
  · rintro ⟨-, f, hf, value, indices, hvalue, hstands, rfl, hkey⟩
    exact ⟨f, hf, value, hvalue, meets_iff.mpr ⟨indices, hstands, hkey⟩⟩

/-- These steps lead from one object to another, over the objects on the way. -/
inductive ReachesBy (c : Context) : Visit → List Step → Visit → Prop
  | refl (v : Visit) : ReachesBy c v [] v
  | tail {u v w : Visit} {steps more : List Step} :
      ReachesBy c u steps v → LeadsBy c v more w → ReachesBy c u (steps ++ more) w

theorem reaches_iff {v w : Visit} : Reaches c v w ↔ ∃ steps, ReachesBy c v steps w := by
  constructor
  · intro h
    induction h with
    | refl => exact ⟨[], .refl v⟩
    | tail _ hlead ih =>
      obtain ⟨steps, hsteps⟩ := ih
      obtain ⟨more, hmore⟩ := leads_iff.mp hlead
      exact ⟨steps ++ more, hsteps.tail hmore⟩
  · rintro ⟨steps, h⟩
    induction h with
    | refl => exact .refl
    | tail _ hlead ih => exact ih.tail (leads_iff.mpr ⟨_, hlead⟩)

theorem StandsAt.isNamed {shape : Shape} {value : Json} {indices : List Nat}
    {selections : List Selection} {members : Json.Object}
    (h : StandsAt shape value indices selections members) (hshape : shape.isNamed = true) :
    selectionsNamed selections = true := by
  induction h with
  | object => exact hshape
  | item _ _ ih => exact ih hshape

/-- If the fields have names, so have those of the objects that they hold. -/
theorem LeadsBy.isNamed {v w : Visit} {steps : List Step} (h : LeadsBy c v steps w)
    (hv : selectionsNamed v.selections = true) :
    selectionsNamed w.selections = true ∧ ∀ s ∈ steps, s.IsStored := by
  obtain ⟨f, hf, value, indices, -, hstands, rfl, -⟩ := h
  obtain ⟨hname, hshape⟩ := isNamed_of_applying hv hf
  refine ⟨hstands.isNamed hshape, List.forall_mem_cons.mpr ⟨⟨f.1, c.vars, hname, rfl⟩, ?_⟩⟩
  intro s hs
  obtain ⟨index, -, rfl⟩ := List.mem_map.mp hs
  trivial

theorem ReachesBy.isNamed {v w : Visit} {steps : List Step} (h : ReachesBy c v steps w)
    (hv : selectionsNamed v.selections = true) :
    selectionsNamed w.selections = true ∧ ∀ s ∈ steps, s.IsStored := by
  induction h with
  | refl => exact ⟨hv, nofun⟩
  | tail _ hlead ih =>
    obtain ⟨hselections, hsteps⟩ := ih
    obtain ⟨hnext, hmore⟩ := hlead.isNamed hselections
    refine ⟨hnext, fun s hs => ?_⟩
    rcases List.mem_append.mp hs with hs | hs
    · exact hsteps s hs
    · exact hmore s hs

theorem Reaches.isNamed {v w : Visit} (h : Reaches c v w)
    (hv : selectionsNamed v.selections = true) : selectionsNamed w.selections = true := by
  obtain ⟨steps, hsteps⟩ := reaches_iff.mp h
  exact (hsteps.isNamed hv).1

/-- The key of an object is walked to, if none on the way is identified. -/
theorem ReachesBy.key_eq (hc : ∀ field object, c.resolver.ofObject field object = none)
    {v w : Visit} {steps : List Step} (h : ReachesBy c v steps w) : w.key = v.key.walk steps := by
  induction h with
  | refl => rfl
  | tail _ hlead ih =>
    obtain ⟨f, -, -, -, -, -, -, hkey⟩ := hlead
    rw [hc, Option.getD_none, ih] at hkey
    rw [hkey, RecordKey.walk_append]

/-- If no object is identified, objects of one key were reached by the same steps. -/
theorem ReachesBy.eq_of_key_eq (hc : ∀ field object, c.resolver.ofObject field object = none)
    {root v w : Visit} (hroot : selectionsNamed root.selections = true) {p q : List Step}
    (hv : ReachesBy c root p v) (hw : ReachesBy c root q w) (h : v.key = w.key) : p = q := by
  rw [hv.key_eq hc, hw.key_eq hc] at h
  exact RecordKey.walk_inj (hv.isNamed hroot).2 (hw.isNamed hroot).2 h

end GraphClient.Normalization
