import GraphClient.Proofs.Reading.WellFormed
import GraphClient.Proofs.Record.KeyOrder

/-!
# Merging what was read

Reading merges the entries of an object into one member for each name. `Json.merge` is what that does
to two values under one name: objects are merged member by member, of other values the later stays.
`Json.deepMerge` is the merge that a reader of overlapping selections would expect, in which lists are
merged as well, item by item.

Two values are `Alike` when they are both objects, and their common members are alike, or both no
objects. For such values merging is associative (`merge_assoc`), so it makes no difference whether
entries are merged into an object one after the other or are first merged among themselves. Where
values that are no objects have to be equal, the merge is the deep merge, and contains both values.
-/

namespace GraphClient

namespace Json

/-- Whether the value is an object. -/
def isObject : Json → Bool
  | object _ => true
  | _ => false

/-- An object is merged into an object; any other value is replaced. -/
def merge : Json → Json → Json
  | object xs, object ys => object (mergeMembers xs ys)
  | _, y => y

mutual

/-- Objects are merged member by member and lists item by item, at every depth; otherwise the second
value stays. -/
def deepMerge : Json → Json → Json
  | object xs, object ys =>
    object (deepMergeMembers xs ys ++ ys.filter fun m => !Assoc.contains xs m.1)
  | array xs, array ys => array (deepMergeItems xs ys)
  | _, y => y

/-- The members of the first object, each merged with the member of its name. -/
def deepMergeMembers : List (String × Json) → Object → Object
  | [], _ => []
  | (name, x) :: xs, ys =>
    (name, match Assoc.get? ys name with
      | some y => deepMerge x y
      | none => x) :: deepMergeMembers xs ys

/-- Items at one place are merged; the longer list keeps its other items. -/
def deepMergeItems : List Json → List Json → List Json
  | [], ys => ys
  | xs, [] => xs
  | x :: xs, y :: ys => deepMerge x y :: deepMergeItems xs ys

end

/-- Both values are objects with common members that are alike, or none is an object and `P` relates
them. -/
inductive Alike (P : Json → Json → Prop) : Json → Json → Prop
  | object {xs ys : Object} (members : ∀ name x y, Assoc.get? xs name = some x →
      Assoc.get? ys name = some y → Alike P x y) : Alike P (object xs) (object ys)
  | other {x y : Json} (hx : x.isObject = false) (hy : y.isObject = false) (related : P x y) :
      Alike P x y

/-- The values are of one kind, and so are the members that both have. -/
abbrev SameKind : Json → Json → Prop := Alike fun _ _ => True

/-- The values are equal but for members that only one of two objects has. -/
abbrev Agree : Json → Json → Prop := Alike Eq

/-- The second value is the first one with members added to its objects. -/
inductive Within : Json → Json → Prop
  | refl (x : Json) : Within x x
  | object {xs ys : Object}
      (found : ∀ name x, Assoc.get? xs name = some x → (Assoc.get? ys name).isSome = true)
      (members : ∀ name x y, Assoc.get? xs name = some x → Assoc.get? ys name = some y →
        Within x y) : Within (object xs) (object ys)

section Members

variable {members incoming : Object} {name other : String} {value : Json}

theorem merge_of_not_object {x y : Json} (hy : y.isObject = false) : merge x y = y := by
  cases y <;> cases x <;> first | rfl | cases hy

theorem mergeMember_eq_insert (members : Object) (name : String) (value : Json) :
    mergeMember members name value =
      Assoc.insert members name ((Assoc.get? members name).elim value fun x => merge x value) := by
  cases value with
  | object incoming =>
    rw [mergeMember]
    cases Assoc.get? members name with
    | none => rfl
    | some x => cases x <;> rfl
  | _ =>
    rw [mergeMember]
    · cases Assoc.get? members name with
      | none => rfl
      | some x => rw [Option.elim_some, merge_of_not_object rfl]
    · intro incoming h
      cases h

theorem get?_mergeMember_self :
    Assoc.get? (mergeMember members name value) name =
      Option.merge merge (Assoc.get? members name) (some value) := by
  rw [mergeMember_eq_insert, Assoc.get?_insert_self]
  cases Assoc.get? members name <;> rfl

theorem get?_mergeMember_of_ne (h : other ≠ name) :
    Assoc.get? (mergeMember members name value) other = Assoc.get? members other := by
  rw [mergeMember_eq_insert, Assoc.get?_insert_of_ne _ _ h]

theorem mergeMembers_cons :
    mergeMembers members ((name, value) :: incoming) =
      mergeMembers (mergeMember members name value) incoming := rfl

theorem mergeMembers_append (members : Object) (entries more : List (String × Json)) :
    mergeMembers members (entries ++ more) = mergeMembers (mergeMembers members entries) more := by
  induction entries generalizing members with
  | nil => rfl
  | cons entry entries ih => exact ih (mergeMember members entry.1 entry.2)

theorem keys_mergeMembers (members : Object) (entries : List (String × Json)) :
    Assoc.keys (mergeMembers members entries) =
      Assoc.addKeys (Assoc.keys members) (Assoc.keys entries) := by
  induction entries generalizing members with
  | nil => rfl
  | cons entry entries ih =>
    obtain ⟨name, value⟩ := entry
    rw [mergeMembers_cons, ih, mergeMember_eq_insert, Assoc.keys_insert]
    rfl

/-- Each member of an object that comes in is merged into the member of its name. -/
theorem get?_mergeMembers (h : (Assoc.keys incoming).Nodup) :
    Assoc.get? (mergeMembers members incoming) name =
      Option.merge merge (Assoc.get? members name) (Assoc.get? incoming name) := by
  induction incoming generalizing members with
  | nil => cases h : Assoc.get? members name <;> simp [mergeMembers, h]
  | cons entry incoming ih =>
    obtain ⟨first, value⟩ := entry
    obtain ⟨hfirst, hincoming⟩ : first ∉ Assoc.keys incoming ∧ (Assoc.keys incoming).Nodup :=
      List.nodup_cons.mp h
    rw [mergeMembers_cons, ih hincoming, Assoc.get?_cons]
    by_cases hname : first = name
    · subst hname
      rw [Assoc.mem_keys_iff, Option.not_isSome_iff_eq_none] at hfirst
      rw [hfirst, if_pos rfl, get?_mergeMember_self]
      cases Assoc.get? members first <;> rfl
    · rw [if_neg hname, get?_mergeMember_of_ne (Ne.symm hname)]

end Members

namespace Alike

variable {P : Json → Json → Prop}

theorem symm (hP : ∀ x y, P x y → P y x) {x y : Json} (h : Alike P x y) : Alike P y x := by
  induction h with
  | object _ ih => exact .object fun name y x hy hx => ih name x y hx hy
  | other hx hy related => exact .other hy hx (hP _ _ related)

mutual

theorem refl (hP : ∀ x, P x x) : ∀ x : Json, Alike P x x
  | .object members => .object fun name x _ hx hy =>
    (Option.some.inj (hx.symm.trans hy)) ▸
      refl_of_mem hP members (name, x) (Assoc.mem_of_get?_eq_some hx)
  | .array _ => .other rfl rfl (hP _)
  | .string _ => .other rfl rfl (hP _)
  | .number _ => .other rfl rfl (hP _)
  | .bool _ => .other rfl rfl (hP _)
  | .null => .other rfl rfl (hP _)

theorem refl_of_mem (hP : ∀ x, P x x) : ∀ members : List (String × Json), ∀ m ∈ members,
    Alike P m.2 m.2
  | [], _, hm => nomatch hm
  | (_, x) :: rest, m, hm => by
    rcases List.mem_cons.mp hm with rfl | hm
    · exact refl hP x
    · exact refl_of_mem hP rest m hm

end

/-- What is alike with both values is alike with the merged one. -/
theorem merge_left {x y z : Json} (hx : Alike P x z) (hy : Alike P y z) (hwell : y.WellFormed) :
    Alike P (Json.merge x y) z := by
  induction hx generalizing y with
  | other hnot hz related =>
    cases hy with
    | object => cases hz
    | other hnot' _ related' =>
      rw [merge_of_not_object hnot']
      exact .other hnot' hz related'
  | @object xs zs hmembers ih =>
    cases hy with
    | other _ hz => cases hz
    | @object ys _ hmembers' =>
      refine .object fun name u z hu hz => ?_
      rw [get?_mergeMembers hwell.1, Option.merge_eq_some_iff] at hu
      rcases hu with ⟨hx, -⟩ | ⟨-, hy⟩ | ⟨x, y, hx, hy, rfl⟩
      · exact hmembers name u z hx hz
      · exact hmembers' name u z hy hz
      · exact ih name x z hx hz (hmembers' name y z hy hz) (hwell.of_get? hy)

/-- A member that entries were merged into is alike with what all of them are alike with. -/
theorem of_get?_mergeMembers {members : Object} {entries : List (String × Json)} {name : String}
    {x z : Json} (hwell : WellFormedMembers entries)
    (hmembers : ∀ w, Assoc.get? members name = some w → Alike P w z)
    (hentries : ∀ v, (name, v) ∈ entries → Alike P v z)
    (h : Assoc.get? (mergeMembers members entries) name = some x) : Alike P x z := by
  induction entries generalizing members with
  | nil => exact hmembers x h
  | cons entry entries ih =>
    obtain ⟨first, v⟩ := entry
    refine ih hwell.2 (fun w hw => ?_) (fun v hv => hentries v (List.mem_cons_of_mem _ hv)) h
    by_cases hname : name = first
    · subst hname
      have hv := hentries v List.mem_cons_self
      rw [get?_mergeMember_self, Option.merge_eq_some_iff] at hw
      rcases hw with ⟨-, hnone⟩ | ⟨-, hw⟩ | ⟨u, v, hold, hw, rfl⟩
      · cases hnone
      · exact Option.some.inj hw ▸ hv
      · obtain rfl := Option.some.inj hw
        exact (hmembers u hold).merge_left hv hwell.1
    · rw [get?_mergeMember_of_ne hname] at hw
      exact hmembers w hw

/-- Objects are alike when all entries of which they were made are. -/
theorem of_entries (hP : ∀ x y, P x y → P y x) {entries others : List (String × Json)}
    (hentries : WellFormedMembers entries) (hothers : WellFormedMembers others)
    (h : ∀ name v w, (name, v) ∈ entries → (name, w) ∈ others → Alike P v w) :
    Alike P (.object (mergeMembers [] entries)) (.object (mergeMembers [] others)) := by
  refine .object fun name x y hx hy => ?_
  have hnone : ∀ w z, Assoc.get? ([] : Object) name = some w → Alike P w z :=
    fun _ _ h => nomatch h
  refine (of_get?_mergeMembers hothers (fun w => hnone w x) (fun w hw => ?_) hy).symm hP
  exact (of_get?_mergeMembers hentries (fun v => hnone v w) (fun v hv => h name v w hv hw) hx).symm
    hP

end Alike

/-- Merging is associative when the later two values are of one kind. -/
theorem merge_assoc {x y z : Json} (h : SameKind y z) (hx : x.WellFormed) (hy : y.WellFormed)
    (hz : z.WellFormed) : merge (merge x y) z = merge x (merge y z) := by
  induction h generalizing x with
  | other _ hnot =>
    rw [merge_of_not_object hnot, merge_of_not_object hnot, merge_of_not_object hnot]
  | @object ys zs _ ih =>
    cases x with
    | object xs =>
      have hxy : (object (mergeMembers xs ys)).WellFormed := wellFormed_mergeMembers hx hy.2
      have hyz : (object (mergeMembers ys zs)).WellFormed := wellFormed_mergeMembers hy hz.2
      refine congrArg object (Assoc.ext_of_keys ?_ (wellFormed_mergeMembers hxy hz.2).1
        fun name => ?_)
      · rw [keys_mergeMembers, keys_mergeMembers, keys_mergeMembers, keys_mergeMembers,
          Assoc.addKeys_addKeys]
      · rw [get?_mergeMembers hz.1, get?_mergeMembers hy.1, get?_mergeMembers hyz.1,
          get?_mergeMembers hz.1]
        cases hxs : Assoc.get? xs name with
        | none => cases Assoc.get? ys name <;> cases Assoc.get? zs name <;> rfl
        | some x =>
          cases hys : Assoc.get? ys name with
          | none => cases Assoc.get? zs name <;> rfl
          | some y =>
            cases hzs : Assoc.get? zs name with
            | none => rfl
            | some z =>
              exact congrArg some (ih name y z hys hzs (hx.of_get? hxs) (hy.of_get? hys)
                (hz.of_get? hzs))
    | _ => rfl

/-- An entry can be merged into an object before or after the object is merged into another. -/
theorem mergeMembers_mergeMember {members others : Object} {name : String} {value : Json}
    (hmembers : (object members).WellFormed) (hothers : (object others).WellFormed)
    (hvalue : value.WellFormed)
    (hkind : ∀ w, Assoc.get? others name = some w → SameKind w value) :
    mergeMembers members (mergeMember others name value) =
      mergeMember (mergeMembers members others) name value := by
  have hentry : (object [(name, value)]).WellFormed :=
    ⟨List.pairwise_singleton _ name, hvalue, trivial⟩
  have hkinds : SameKind (object others) (object [(name, value)]) := by
    refine .object fun other w v hw hv => ?_
    rw [Assoc.get?_cons] at hv
    split at hv
    · next heq =>
      subst heq
      exact Option.some.inj hv ▸ hkind w hw
    · cases hv
  exact (object.inj (merge_assoc hkinds hmembers hothers hentry)).symm

/-- Entries of one kind for each name can be merged among themselves first. -/
theorem mergeMembers_mergeMembers {members others : Object} {entries : List (String × Json)}
    (hmembers : (object members).WellFormed) (hothers : (object others).WellFormed)
    (hentries : WellFormedMembers entries)
    (hfirst : ∀ name v w, (name, v) ∈ entries → Assoc.get? others name = some w → SameKind w v)
    (hkinds : entries.Pairwise fun v w => v.1 = w.1 → SameKind v.2 w.2) :
    mergeMembers members (mergeMembers others entries) =
      mergeMembers (mergeMembers members others) entries := by
  induction entries generalizing others with
  | nil => rfl
  | cons entry entries ih =>
    obtain ⟨name, value⟩ := entry
    obtain ⟨hvalue, hrest⟩ := hentries
    obtain ⟨hlater, hkinds⟩ := List.pairwise_cons.mp hkinds
    rw [mergeMembers_cons, mergeMembers_cons,
      ← mergeMembers_mergeMember hmembers hothers hvalue
        (fun w hw => hfirst name value w List.mem_cons_self hw)]
    refine ih (wellFormed_mergeMember hothers name hvalue) hrest (fun other v w hv hw => ?_) hkinds
    by_cases hname : other = name
    · subst hname
      -- what the member has become is of the kind of the later entry, as both its parts are
      have hsame := hlater (other, v) hv rfl
      rw [get?_mergeMember_self, Option.merge_eq_some_iff] at hw
      rcases hw with ⟨-, hnone⟩ | ⟨-, hw⟩ | ⟨u, x, hold, hw, rfl⟩
      · cases hnone
      · exact Option.some.inj hw ▸ hsame
      · obtain rfl := Option.some.inj hw
        exact (hfirst other v u (List.mem_cons_of_mem _ hv) hold).merge_left hsame hvalue
    · rw [get?_mergeMember_of_ne hname] at hw
      exact hfirst other v w (List.mem_cons_of_mem _ hv) hw

/-- Two lists of entries are merged as their objects are, if those of the second that have one name
are of one kind. -/
theorem mergeMembers_nil_append {entries others : List (String × Json)}
    (hentries : WellFormedMembers entries) (hothers : WellFormedMembers others)
    (hkinds : others.Pairwise fun v w => v.1 = w.1 → SameKind v.2 w.2) :
    mergeMembers [] (entries ++ others) =
      mergeMembers (mergeMembers [] entries) (mergeMembers [] others) := by
  have hempty : (object []).WellFormed := ⟨List.nodup_nil, trivial⟩
  rw [mergeMembers_append]
  exact (mergeMembers_mergeMembers (wellFormed_mergeMembers hempty hentries) hempty hothers
    (fun _ _ _ _ h => nomatch h) hkinds).symm

section DeepMerge

theorem keys_deepMergeMembers (xs ys : Object) :
    Assoc.keys (deepMergeMembers xs ys) = Assoc.keys xs := by
  induction xs with
  | nil => rfl
  | cons m xs ih => exact congrArg (m.1 :: ·) ih

theorem get?_deepMergeMembers (xs ys : Object) (name : String) :
    Assoc.get? (deepMergeMembers xs ys) name =
      (Assoc.get? xs name).map fun x => (Assoc.get? ys name).elim x (deepMerge x) := by
  induction xs with
  | nil => rfl
  | cons m xs ih =>
    obtain ⟨first, x⟩ := m
    rw [deepMergeMembers, Assoc.get?_cons, Assoc.get?_cons, ih]
    split
    · next heq =>
      subst heq
      cases Assoc.get? ys first <;> rfl
    · rfl

mutual

/-- A well-formed value is merged with itself without a change. -/
theorem deepMerge_self : ∀ x : Json, x.WellFormed → deepMerge x x = x
  | object members, h => by
    have hmembers := deepMergeMembers_self members members h.2
      fun m hm => Assoc.get?_eq_some_of_mem h.1 hm
    have hnew : members.filter (fun m => !Assoc.contains members m.1) = [] := by
      refine List.filter_eq_nil_iff.mpr fun m hm => ?_
      have hfound := Assoc.mem_keys_iff.mp (List.mem_map_of_mem hm)
      rw [Assoc.contains, hfound]
      exact Bool.false_ne_true
    rw [deepMerge, hmembers, hnew, List.append_nil]
  | array items, h => by rw [deepMerge, deepMergeItems_self items h]
  | string _, _ => rfl
  | number _, _ => rfl
  | bool _, _ => rfl
  | null, _ => rfl

theorem deepMergeMembers_self : ∀ xs ys : List (String × Json), WellFormedMembers xs →
    (∀ m ∈ xs, Assoc.get? ys m.1 = some m.2) → deepMergeMembers xs ys = xs
  | [], _, _, _ => rfl
  | (name, x) :: xs, ys, h, hfound => by
    have hx : Assoc.get? ys name = some x := hfound (name, x) List.mem_cons_self
    rw [deepMergeMembers, hx,
      deepMergeMembers_self xs ys h.2 fun m hm => hfound m (List.mem_cons_of_mem _ hm)]
    exact congrArg (fun x => (name, x) :: xs) (deepMerge_self x h.1)

theorem deepMergeItems_self : ∀ xs : List Json, WellFormedItems xs → deepMergeItems xs xs = xs
  | [], _ => rfl
  | x :: xs, h => by rw [deepMergeItems, deepMerge_self x h.1, deepMergeItems_self xs h.2]

end

/-- Values that agree are merged deeply. -/
theorem deepMerge_eq_merge {x y : Json} (h : Agree x y) (hx : x.WellFormed) (hy : y.WellFormed) :
    deepMerge x y = merge x y := by
  induction h with
  | other hnot _ related =>
    subst related
    rw [merge_of_not_object hnot, deepMerge_self _ hx]
  | @object xs ys _ ih =>
    rw [deepMerge, merge]
    refine congrArg object (Eq.symm (Assoc.ext_of_keys ?_ (wellFormed_mergeMembers hx hy.2).1
      fun name => ?_))
    · have hnew : (Assoc.keys ys).filter (fun name => name ∉ Assoc.keys xs) =
          Assoc.keys (ys.filter fun m => !Assoc.contains xs m.1) := by
        rw [Assoc.keys, Assoc.keys, List.filter_map]
        refine congrArg _ (List.filter_congr fun m _ => ?_)
        have hcontains : Assoc.contains xs m.1 = decide (m.1 ∈ Assoc.keys xs) := by
          rw [Bool.eq_iff_iff, decide_eq_true_iff, Assoc.mem_keys_iff, Assoc.contains]
        rw [hcontains]
        exact decide_not
      rw [keys_mergeMembers, Assoc.addKeys_of_nodup _ hy.1, hnew,
        ← keys_deepMergeMembers xs ys]
      exact List.map_append.symm
    · rw [get?_mergeMembers hy.1, Assoc.get?_append, get?_deepMergeMembers,
        Assoc.get?_filter ys fun name => !Assoc.contains xs name, Assoc.contains]
      cases hxs : Assoc.get? xs name with
      | none => cases Assoc.get? ys name <;> rfl
      | some x =>
        cases hys : Assoc.get? ys name with
        | none => rfl
        | some y =>
          exact congrArg some (ih name x y hxs hys (hx.of_get? hxs) (hy.of_get? hys)).symm

end DeepMerge

/-- The merge of values that agree contains the first. -/
theorem within_merge_left {x y : Json} (h : Agree x y) (hy : y.WellFormed) :
    Within x (merge x y) := by
  induction h with
  | other _ hnot related =>
    subst related
    rw [merge_of_not_object hnot]
    exact .refl _
  | @object xs ys _ ih =>
    refine .object (fun name x hx => ?_) fun name x t hx ht => ?_
    · rw [get?_mergeMembers hy.1, hx]
      cases Assoc.get? ys name <;> rfl
    · rw [get?_mergeMembers hy.1, Option.merge_eq_some_iff] at ht
      rcases ht with ⟨ht, -⟩ | ⟨hnone, -⟩ | ⟨u, y, hu, hys, rfl⟩
      · exact Option.some.inj (hx.symm.trans ht) ▸ .refl x
      · cases hnone.symm.trans hx
      · obtain rfl : x = u := Option.some.inj (hx.symm.trans hu)
        exact ih name x y hx hys (hy.of_get? hys)

/-- The merge of values that agree contains the second. -/
theorem within_merge_right {x y : Json} (h : Agree x y) (hy : y.WellFormed) :
    Within y (merge x y) := by
  induction h with
  | other _ hnot related =>
    rw [merge_of_not_object hnot]
    exact .refl _
  | @object xs ys _ ih =>
    refine .object (fun name y hys => ?_) fun name y t hys ht => ?_
    · rw [get?_mergeMembers hy.1, hys]
      cases Assoc.get? xs name <;> rfl
    · rw [get?_mergeMembers hy.1, Option.merge_eq_some_iff] at ht
      rcases ht with ⟨-, hnone⟩ | ⟨-, ht⟩ | ⟨x, u, hxs, hu, rfl⟩
      · cases hnone.symm.trans hys
      · exact Option.some.inj (hys.symm.trans ht) ▸ .refl y
      · obtain rfl : y = u := Option.some.inj (hys.symm.trans hu)
        exact ih name x y hxs hys (hy.of_get? hys)

end Json

end GraphClient
