import GraphClient.Proofs.Record.Merging
import GraphClient.Storage.Bounded
import Mathlib.Data.List.Nodup

/-!
# Bounded contents refine unbounded ones

Unbounded contents merge into the stored record in place. Bounded contents compute the merged record
and store it only if something has changed, so what they store differs in one point: a record without
fields is kept by the unbounded contents alone.

`BoundedContents.Refines` relates contents that were reached by the same commands. A merge leaves the
same record on both sides and reports the same changes (`Refines.merged_eq`), whether the bounded
contents merge into a record of their own or into nothing where the others hold an empty record. What
can be observed of related contents is `Agrees`.
-/

namespace GraphClient

namespace Record

/-- Whether the record has no field. -/
def isEmpty (r : Record) : Bool := r.fields.isEmpty

theorem isEmpty_setField (r : Record) (name : String) (value : FieldValue) :
    (r.setField name value).isEmpty = false := by
  obtain ⟨key, fields⟩ := r
  cases fields with
  | nil => rfl
  | cons f fs =>
    rw [setField, isEmpty, Assoc.insert]
    split <;> rfl

theorem isEmpty_mergeField (r : Record) (name : String) (value : FieldValue) :
    (r.mergeField name value).isEmpty = false := by
  rw [mergeField]
  split
  · next hheld =>
    obtain ⟨key, fields⟩ := r
    cases fields with
    | nil => cases hheld
    | cons f fs => rfl
  · exact r.isEmpty_setField name value

theorem isEmpty_mergeFields (r : Record) (fields : List (String × FieldValue)) :
    (r.mergeFields fields).1.isEmpty = (r.isEmpty && fields.isEmpty) := by
  induction fields generalizing r with
  | nil => exact (Bool.and_true _).symm
  | cons f fs ih =>
    obtain ⟨name, value⟩ := f
    rw [mergeFields_cons, ih, isEmpty_mergeField]
    exact (Bool.and_false _).symm

/-- A merge that reports nothing has changed nothing. -/
theorem mergeFields_eq_self {r : Record} {fields : List (String × FieldValue)}
    (h : (r.mergeFields fields).2 = ∅) : (r.mergeFields fields).1 = r := by
  induction fields with
  | nil => rfl
  | cons f fs ih =>
    obtain ⟨name, value⟩ := f
    rw [mergeFields_cons] at h ⊢
    by_cases hheld : r.holds name value = true
    · rw [if_pos hheld] at h
      rw [mergeField, if_pos hheld] at h ⊢
      exact ih h
    · rw [if_neg hheld] at h
      have hmem : r.key.fieldKey name ∈ (∅ : KeySet) := h ▸ KeySet.mem_insert.mpr (.inl rfl)
      exact absurd hmem (KeySet.not_mem_empty _)

theorem mergeFields_fst_of_nodup (key : RecordKey) {fields more : Assoc String FieldValue}
    (h : (Assoc.keys (fields ++ more)).Nodup) :
    ((Record.mk key fields).mergeFields more).1 = ⟨key, fields ++ more⟩ := by
  induction more generalizing fields with
  | nil => rw [List.append_nil]; rfl
  | cons f fs ih =>
    obtain ⟨name, value⟩ := f
    have hsplit : fields ++ (name, value) :: fs = fields ++ [(name, value)] ++ fs := by simp
    have hnone : Assoc.get? fields name = none := Assoc.get?_eq_none_of_nodup h
    have hfield : (Record.mk key fields).mergeField name value =
        ⟨key, fields ++ [(name, value)]⟩ := by
      rw [mergeField, holds, field?, hnone, if_neg Bool.false_ne_true, setField,
        Assoc.insert_of_get?_eq_none hnone]
    rw [mergeFields_cons, hfield, hsplit]
    exact ih (hsplit ▸ h)

/-- Merging into a record without fields gives the record that comes in, and reports all of it. -/
theorem mergeWith_of_isEmpty {r other : Record} (h : r.isEmpty = true) (hkey : r.key = other.key)
    (hother : (Assoc.keys other.fields).Nodup) : r.mergeWith other = (other, other.fieldKeys) := by
  obtain ⟨key, fields⟩ := r
  obtain rfl := List.isEmpty_iff.mp h
  refine Prod.ext ?_ (KeySet.ext fun k => ?_)
  · have hnodup : (Assoc.keys ([] ++ other.fields)).Nodup := hother
    rw [mergeWith, mergeFields_fst_of_nodup key hnodup]
    cases other
    cases hkey
    rfl
  · rw [mergeWith, mem_changed_mergeFields _ hother, mem_fieldKeys]
    constructor
    · rintro ⟨name, value, hvalue, -, rfl⟩
      exact ⟨name, Assoc.mem_keys_iff.mpr (by rw [hvalue]; rfl), hkey ▸ rfl⟩
    · rintro ⟨name, hname, rfl⟩
      obtain ⟨value, hvalue⟩ := Option.isSome_iff_exists.mp (Assoc.mem_keys_iff.mp hname)
      exact ⟨name, value, hvalue, rfl, hkey ▸ rfl⟩

theorem fieldKeys_eq_empty_iff {r : Record} : r.fieldKeys = ∅ ↔ r.isEmpty = true := by
  obtain ⟨key, fields⟩ := r
  cases fields with
  | nil => exact iff_of_true rfl rfl
  | cons f fs =>
    refine iff_of_false (fun h => ?_) Bool.false_ne_true
    have hmem : key.fieldKey f.1 ∈ (∅ : KeySet) :=
      h ▸ mem_fieldKeys.mpr ⟨f.1, List.mem_cons_self, rfl⟩
    exact KeySet.not_mem_empty _ hmem

end Record

namespace Storage

/-- A call of a storage. -/
inductive Command where
  | merge (r : Record)
  | mergeAll (records : List Record)
  | load (key : RecordKey)
  | remove (key : RecordKey)
  | clear
  | size

/-- Every record that is to be merged holds each field once. -/
def Command.FieldsOnce : Command → Prop
  | .merge r => (Assoc.keys r.fields).Nodup
  | .mergeAll records => ∀ r ∈ records, (Assoc.keys r.fields).Nodup
  | _ => True

variable {σ : Type} [Storage σ]

/-- The contents after a call. -/
def perform (contents : σ) : Command → σ
  | .merge r => (merge contents r).2
  | .mergeAll records => (mergeAll contents records).2
  | .remove key => (remove contents key).2
  | .clear => clear contents
  | .load _ | .size => contents

/-- The contents after one call and another. -/
def performAll (contents : σ) (commands : List Command) : σ := commands.foldl perform contents

end Storage

namespace BoundedContents

/-- Contents below their bounds hold the records of unbounded contents that have a field. -/
structure Refines (bounded : BoundedContents) (memory : MemoryContents) : Prop where
  keepsRecords : bounded.policy.keepsRecords = true
  nodup : (Assoc.keys bounded.table).Nodup
  nodup_memory : (Assoc.keys memory.table).Nodup
  keyed : memory.table.KeyedByRecord
  get?_eq : ∀ key, Assoc.get? bounded.table key =
    (Assoc.get? memory.table key).filter fun r => !r.isEmpty

variable {bounded : BoundedContents} {memory : MemoryContents}

theorem load?_eq_get? (h : bounded.policy.keepsRecords = true) (key : RecordKey) :
    bounded.load? key = Assoc.get? bounded.table key := by
  rw [load?, if_pos h]

theorem merge_eq (bounded : BoundedContents) (r : Record) :
    bounded.merge r = ((bounded.merged r).2,
      if (bounded.merged r).2.isEmpty then bounded
      else { bounded with
        table := Assoc.insert bounded.table r.key (bounded.merged r).1 }) := by
  rw [merge]
  generalize bounded.merged r = result
  obtain ⟨stored, changed⟩ := result
  cases h : changed.isEmpty <;> simp only [h] <;> rfl

namespace Refines

theorem empty {policy : EvictionPolicy} (h : policy.keepsRecords = true) :
    Refines ⟨policy, []⟩ .empty where
  keepsRecords := h
  nodup := List.nodup_nil
  nodup_memory := List.nodup_nil
  keyed _ _ hr := nomatch hr
  get?_eq _ := rfl

/-- Both contents would hold the same record after a merge, and report the same changes. -/
theorem merged_eq (h : bounded.Refines memory) {r : Record} (hr : (Assoc.keys r.fields).Nodup) :
    ∃ stored, Assoc.get? (memory.merge r).2.table r.key = some stored ∧
      bounded.merged r = (stored, (memory.merge r).1) := by
  refine ⟨_, RecordTable.get?_merge_self memory.table r, ?_⟩
  rw [merged, load?_eq_get? h.keepsRecords, h.get?_eq, MemoryContents.merge, RecordTable.merge]
  cases hfound : Assoc.get? memory.table r.key with
  | none => rfl
  | some existing =>
    rw [Option.filter_some]
    cases hempty : existing.isEmpty with
    | false => rfl
    | true =>
      -- the unbounded contents merge into the record without fields, the bounded ones into nothing
      have hmerged := Record.mergeWith_of_isEmpty hempty (h.keyed _ _ hfound) hr
      simp only [hmerged]
      rfl

/-- A record that is not stored, since nothing has changed, is there already or has no field. -/
theorem get?_of_changed_isEmpty (h : bounded.Refines memory) {r : Record}
    (hunchanged : (bounded.merged r).2 = ∅) :
    Assoc.get? bounded.table r.key = (some (bounded.merged r).1).filter fun r => !r.isEmpty := by
  have hloaded := load?_eq_get? h.keepsRecords r.key
  rw [merged] at hunchanged ⊢
  cases hfound : bounded.load? r.key with
  | none =>
    rw [hfound] at hunchanged hloaded
    rw [← hloaded, Option.filter_some, Record.fieldKeys_eq_empty_iff.mp hunchanged]
    rfl
  | some existing =>
    rw [hfound] at hunchanged hloaded
    have hsame : (existing.mergeWith r).1 = existing := Record.mergeFields_eq_self hunchanged
    have hfield : Option.filter (fun r => !r.isEmpty) (Assoc.get? memory.table r.key) =
        some existing := (h.get?_eq r.key).symm.trans hloaded.symm
    rw [hsame, ← hloaded, ← hfield, Option.filter_filter]
    simp

/-- What is stored since something has changed has a field. -/
theorem isEmpty_merged_of_changed {r : Record} (hchanged : (bounded.merged r).2 ≠ ∅) :
    (bounded.merged r).1.isEmpty = false := by
  rw [merged] at hchanged ⊢
  cases hfound : bounded.load? r.key with
  | none =>
    rw [hfound] at hchanged
    exact Bool.eq_false_iff.mpr fun h => hchanged (Record.fieldKeys_eq_empty_iff.mpr h)
  | some existing =>
    rw [hfound] at hchanged
    refine (Record.isEmpty_mergeFields existing r.fields).trans ?_
    cases hfields : r.fields with
    | nil =>
      have hnone : (existing.mergeFields r.fields).2 = ∅ := by rw [hfields]; rfl
      exact absurd hnone hchanged
    | cons f fs => exact Bool.and_false _

theorem merge (h : bounded.Refines memory) {r : Record} (hr : (Assoc.keys r.fields).Nodup) :
    (bounded.merge r).1 = (memory.merge r).1 ∧
      (bounded.merge r).2.Refines (memory.merge r).2 := by
  obtain ⟨stored, hstored, hmerged⟩ := h.merged_eq hr
  have hchanged : (bounded.merged r).2 = (memory.merge r).1 := by rw [hmerged]
  have hrecord : (bounded.merged r).1 = stored := by rw [hmerged]
  have hother : ∀ key, key ≠ r.key → Assoc.get? (memory.merge r).2.table key =
      Assoc.get? memory.table key := fun key hkey => RecordTable.get?_merge_of_ne _ hkey
  have hnodup := RecordTable.nodup_keys_merge h.nodup_memory r
  have hkeyed := RecordTable.keyedByRecord_merge h.keyed r
  rw [merge_eq]
  refine ⟨hchanged, ?_⟩
  by_cases hempty : (bounded.merged r).2.isEmpty = true
  · rw [if_pos hempty]
    refine ⟨h.keepsRecords, h.nodup, hnodup, hkeyed, fun key => ?_⟩
    by_cases hkey : key = r.key
    · subst hkey
      rw [hstored, ← hrecord]
      exact h.get?_of_changed_isEmpty (KeySet.isEmpty_iff.mp hempty)
    · rw [hother key hkey]
      exact h.get?_eq key
  · rw [if_neg hempty]
    refine ⟨h.keepsRecords, Assoc.nodup_keys_insert h.nodup _ _, hnodup, hkeyed, fun key => ?_⟩
    by_cases hkey : key = r.key
    · subst hkey
      have hfield := isEmpty_merged_of_changed fun hnone => hempty (KeySet.isEmpty_iff.mpr hnone)
      rw [Assoc.get?_insert_self, hstored, ← hrecord, Option.filter_some, hfield]
      rfl
    · rw [Assoc.get?_insert_of_ne _ _ hkey, hother key hkey]
      exact h.get?_eq key

theorem mergeAll (h : bounded.Refines memory) {records : List Record}
    (hrecords : ∀ r ∈ records, (Assoc.keys r.fields).Nodup) :
    ∃ changed bounded' memory', Storage.mergeAll bounded records = (.ok changed, bounded') ∧
      Storage.mergeAll memory records = (.ok changed, memory') ∧ bounded'.Refines memory' := by
  induction records generalizing bounded memory with
  | nil => exact ⟨∅, bounded, memory, rfl, rfl, h⟩
  | cons r rs ih =>
    obtain ⟨hr, hrs⟩ := List.forall_mem_cons.mp hrecords
    obtain ⟨hsame, hmerged⟩ := h.merge hr
    obtain ⟨rest, bounded', memory', hbounded, hmemory, hrefines⟩ := ih hmerged hrs
    refine ⟨(memory.merge r).1 ∪ rest, bounded', memory', ?_, ?_, hrefines⟩
    · have hfirst : Storage.merge bounded r = (.ok (memory.merge r).1, (bounded.merge r).2) :=
        congrArg (fun changed => (Except.ok changed, (bounded.merge r).2)) hsame
      exact Storage.mergeAll_cons_eq_ok hfirst hbounded
    · exact Storage.mergeAll_cons_eq_ok rfl hmemory

theorem remove (h : bounded.Refines memory) (key : RecordKey) :
    (bounded.remove key).2.Refines (memory.remove key).2 where
  keepsRecords := h.keepsRecords
  nodup := Assoc.nodup_keys_erase h.nodup key
  nodup_memory := Assoc.nodup_keys_erase h.nodup_memory key
  keyed other r hr := by
    rw [MemoryContents.remove] at hr
    by_cases hkey : other = key
    · subst hkey
      rw [Assoc.get?_erase_self] at hr
      cases hr
    · rw [Assoc.get?_erase_of_ne _ hkey] at hr
      exact h.keyed other r hr
  get?_eq other := by
    rw [BoundedContents.remove, MemoryContents.remove]
    by_cases hkey : other = key
    · subst hkey
      rw [Assoc.get?_erase_self, Assoc.get?_erase_self]
      rfl
    · rw [Assoc.get?_erase_of_ne _ hkey, Assoc.get?_erase_of_ne _ hkey]
      exact h.get?_eq other

/-- A call keeps contents related. -/
theorem perform (h : bounded.Refines memory) {command : Storage.Command}
    (hcommand : command.FieldsOnce) :
    (Storage.perform bounded command).Refines (Storage.perform memory command) := by
  cases command with
  | merge r => exact (h.merge hcommand).2
  | mergeAll records =>
    obtain ⟨changed, bounded', memory', hbounded, hmemory, hrefines⟩ := h.mergeAll hcommand
    rwa [Storage.perform, Storage.perform, hbounded, hmemory]
  | remove key => exact h.remove key
  | clear => exact empty h.keepsRecords
  | load key => exact h
  | size => exact h

theorem performAll (h : bounded.Refines memory) {commands : List Storage.Command}
    (hcommands : ∀ command ∈ commands, command.FieldsOnce) :
    (Storage.performAll bounded commands).Refines (Storage.performAll memory commands) := by
  induction commands generalizing bounded memory with
  | nil => exact h
  | cons command commands ih =>
    obtain ⟨hcommand, hcommands⟩ := List.forall_mem_cons.mp hcommands
    exact ih (h.perform hcommand) hcommands

/-- The entries of the bounded contents are those of the others with a field. -/
theorem perm_filter (h : bounded.Refines memory) :
    bounded.table.Perm (memory.table.filter fun entry => !entry.2.isEmpty) := by
  refine (List.perm_ext_iff_of_nodup (List.Nodup.of_map Prod.fst h.nodup)
    ((List.Nodup.of_map Prod.fst h.nodup_memory).filter _)).mpr fun ⟨key, r⟩ => ?_
  rw [List.mem_filter, ← Assoc.get?_eq_some_iff_mem h.nodup,
    ← Assoc.get?_eq_some_iff_mem h.nodup_memory, h.get?_eq, Option.filter_eq_some_iff]

end Refines

/-- What can be observed of bounded contents and of unbounded ones: every call is answered alike, but
for the records without fields, which the bounded contents do not hold. -/
structure Agrees (bounded : BoundedContents) (memory : MemoryContents) : Prop where
  contents : bounded.table.Perm (memory.table.filter fun entry => !entry.2.isEmpty)
  merge : ∀ r : Record, (Assoc.keys r.fields).Nodup → ∃ changed,
    (Storage.merge bounded r).1 = .ok changed ∧ (Storage.merge memory r).1 = .ok changed
  mergeAll : ∀ records : List Record, (∀ r ∈ records, (Assoc.keys r.fields).Nodup) → ∃ changed,
    (Storage.mergeAll bounded records).1 = .ok changed ∧
      (Storage.mergeAll memory records).1 = .ok changed
  load : ∀ key, Storage.load? bounded key =
    (Storage.load? memory key).filter fun r => !r.isEmpty
  remove : ∀ key, (Storage.remove bounded key).1 ≠ (Storage.remove memory key).1 ↔
    ∃ r, Storage.load? memory key = some r ∧ r.isEmpty = true
  size : Storage.size memory =
    Storage.size bounded + (memory.table.filter fun entry => entry.2.isEmpty).length

theorem Refines.agrees (h : bounded.Refines memory) : bounded.Agrees memory where
  contents := h.perm_filter
  merge r hr := ⟨(memory.merge r).1, congrArg Except.ok (h.merge hr).1, rfl⟩
  mergeAll records hrecords := by
    obtain ⟨changed, bounded', memory', hbounded, hmemory, -⟩ := h.mergeAll hrecords
    exact ⟨changed, by rw [hbounded], by rw [hmemory]⟩
  load key := (load?_eq_get? h.keepsRecords key).trans (h.get?_eq key)
  remove key := by
    change (bounded.load? key).isSome ≠ (Assoc.get? memory.table key).isSome ↔
      ∃ r, Assoc.get? memory.table key = some r ∧ r.isEmpty = true
    rw [load?_eq_get? h.keepsRecords, h.get?_eq]
    cases Assoc.get? memory.table key with
    | none => simp
    | some r => cases hempty : r.isEmpty <;> simp [Option.filter_some, hempty]
  size := by
    change memory.table.length = bounded.size + _
    rw [BoundedContents.size, if_pos h.keepsRecords, h.perm_filter.length_eq, Nat.add_comm]
    exact List.length_eq_length_filter_add _

/-- Contents below their bounds answer every call as unbounded contents do, after any calls before,
but for records without fields: these the unbounded contents alone hold. -/
theorem agrees_performAll {policy : EvictionPolicy} (hpolicy : policy.keepsRecords = true)
    {commands : List Storage.Command} (hcommands : ∀ command ∈ commands, command.FieldsOnce) :
    (Storage.performAll (⟨policy, []⟩ : BoundedContents) commands).Agrees
      (Storage.performAll MemoryContents.empty commands) :=
  ((Refines.empty hpolicy).performAll hcommands).agrees

/-- An empty record is merged, then one with a field, twice, and a key without a record is removed:
the unbounded contents hold both records, the bounded ones the second. -/
theorem agrees_performAll_emptyRecord :
    let policy : EvictionPolicy := ⟨2, none, some ⟨60, 0⟩⟩
    let droid : Record := ⟨⟨"Droid:1"⟩, [("name", .scalar (.string "R2-D2"))]⟩
    let commands : List Storage.Command :=
      [.merge ⟨⟨"Droid:2"⟩, []⟩, .merge droid, .mergeAll [droid], .load droid.key,
        .remove ⟨"Droid:3"⟩]
    let bounded := Storage.performAll (⟨policy, []⟩ : BoundedContents) commands
    let memory := Storage.performAll MemoryContents.empty commands
    policy.keepsRecords = true ∧ (∀ command ∈ commands, command.FieldsOnce) ∧
      Storage.size memory = 2 ∧ Storage.size bounded = 1 ∧ bounded.Agrees memory := by
  intro policy droid commands bounded memory
  have hpolicy : policy.keepsRecords = true := by decide
  have hcommands : ∀ command ∈ commands, command.FieldsOnce := by
    simp [commands, droid, Storage.Command.FieldsOnce, Assoc.keys]
  exact ⟨hpolicy, hcommands, rfl, rfl, agrees_performAll hpolicy hcommands⟩

end BoundedContents

end GraphClient
