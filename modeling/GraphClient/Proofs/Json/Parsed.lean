import GraphClient.Proofs.Reading.WellFormed
import GraphClient.Response.Envelope

/-!
# Parsed values are well formed

A text may repeat a key in an object. Reading it collapses the members to one for each key, at every
depth, so no object of a parsed value repeats a key. The data of a response is part of such a value.
-/

namespace GraphClient

namespace Json

theorem WellFormed.insertAll {members : Object} (h : (object members).WellFormed)
    {entries : List (String × Json)} (hentries : WellFormedMembers entries) :
    (object (Assoc.insertAll members entries)).WellFormed := by
  induction entries generalizing members with
  | nil => exact h
  | cons entry entries ih => exact ih (h.insert entry.1 hentries.1) hentries.2

mutual

theorem wellFormed_collapse : ∀ x : Json, (collapse x).WellFormed
  | array items => wellFormedItems_collapse items
  | object members => by
    have hempty : (object []).WellFormed := ⟨List.nodup_nil, trivial⟩
    exact hempty.insertAll (wellFormedMembers_collapse members)
  | string _ => trivial
  | number _ => trivial
  | bool _ => trivial
  | null => trivial

theorem wellFormedItems_collapse : ∀ items : List Json, WellFormedItems (collapseItems items)
  | [] => trivial
  | x :: xs => ⟨wellFormed_collapse x, wellFormedItems_collapse xs⟩

theorem wellFormedMembers_collapse : ∀ members : List (String × Json),
    WellFormedMembers (collapseMembers members)
  | [] => trivial
  | (_, x) :: xs => ⟨wellFormed_collapse x, wellFormedMembers_collapse xs⟩

end

theorem wellFormed_parseBytes? {bytes : ByteArray} {value : Json}
    (h : parseBytes? bytes = some value) : value.WellFormed := by
  obtain ⟨text, -, hparse⟩ := Option.bind_eq_some_iff.mp h
  obtain ⟨document, -, rfl⟩ := Option.map_eq_some_iff.mp hparse
  exact wellFormed_collapse document

end Json

namespace Response

theorem eq_or_get?_of_dataOf {members : Json.Object} {data : Option Json}
    (h : dataOf members = .ok data) : data = none ∨ Assoc.get? members "data" = data := by
  rw [dataOf] at h
  split at h
  · exact .inl (Except.ok.inj h).symm
  · exact .inl (Except.ok.inj h).symm
  · next hfound => exact .inr (hfound.trans (Except.ok.inj h))
  · cases h

/-- The data of a response that was read from a text is well formed. -/
theorem wellFormed_ofBytes {body : ByteArray} {response : Response Json}
    (h : ofBytes body = .ok response) {data : Json} (hdata : response.data = some data) :
    data.WellFormed := by
  rw [ofBytes] at h
  split at h
  · next value hvalue =>
    have hwell := Json.wellFormed_parseBytes? hvalue
    cases value with
    | object members =>
      obtain ⟨found, hfound, hrest⟩ := bind_eq_ok_iff.mp h
      obtain ⟨errors, -, hrest⟩ := bind_eq_ok_iff.mp hrest
      split at hrest
      · cases hrest
      · cases hrest
        rcases eq_or_get?_of_dataOf hfound with rfl | hmember
        · cases hdata
        · exact hwell.of_get? (hmember.trans hdata)
    | _ => cases h
  · cases h

end Response

end GraphClient
