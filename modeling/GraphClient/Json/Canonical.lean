import GraphClient.Json.Printer

/-!
# Canonical texts of JSON values

`sorted` orders the members of every object by key, and `canonicalText` is the compact text of the
sorted value, so values that differ only in the order of keys have one canonical text. A scalar can
also be part of a key: `keyFragment?` writes a string without quotes, and numbers and booleans as in
a text.
-/

namespace GraphClient.Json

mutual

/-- The value with the members of every object in the order of their keys. -/
def sorted : Json → Json
  | array items => array (sortedItems items)
  | object members =>
    object ((sortedMembers members).mergeSort fun a b => decide (a.1 ≤ b.1))
  | value => value

def sortedItems : List Json → List Json
  | [] => []
  | x :: xs => sorted x :: sortedItems xs

/-- Every value of a member sorted; the members stay in their order. -/
def sortedMembers : List (String × Json) → List (String × Json)
  | [] => []
  | (key, x) :: xs => (key, sorted x) :: sortedMembers xs

end

def canonicalText (value : Json) : String := value.sorted.toText

/-- The text of a scalar inside a key; other values have none. -/
def keyFragment? : Json → Option String
  | string value => some value
  | number value => some (String.ofList value.render)
  | bool true => some "true"
  | bool false => some "false"
  | _ => none

theorem sortedItems_eq_map (items : List Json) : sortedItems items = items.map sorted := by
  induction items with
  | nil => rfl
  | cons x xs ih => simp [sortedItems, ih]

theorem sortedMembers_eq_map (members : List (String × Json)) :
    sortedMembers members = members.map fun m => (m.1, m.2.sorted) := by
  induction members with
  | nil => rfl
  | cons m ms ih => simp [sortedMembers, ih]

end GraphClient.Json
