import GraphClient.Assoc
import GraphClient.Decimal.Binary64

/-!
# JSON values

A number is an integer or a double, and the two are never equal: `1` and `1.0` are different values.
An object lists its members in order, but `equal` ignores that order at every depth. A value is
`WellFormed` when no object in it repeats a key; this is what reading a text gives.
-/

namespace GraphClient

namespace Json

/-- An integer, or a finite double given by its bits. -/
inductive Number where
  | integer (value : Int)
  | double (bits : UInt64)
deriving DecidableEq, Repr

/-- Numerical equality within one kind of number. -/
def Number.equal : Number → Number → Bool
  | .integer a, .integer b => a == b
  | .double a, .double b => Binary64.equal a b
  | _, _ => false

theorem Number.equal_self : ∀ n : Number, n.equal n = true
  | .integer a => by simp [Number.equal]
  | .double a => by simp [Number.equal]

theorem Number.equal_comm : ∀ m n : Number, m.equal n = n.equal m
  | .integer _, .integer _ => Bool.beq_comm
  | .double a, .double b => Binary64.equal_comm a b
  | .integer _, .double _ => rfl
  | .double _, .integer _ => rfl

end Json

inductive Json where
  | null
  | bool (value : Bool)
  | number (value : Json.Number)
  | string (value : String)
  | array (items : List Json)
  | object (members : List (String × Json))

namespace Json

abbrev Object := Assoc String Json

instance : Inhabited Json := ⟨null⟩

def ofInt (value : Int) : Json := number (.integer value)

mutual

/-- Equality up to the order of the keys of every object. -/
def equal : Json → Json → Bool
  | null, null => true
  | bool a, bool b => a == b
  | number a, number b => a.equal b
  | string a, string b => a == b
  | array xs, array ys => equalItems xs ys
  | object xs, object ys => xs.length == ys.length && equalMembers xs ys
  | _, _ => false

def equalItems : List Json → List Json → Bool
  | [], [] => true
  | x :: xs, y :: ys => equal x y && equalItems xs ys
  | _, _ => false

/-- Whether every member of the first list has an equal member of its key in the second. -/
def equalMembers : List (String × Json) → List (String × Json) → Bool
  | [], _ => true
  | (key, x) :: xs, ys =>
    (match Assoc.get? ys key with
      | some y => equal x y
      | none => false) && equalMembers xs ys

end

instance : BEq Json := ⟨equal⟩

mutual

/-- No object repeats a key, at any depth. -/
def WellFormed : Json → Prop
  | array items => WellFormedItems items
  | object members => (Assoc.keys members).Nodup ∧ WellFormedMembers members
  | _ => True

def WellFormedItems : List Json → Prop
  | [] => True
  | x :: xs => WellFormed x ∧ WellFormedItems xs

def WellFormedMembers : List (String × Json) → Prop
  | [] => True
  | (_, x) :: xs => WellFormed x ∧ WellFormedMembers xs

end

def asObject? : Json → Option Object
  | object members => some members
  | _ => none

def asString? : Json → Option String
  | string value => some value
  | _ => none

/-- The name of the member that holds the concrete type of an object. -/
def typenameKey : String := "__typename"

/-- The concrete type an object names, when that is a string. -/
def typename? (members : Object) : Option String :=
  (Assoc.get? members typenameKey).bind asString?

theorem wellFormedItems_iff {items : List Json} :
    WellFormedItems items ↔ ∀ x ∈ items, x.WellFormed := by
  induction items with
  | nil => simp [WellFormedItems]
  | cons x xs ih => simp [WellFormedItems, ih]

theorem wellFormedMembers_iff {members : List (String × Json)} :
    WellFormedMembers members ↔ ∀ m ∈ members, m.2.WellFormed := by
  induction members with
  | nil => simp [WellFormedMembers]
  | cons m ms ih =>
    obtain ⟨key, x⟩ := m
    simp [WellFormedMembers, ih]

theorem WellFormed.of_get? {members : Object} (h : (object members).WellFormed) {name : String}
    {x : Json} (hx : Assoc.get? members name = some x) : x.WellFormed :=
  wellFormedMembers_iff.mp h.2 _ (Assoc.mem_of_get?_eq_some hx)

end Json

end GraphClient
