import GraphClient.Yaml.Node

/-!
# What nodes stand for

A scalar without a tag stands for a number, a truth value or nothing at all if it is plain and
written as one; quoted, it is a text. A secondary tag says what a scalar stands for, and under any
other tag it is a text. Every scalar may be read as the text that it is.

A record with given fields is read from a mapping or from the sequence of its fields in order.
-/

namespace GraphClient.Yaml

namespace Scalar

/-- Whether a text stands for nothing at all. -/
def isNothing (text : String) : Bool := text = "~" || text = "null"

def bool? (text : String) : Option Bool :=
  if text = "true" then some true else if text = "false" then some false else none

/-- The number that digits of a base write, one digit at least. -/
def digits? (base : Nat) (ds : List Char) : Option Nat :=
  if ds.isEmpty then none
  else ds.foldlM (fun n d => do
    let d ← Url.hexValue? d
    if d < base then pure (n * base + d) else none) 0

/-- A number that a plain text writes: decimal without leading zeros, or in another base after its
mark, where a second plus sign may stand. -/
def magnitude? : List Char → Option Nat
  | '0' :: 'x' :: ds => digits? 16 (afterPlus ds)
  | '0' :: 'o' :: ds => digits? 8 (afterPlus ds)
  | '0' :: 'b' :: ds => digits? 2 (afterPlus ds)
  | ['0'] => some 0
  | '0' :: _ => none
  | ds => digits? 10 ds
where
  /-- What comes after a plus sign, if there is one. -/
  afterPlus : List Char → List Char
    | '+' :: cs => cs
    | cs => cs

/-- The natural number below `limit` that a text stands for after its sign; a negative one is only
zero. -/
def signed? (limit : Nat) (read : List Char → Option Nat) (text : String) : Option Nat :=
  match text.toList with
  | '-' :: ds => (read ds).filter (· = 0)
  | '+' :: ds => (read ds).filter (· < limit)
  | ds => (read ds).filter (· < limit)

end Scalar

namespace Node

def text? : Node → Option String
  | scalar _ s => some s.text
  | _ => none

def bool? : Node → Option Bool
  | scalar none ⟨text, true⟩ => Scalar.bool? text
  | scalar (some ⟨"!!", "bool"⟩) s => Scalar.bool? s.text
  | _ => none

/-- The natural number of 64 bits that a node stands for; a tagged one is decimal and has a sign bit. -/
def nat64? : Node → Option Nat
  | scalar none ⟨text, true⟩ => Scalar.signed? (Nat.pow 2 64) Scalar.magnitude? text
  | scalar (some ⟨"!!", "int"⟩) s => Scalar.signed? (Nat.pow 2 63) (Scalar.digits? 10) s.text
  | _ => none

/-- Whether a node stands for nothing at all. -/
def isNothing : Node → Bool
  | scalar none ⟨text, true⟩ => Scalar.isNothing text
  | scalar (some ⟨"!!", "null"⟩) s => Scalar.isNothing s.text
  | _ => false

/-- What a node stands for unless that is nothing at all. A plain scalar that is tagged as nothing has
to be written so. -/
def option? {α : Type} (read : Node → Option α) (node : Node) : Option (Option α) :=
  match node with
  | scalar none ⟨text, true⟩ => if Scalar.isNothing text then some none else (read node).map some
  | scalar (some ⟨"!!", "null"⟩) ⟨text, true⟩ => if Scalar.isNothing text then some none else none
  | _ => (read node).map some

/-- One of several alternatives: its name, or its name as the only key of a mapping to nothing. The
name of an alternative as a primary tag would have a value of its own, which none of them has. -/
def choice? {α : Type} (ofName? : String → Option α) : Node → Option α
  | scalar (some ⟨"!", name⟩) s => if (ofName? name).isSome then none else ofName? s.text
  | scalar _ s => ofName? s.text
  | mapping [(key, value)] => if value.isNothing then key.text?.bind ofName? else none
  | _ => none

/-- The fields of a record: of a mapping each at most once, of a sequence as many as there are. -/
def fields? (names : List String) : Node → Option (Assoc String Node)
  | mapping entries => do
    let fields ← entries.mapM fun (key, value) => do
      let name ← key.text?
      if name ∈ names then pure (name, value) else none
    if (Assoc.keys fields).Nodup then pure fields else none
  | sequence items => if items.length ≤ names.length then some (names.zip items) else none
  | scalar _ _ => none

end Node

/-- The value of a field that must be there. -/
def required? {α : Type} (fields : Assoc String Node) (name : String) (read : Node → Option α) :
    Option α := (Assoc.get? fields name).bind read

/-- The value of a field that may be left out. -/
def optional? {α : Type} (fields : Assoc String Node) (name : String) (read : Node → Option α)
    (value : α) : Option α :=
  match Assoc.get? fields name with
  | some node => read node
  | none => some value

end GraphClient.Yaml
