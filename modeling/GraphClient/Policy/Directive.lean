import GraphClient.Assoc

/-!
# Directives for the cache

Directives go along with an operation and tell the cache how to treat it; they never change the
operation. A directive is on when it is present with any value but `false`, in whatever case.
-/

namespace GraphClient

/-- Named values that are passed down to the cache; a later value of a name replaces an earlier. -/
structure Directives where
  entries : Assoc String String := []

namespace Directives

def none : Directives := ⟨[]⟩

instance : Inhabited Directives := ⟨none⟩

def ofEntries (entries : List (String × String)) : Directives := ⟨Assoc.ofEntries entries⟩

def extend (d : Directives) (entries : List (String × String)) : Directives :=
  ⟨Assoc.insertAll d.entries entries⟩

def value? (d : Directives) (name : String) : Option String := Assoc.get? d.entries name

def has (d : Directives) (name : String) : Bool := (d.value? name).isSome

/-- Whether a directive is present and not `false`. -/
def isEnabled (d : Directives) (name : String) : Bool :=
  match d.value? name with
  | some value => value.toList.map Char.toLower ≠ "false".toList
  | Option.none => false

/-- The response is not to be written to the cache. -/
def doNotStore (d : Directives) : Bool := d.isEnabled "do-not-store"

/-- The records that an operation was read from are to be removed. -/
def evictAfterRead (d : Directives) : Bool := d.isEnabled "evict-after-read"

def same (d e : Directives) : Bool :=
  d.entries.length == e.entries.length
    && d.entries.all fun entry => e.value? entry.1 == some entry.2

@[simp] theorem isEnabled_none (name : String) : none.isEnabled name = false := rfl

@[simp] theorem doNotStore_none : none.doNotStore = false := rfl

@[simp] theorem evictAfterRead_none : none.evictAfterRead = false := rfl

end Directives

end GraphClient
