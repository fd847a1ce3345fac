import GraphClient.Json.Basic

/-!
# Names of variants as JSON values

A variant without contents is written as its name; an object that maps the name to `null` is read as
the same variant.
-/

namespace GraphClient.Json

/-- The name of a variant without contents. -/
def variantName? : Json → Option String
  | string name => some name
  | object [(name, null)] => some name
  | _ => none

end GraphClient.Json
