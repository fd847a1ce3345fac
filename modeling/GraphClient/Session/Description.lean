import GraphClient.Session.Basic

/-!
# Descriptions for people

One line about the state of a store, a tracker, a call, a watcher or a client in use. Names of
operations are quoted.
-/

namespace GraphClient

/-- A character between quotes. -/
def quotedChar (c : Char) : String :=
  match c with
  | '\x22' => "\\\""
  | '\\' => "\\\\"
  | '\n' => "\\n"
  | '\r' => "\\r"
  | '\t' => "\\t"
  | '\x00' => "\\0"
  | c =>
    if c.toNat < 0x20 || c.toNat = 0x7f then
      "\\u\x7b" ++ String.ofList (Nat.toDigits 16 c.toNat) ++ "\x7d"
    else String.singleton c

def quotedName (name : String) : String :=
  "OperationName(\"" ++ String.join (name.toList.map quotedChar) ++ "\")"

def describeParts (name : String) (parts : List (String × String)) : String :=
  name ++ " \x7b " ++ String.intercalate ", " (parts.map fun part => part.1 ++ ": " ++ part.2)
    ++ " \x7d"

def describeNat (n : Nat) : String := String.ofList (Nat.toDigits 10 n)

def describeBool (b : Bool) : String := if b then "true" else "false"

def Store.describe {σ β : Type} [Storage σ] (s : Store σ β) : String :=
  describeParts "ApolloStore" [("records", describeNat s.size),
    ("subscriptions", describeNat s.subscriptions.length)]

def Tracker.describe (t : Tracker) : String :=
  describeParts "CallTracker" [("active", describeNat t.active)]

/-- What a call does and where it is in its life. -/
def Call.describe {α : Type} (call : Call α) (tokens : Tokens) : String :=
  describeParts "ApolloCall" [("operation", quotedName call.options.operation.name),
    ("cache_control", call.options.control.display), ("state", (call.state tokens).display)]

/-- What a watcher does and where it is in its life. -/
def Watcher.describe {α : Type} (watcher : Watcher α) : String :=
  describeParts "QueryWatcher" [("operation", quotedName watcher.options.operation.name),
    ("started", describeBool watcher.state.started),
    ("canceled", describeBool watcher.state.canceled),
    ("refetch_cache_control", watcher.state.refetchControl.display)]

def Session.describe {σ τ α : Type} [Storage σ] (s : Session σ τ α) : String :=
  describeParts "ApolloClient" [("store", s.store.describe), ("tracker", s.tracker.describe)]

end GraphClient
