import GraphClient.Assoc

/-!
# What a client is busy with

A `Tracker` counts the calls in flight and the registered watchers, and knows the watchers of every
operation name. Registering a watcher twice under one name counts once. Each time the count reaches
zero on a release or on an unregistration, the client has become idle and the idle callback, if there
is one, is called.
-/

namespace GraphClient

structure WatcherId where
  number : Nat
deriving DecidableEq, Repr

structure Tracker where
  active : Nat := 0
  /-- The watchers registered under a name; no name has an empty list. -/
  watchers : Assoc String (List WatcherId) := []
  nextWatcher : Nat := 0
  hasIdleCallback : Bool := true
  idleCalls : Nat := 0
deriving DecidableEq, Repr

namespace Tracker

def watchersOf (t : Tracker) (name : String) : List WatcherId :=
  (Assoc.get? t.watchers name).getD []

/-- Calls the idle callback when nothing is active. -/
def settleIdle (t : Tracker) : Tracker :=
  if t.active = 0 ∧ t.hasIdleCallback = true then { t with idleCalls := t.idleCalls + 1 } else t

/-- Counts a call that begins. -/
def track (t : Tracker) : Tracker := { t with active := t.active + 1 }

/-- Counts a call that ends; the count never falls below zero. -/
def release (t : Tracker) : Tracker := { t with active := t.active - 1 }.settleIdle

def allocate (t : Tracker) : WatcherId × Tracker :=
  (⟨t.nextWatcher⟩, { t with nextWatcher := t.nextWatcher + 1 })

/-- Registers a watcher under a name, once. -/
def register (t : Tracker) (name : String) (id : WatcherId) : Tracker :=
  if id ∈ t.watchersOf name then t
  else { t with
    active := t.active + 1
    watchers := Assoc.insert t.watchers name (t.watchersOf name ++ [id]) }

/-- The registrations without a watcher of a name. -/
def withoutWatcher (t : Tracker) (name : String) (id : WatcherId) :
    Assoc String (List WatcherId) :=
  match (t.watchersOf name).filter (· ≠ id) with
  | [] => Assoc.erase t.watchers name
  | rest => Assoc.insert t.watchers name rest

/-- Ends the registration of a watcher under a name, if there is one. -/
def unregister (t : Tracker) (name : String) (id : WatcherId) : Tracker :=
  if id ∈ t.watchersOf name then
    { t with active := t.active - 1, watchers := t.withoutWatcher name id }.settleIdle
  else t

/-- The watchers of several names, one name after the other. -/
def activeWatchers (t : Tracker) (names : List String) : List WatcherId :=
  names.flatMap t.watchersOf

def allWatchers (t : Tracker) : List WatcherId := t.watchers.flatMap Prod.snd

@[simp] theorem active_track (t : Tracker) : t.track.active = t.active + 1 := rfl

@[simp] theorem active_settleIdle (t : Tracker) : t.settleIdle.active = t.active := by
  simp only [settleIdle]
  split <;> rfl

@[simp] theorem watchers_settleIdle (t : Tracker) : t.settleIdle.watchers = t.watchers := by
  simp only [settleIdle]
  split <;> rfl

@[simp] theorem active_release (t : Tracker) : t.release.active = t.active - 1 := by
  simp [release]

@[simp] theorem watchers_release (t : Tracker) : t.release.watchers = t.watchers := by
  simp [release]

end Tracker

end GraphClient
