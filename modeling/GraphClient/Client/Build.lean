import GraphClient.Configuration.Basic

/-!
# Building clients

A client is built from exactly one configuration. Its tasks run on a dispatcher: one that was given,
else that of the surroundings, if there is one. Bounds on how long records are kept have a limit of
their own, far beyond any use.
-/

namespace GraphClient

inductive BuildError where
  | missingConfiguration
  | configuration (error : ConfigurationError)
  | noDispatcher
  /-- The transport could not be created. -/
  | transport (reason : String)
deriving DecidableEq

def BuildError.message : BuildError → String
  | missingConfiguration => "a configuration is required"
  | configuration error => "invalid configuration: " ++ error.message
  | noDispatcher =>
    "a tokio runtime is required: call \x60dispatcher()\x60 or build the client inside a runtime"
  | transport reason => "could not create the HTTP client: " ++ reason

/-- A use of a builder that is never right. -/
inductive BuildMisuse where
  | configuredTwice
  | writeExpirationTooLong
  | accessExpirationTooLong
deriving DecidableEq, Repr

def BuildMisuse.message : BuildMisuse → String
  | configuredTwice => "configuration was specified twice"
  | writeExpirationTooLong => "time_to_live is longer than 1000 years"
  | accessExpirationTooLong => "time_to_idle is longer than 1000 years"

structure ClientBuilder where
  configuration : Option Configuration := none
  hasDispatcher : Bool := false

namespace ClientBuilder

/-- Gives the configuration, once. -/
def configure (b : ClientBuilder) (c : Configuration) : Except BuildMisuse ClientBuilder :=
  if b.configuration.isSome then .error .configuredTwice
  else .ok { b with configuration := some c }

/-- The longest time that a record is kept: a thousand years of 365 days, in seconds. -/
def maxExpiration : Nat := 1000 * 365 * 24 * 60 * 60

def isTooLong (d : Duration) : Bool :=
  maxExpiration < d.seconds || (d.seconds = maxExpiration && 0 < d.nanoseconds)

def checkExpirations (policy : EvictionPolicy) : Except BuildMisuse Unit :=
  if policy.expireAfterWrite.any isTooLong then .error .writeExpirationTooLong
  else if policy.expireAfterAccess.any isTooLong then .error .accessExpirationTooLong
  else .ok ()

/-- The valid configuration of the client to be built. `inRuntime` says whether the surroundings have
a dispatcher. -/
def check (b : ClientBuilder) (inRuntime : Bool) : Except BuildError Configuration :=
  match b.configuration with
  | none => .error .missingConfiguration
  | some c =>
    match c.validate with
    | .error e => .error (.configuration e)
    | .ok c => if b.hasDispatcher || inRuntime then .ok c else .error .noDispatcher

def build (b : ClientBuilder) (inRuntime : Bool) :
    Except BuildMisuse (Except BuildError Configuration) :=
  match b.check inRuntime with
  | .error e => .ok (.error e)
  | .ok c =>
    match c.cache.eviction with
    | none => .ok (.ok c)
    | some policy => (checkExpirations policy).map fun _ => .ok c

end ClientBuilder

end GraphClient
