/-!
# How a call combines the cache with the network
-/

namespace GraphClient

inductive CacheControl where
  /-- In the cache alone; a miss is a response without data. -/
  | cacheOnly
  /-- In the cache, and on the network when something is missing there. -/
  | cacheFirst
  /-- On the network, and in the cache when the network fails. -/
  | networkFirst
  | networkOnly
  /-- On the network, where an HTTP cache may serve stale data first. -/
  | networkBeforeStale
  /-- On the network, where an HTTP cache drops a response once it was read. -/
  | expireAfterRead
deriving DecidableEq, Repr

namespace CacheControl

instance : Inhabited CacheControl := ⟨cacheFirst⟩

def all : List CacheControl :=
  [cacheOnly, cacheFirst, networkFirst, networkOnly, networkBeforeStale, expireAfterRead]

def name : CacheControl → String
  | cacheOnly => "cache_only"
  | cacheFirst => "cache_first"
  | networkFirst => "network_first"
  | networkOnly => "network_only"
  | networkBeforeStale => "network_before_stale"
  | expireAfterRead => "expire_after_read"

def display : CacheControl → String
  | cacheOnly => "CacheOnly"
  | cacheFirst => "CacheFirst"
  | networkFirst => "NetworkFirst"
  | networkOnly => "NetworkOnly"
  | networkBeforeStale => "NetworkBeforeStale"
  | expireAfterRead => "ExpireAfterRead"

def ofName? (text : String) : Option CacheControl := all.find? fun control => control.name = text

/-- Whether the cache is read before the network is asked. -/
def readsCacheFirst : CacheControl → Bool
  | cacheOnly | cacheFirst => true
  | _ => false

theorem ofName?_name (control : CacheControl) : ofName? control.name = some control := by
  cases control <;> decide

end CacheControl

end GraphClient
