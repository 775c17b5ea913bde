import DialectBridge.Digest.Fingerprint
import DialectBridge.Timing.Store

/-!
# Results by content

A cache keeps results by the fingerprint of the text they were computed from.  Every cache has a
name space of its own, so that equal texts of two caches have different keys.
-/

namespace DialectBridge

/-- Results of type `ν` by text. -/
structure Cache (ν : Type) where
  space : String
  store : Store Fingerprint ν

namespace Cache

variable {ν : Type}

/-- A cache without results. -/
def empty (space : String) (lifetime : Nat) : Cache ν :=
  ⟨space, .empty lifetime⟩

/-- The key of a text. -/
def key (c : Cache ν) (text : String) : Fingerprint :=
  .of c.space text

/-- The result for a text, if it has not expired. -/
def get (c : Cache ν) (now : Nat) (text : String) : Option ν × Cache ν :=
  let (hit, store) := c.store.get now (c.key text)
  (hit, { c with store })

/-- Keeps a result, unless there is one already; gives the one that is kept, or fails. -/
def put (c : Cache ν) (now : Nat) (text : String) (value : ν) : Option ν × Cache ν :=
  let (kept, store) := c.store.put now (c.key text) value
  (kept, { c with store })

/-- Drops expired results and counts them. -/
def purge (c : Cache ν) (now : Nat) : Nat × Cache ν :=
  let (count, store) := c.store.purge now
  (count, { c with store })

end Cache

end DialectBridge
