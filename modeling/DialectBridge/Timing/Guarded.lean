import DialectBridge.Timing.Cache

/-!
# A cache behind a lock

Many tasks use one cache, and every use holds its lock.  A use that fails leaves the lock poisoned:
the entries are as they were, but nobody gets at them any more, and every later use fails too.
-/

namespace DialectBridge

/-- What a look-up comes to. -/
inductive Lookup (ν : Type) where
  | hit (value : ν)
  | miss
  | failed
  deriving DecidableEq, Repr

/-- Results of type `ν` by text, behind a lock. -/
structure Guarded (ν : Type) extends Cache ν where
  /-- A use has failed while it held the lock. -/
  poisoned : Bool

namespace Guarded

variable {ν : Type}

/-- A cache without results. -/
def empty (space : String) (lifetime : Nat) : Guarded ν :=
  ⟨.empty space lifetime, false⟩

/-- Looks up the result for a text. -/
def get (g : Guarded ν) (now : Nat) (text : String) : Lookup ν × Guarded ν :=
  if g.poisoned then (.failed, g)
  else
    match g.toCache.get now text with
    | (some value, cache) => (.hit value, ⟨cache, false⟩)
    | (none, cache) => (.miss, ⟨cache, false⟩)

/-- Keeps a result, unless there is one already; gives the one that is kept, or fails. -/
def put (g : Guarded ν) (now : Nat) (text : String) (value : ν) : Option ν × Guarded ν :=
  if g.poisoned then (none, g)
  else
    let (kept, cache) := g.toCache.put now text value
    (kept, ⟨cache, kept.isNone⟩)

/-- Drops expired results and counts them. -/
def purge (g : Guarded ν) (now : Nat) : Option Nat × Guarded ν :=
  if g.poisoned then (none, g)
  else
    let (count, cache) := g.toCache.purge now
    (some count, ⟨cache, false⟩)

end Guarded

end DialectBridge
