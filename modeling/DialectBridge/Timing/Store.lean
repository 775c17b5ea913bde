/-!
# Results with a lifetime

A store keeps values by key for a fixed lifetime.  Time is given with every operation, in
milliseconds.  A value is never overwritten while it lives: `put` gives back the living value of a
key if there is one.  Expired entries leave the store when they are asked for, when anything is put,
and on `purge`.

The clock counts seconds in 64 bits, so there is an end to the times it can name.  A value that would
expire later than that cannot be stored, and `put` fails.
-/

namespace DialectBridge

/-- A stored value and the time it expires. -/
structure Entry (κ ν : Type) where
  key : κ
  value : ν
  expires : Nat
  deriving DecidableEq, Repr

/-- The first time that the clock cannot name, in milliseconds: it counts up to 2^63 seconds. -/
def timeBound : Nat :=
  9223372036854775808 * 1000

/-- The time that comes after a while, if the clock can name it. -/
def timeAfter? (now ms : Nat) : Option Nat :=
  if now + ms < timeBound then some (now + ms) else none

/-- An entry can be used until it expires. -/
def Entry.live {κ ν : Type} (now : Nat) (e : Entry κ ν) : Bool :=
  now < e.expires

/-- Values by key, each for `lifetime` milliseconds. -/
structure Store (κ ν : Type) where
  lifetime : Nat
  entries : List (Entry κ ν)
  deriving DecidableEq, Repr

namespace Store

variable {κ ν : Type} [DecidableEq κ]

/-- A store without entries. -/
def empty (lifetime : Nat) : Store κ ν :=
  ⟨lifetime, []⟩

/-- The entry of a key, expired or not. -/
def find? (s : Store κ ν) (key : κ) : Option (Entry κ ν) :=
  s.entries.find? fun e => e.key = key

/-- The living value of a key; an expired entry of that key is dropped. -/
def get (s : Store κ ν) (now : Nat) (key : κ) : Option ν × Store κ ν :=
  match s.find? key with
  | none => (none, s)
  | some e =>
    if e.live now then (some e.value, s)
    else (none, { s with entries := s.entries.filter fun e => e.key ≠ key })

/-- Drops all expired entries and counts them. -/
def purge (s : Store κ ν) (now : Nat) : Nat × Store κ ν :=
  let living := s.entries.filter (Entry.live now)
  (s.entries.length - living.length, { s with entries := living })

/-- Stores a value, unless the key has a living one; gives the value that is stored then.  Fails if
the new entry had to expire at a time without a name. -/
def put (s : Store κ ν) (now : Nat) (key : κ) (value : ν) : Option ν × Store κ ν :=
  let s := (s.purge now).2
  match s.find? key with
  | some e => (some e.value, s)
  | none =>
    match timeAfter? now s.lifetime with
    | none => (none, s)
    | some expires => (some value, { s with entries := s.entries ++ [⟨key, value, expires⟩] })

/-- The number of entries, expired ones included. -/
def size (s : Store κ ν) : Nat :=
  s.entries.length

end Store

end DialectBridge
