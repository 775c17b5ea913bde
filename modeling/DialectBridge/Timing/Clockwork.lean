/-!
# Machines with a clock

Some states change by themselves when their time has come.  A clockwork tells when the next change
is due and what it does; `runTo` lets the clock run to a time, taking every change on the way, in
order, and `runUntil` lets it run until there is enough.
-/

namespace DialectBridge

/-- How states of type `σ` change by themselves, and what is seen of it. -/
structure Clockwork (σ ε : Type) where
  /-- When the next change is due, if there is one. -/
  due? : σ → Option Nat
  /-- The change that is due next. -/
  step : σ → σ × List ε
  /-- How many changes can still come. -/
  remaining : σ → Nat

namespace Clockwork

variable {σ ε : Type}

/-- Takes at most `fuel` changes that are due by `limit`. -/
def run (c : Clockwork σ ε) (limit : Nat) : Nat → σ → σ × List ε
  | 0, s => (s, [])
  | fuel + 1, s =>
    match c.due? s with
    | none => (s, [])
    | some due =>
      if due ≤ limit then
        let (next, seen) := c.step s
        let (last, later) := c.run limit fuel next
        (last, seen ++ later)
      else (s, [])

/-- Takes all changes that are due by `limit`. -/
def runTo (c : Clockwork σ ε) (limit : Nat) (s : σ) : σ × List ε :=
  c.run limit (c.remaining s) s

/-- Takes changes until a state is reached that is enough, or none is left. -/
def runUntil (c : Clockwork σ ε) (enough : σ → Bool) : Nat → σ → σ × List ε
  | 0, s => (s, [])
  | fuel + 1, s =>
    if enough s then (s, [])
    else
      let (next, seen) := c.step s
      let (last, later) := c.runUntil enough fuel next
      (last, seen ++ later)

/-- The earlier of two times, of which either may be missing. -/
def earlier? : Option Nat → Option Nat → Option Nat
  | some a, some b => some (min a b)
  | some a, none => some a
  | none, b => b

end Clockwork

end DialectBridge
