/-!
# Debouncers

A debouncer runs the job scheduled last, once nothing has been scheduled for a while.  At most one
job waits; a job that has been fired is out of its reach.
-/

namespace DialectBridge

/-- A job and the time it is due. -/
structure Timer (α : Type) where
  due : Nat
  job : α
  deriving DecidableEq, Repr, Inhabited

/-- A delay and the job that waits for it to pass. -/
structure Debouncer (α : Type) where
  delay : Nat
  waiting : Option (Timer α)
  deriving DecidableEq, Repr, Inhabited

namespace Debouncer

variable {α : Type}

/-- A debouncer at rest. -/
def idle (delay : Nat) : Debouncer α :=
  ⟨delay, none⟩

/-- Schedules a job in place of the one that waits. -/
def schedule (d : Debouncer α) (now : Nat) (job : α) : Debouncer α :=
  { d with waiting := some ⟨now + d.delay, job⟩ }

/-- Drops the waiting job; tells whether there was one. -/
def cancel (d : Debouncer α) : Debouncer α × Bool :=
  ({ d with waiting := none }, d.waiting.isSome)

/-- When the waiting job is due. -/
def due? (d : Debouncer α) : Option Nat :=
  d.waiting.map Timer.due

/-- Takes the waiting job out. -/
def fire (d : Debouncer α) : Debouncer α × Option α :=
  ({ d with waiting := none }, d.waiting.map Timer.job)

end Debouncer

end DialectBridge
