import DialectBridge.Timing.Clockwork
import DialectBridge.Timing.Debouncer

/-!
# Jobs that take time

A workshop is fed by timers.  A job that is fired starts at once and runs for its own time; nothing
stops it any more, whatever becomes of the timers.  `advance` lets the clock run and tells which
jobs start and end.
-/

namespace DialectBridge

/-- A job with a name and the time it takes. -/
structure Job (ι : Type) where
  id : ι
  length : Nat
  deriving DecidableEq, Repr, Inhabited

/-- What is seen of a job. -/
inductive JobEvent (ι : Type) where
  | start (id : ι)
  | done (id : ι)
  deriving DecidableEq, Repr

/-- Timers that fire jobs of type `α`. -/
class Timers (σ : Type) (α : outParam Type) where
  /-- When the next timer is due. -/
  due? : σ → Option Nat
  /-- Takes out the job of the timer that is due next. -/
  fire : σ → σ × Option α
  /-- How many timers are armed. -/
  armed : σ → Nat

instance {α : Type} : Timers (Debouncer α) α where
  due? := Debouncer.due?
  fire := Debouncer.fire
  armed d := if d.waiting.isSome then 1 else 0

/-- Timers, the jobs that run, and the time. -/
structure Workshop (σ ι : Type) where
  now : Nat
  timers : σ
  /-- The running jobs, by the time they end. -/
  running : List (Timer ι)

namespace Workshop

variable {σ ι : Type} [Timers σ (Job ι)]

/-- A workshop at time zero. -/
def start (timers : σ) : Workshop σ ι :=
  ⟨0, timers, []⟩

/-- When the first of the running jobs ends. -/
def firstEnd? (running : List (Timer ι)) : Option Nat :=
  running.foldl (fun first t => Clockwork.earlier? first (some t.due)) none

/-- Takes out the first of the running jobs that end at `time`. -/
def takeEnding (time : Nat) : List (Timer ι) → Option (ι × List (Timer ι))
  | [] => none
  | t :: rest =>
    if t.due = time then some (t.job, rest)
    else (takeEnding time rest).map fun found => (found.1, t :: found.2)

/-- When something happens next. -/
def due? (w : Workshop σ ι) : Option Nat :=
  Clockwork.earlier? (firstEnd? w.running) (Timers.due? w.timers)

/-- Ends a running job, or starts one whose timer is due, whichever comes first. -/
def step (w : Workshop σ ι) : Workshop σ ι × List (JobEvent ι) :=
  match w.due? with
  | none => (w, [])
  | some now =>
    match takeEnding now w.running with
    | some (id, rest) => ({ w with now := now, running := rest }, [.done id])
    | none =>
      let (timers, job) := Timers.fire w.timers
      match job with
      | none => ({ w with now := now, timers := timers }, [])
      | some job =>
        if job.length = 0 then ({ w with now := now, timers := timers }, [.start job.id, .done job.id])
        else
          ({ now := now, timers := timers, running := w.running ++ [⟨now + job.length, job.id⟩] },
            [.start job.id])

/-- The workshop as a machine with a clock. -/
def clockwork : Clockwork (Workshop σ ι) (JobEvent ι) where
  due? := due?
  step := step
  remaining w := 2 * Timers.armed w.timers + w.running.length

/-- Lets `ms` milliseconds pass. -/
def advance (w : Workshop σ ι) (ms : Nat) : Workshop σ ι × List (JobEvent ι) :=
  let (last, seen) := clockwork.runTo (w.now + ms) w
  ({ last with now := w.now + ms }, seen)

end Workshop

end DialectBridge
