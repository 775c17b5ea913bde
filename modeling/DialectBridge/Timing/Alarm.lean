import DialectBridge.Timing.Workshop

/-!
# Debouncers and their tasks

A debouncer does not keep the job that is scheduled.  The job goes into a task of its own, which
sleeps until the job is due, raises a flag and does the job; what the debouncer keeps is a slot with
the handle of the task and the flag.  To abort a task stops it wherever it is, in the middle of its
job as well, so the flag has to be looked at first.  The slot outlives the sleep of its task: with the
flag raised, it is stale.
-/

namespace DialectBridge

/-- Where a task is. -/
inductive TaskStage where
  | asleep
  | running (finish : Nat)
  | ended
  | aborted
  deriving DecidableEq, Repr

/-- A task that sleeps until its job is due, and then does it. -/
structure Spawned (ι : Type) where
  due : Nat
  job : Job ι
  /-- The flag that the task raises when it wakes up. -/
  flag : Nat
  stage : TaskStage
  deriving DecidableEq, Repr

namespace Spawned

variable {ι : Type}

/-- When something happens to the task next. -/
def next? (t : Spawned ι) : Option Nat :=
  match t.stage with
  | .asleep => some t.due
  | .running finish => some finish
  | .ended => none
  | .aborted => none

/-- How many things can still happen to the task. -/
def left (t : Spawned ι) : Nat :=
  match t.stage with
  | .asleep => 2
  | .running _ => 1
  | .ended => 0
  | .aborted => 0

/-- Stops the task, unless it is over. -/
def abort (t : Spawned ι) : Spawned ι :=
  if t.stage = .ended then t else { t with stage := .aborted }

/-- The task wakes up and starts its job, or ends it. -/
def poll (t : Spawned ι) (now : Nat) : Spawned ι × List (JobEvent ι) :=
  match t.stage with
  | .asleep =>
    if t.job.length = 0 then ({ t with stage := .ended }, [.start t.job.id, .done t.job.id])
    else ({ t with stage := .running (now + t.job.length) }, [.start t.job.id])
  | .running _ => ({ t with stage := .ended }, [.done t.job.id])
  | .ended => (t, [])
  | .aborted => (t, [])

/-- The flags after the task has been polled: it raises its own when it wakes up. -/
def raise (t : Spawned ι) (flags : List Bool) : List Bool :=
  if t.stage = .asleep then flags.set t.flag true else flags

end Spawned

/-- What a debouncer keeps of the task it has spawned last. -/
structure Alarm.Slot where
  handle : Nat
  flag : Nat
  deriving DecidableEq, Repr

/-- A debouncer with all tasks it has spawned and their flags, each numbered from zero. -/
structure Alarm (ι : Type) where
  now : Nat
  delay : Nat
  pending : Option Alarm.Slot
  tasks : List (Spawned ι)
  flags : List Bool
  deriving DecidableEq, Repr

namespace Alarm

variable {ι : Type}

/-- A debouncer at time zero. -/
def idle (delay : Nat) : Alarm ι :=
  ⟨0, delay, none, [], []⟩

/-- A flag has been raised. -/
def raised (a : Alarm ι) (flag : Nat) : Bool :=
  a.flags[flag]?.getD false

/-- Empties the slot, and aborts its task if the flag has not been raised; tells whether it has done
that. -/
def cancel (a : Alarm ι) : Alarm ι × Bool :=
  match a.pending with
  | some slot =>
    if a.raised slot.flag then ({ a with pending := none }, false)
    else ({ a with pending := none, tasks := a.tasks.modify slot.handle Spawned.abort }, true)
  | none => (a, false)

/-- Spawns a task for a job, in place of the one in the slot. -/
def schedule (a : Alarm ι) (job : Job ι) : Alarm ι :=
  let a := a.cancel.1
  { a with
    pending := some ⟨a.tasks.length, a.flags.length⟩
    tasks := a.tasks ++ [⟨a.now + a.delay, job, a.flags.length, .asleep⟩]
    flags := a.flags ++ [false] }

/-- The debouncer goes, and its tasks stay.  Another one with the same delay takes its place. -/
def drop (a : Alarm ι) : Alarm ι :=
  a.cancel.1

/-- When something happens next. -/
def due? (a : Alarm ι) : Option Nat :=
  a.tasks.foldr (fun t first => Clockwork.earlier? t.next? first) none

/-- Polls the first of some tasks to which something happens now. -/
def pollFirst (now : Nat) (flags : List Bool) :
    List (Spawned ι) → List (Spawned ι) × List Bool × List (JobEvent ι)
  | [] => ([], flags, [])
  | t :: rest =>
    if t.next? = some now then ((t.poll now).1 :: rest, t.raise flags, (t.poll now).2)
    else
      let (rest, flags, seen) := pollFirst now flags rest
      (t :: rest, flags, seen)

/-- Lets the next thing happen. -/
def step (a : Alarm ι) : Alarm ι × List (JobEvent ι) :=
  match a.due? with
  | none => (a, [])
  | some now =>
    let (tasks, flags, seen) := pollFirst now a.flags a.tasks
    ({ a with now, tasks, flags }, seen)

/-- The debouncer with its tasks as a machine with a clock. -/
def clockwork : Clockwork (Alarm ι) (JobEvent ι) where
  due? := due?
  step := step
  remaining a := a.tasks.foldr (fun t n => t.left + n) 0

/-- Lets `ms` milliseconds pass. -/
def advance (a : Alarm ι) (ms : Nat) : Alarm ι × List (JobEvent ι) :=
  let (last, seen) := clockwork.runTo (a.now + ms) a
  ({ last with now := a.now + ms }, seen)

end Alarm

end DialectBridge
