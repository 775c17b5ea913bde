import DialectBridge.Proofs.Timing.Debouncer
import DialectBridge.Timing.Alarm

/-!
# Debouncers never stop a job that has started

A debouncer with its tasks behaves like one that simply holds the job that waits.  What makes this true
is how slot and flags go together: a task sleeps only while the slot points to it, and its flag is
raised just when it has woken up.  So the task that the slot leads to is aborted only in its sleep, and
a stale slot is told from one that is not.

* `Wired` — how the slot, the flags and the tasks go together;
* `Refines` — the job that waits and the jobs that run, read off the tasks;
* `wired_cancel`, `wired_finish`, `wired_wake` — they stay together;
* `refines_cancel`, `refines_schedule`, `refines_step` — one operation, on both sides;
* `refines_move` — a move, on both sides;
* `debouncer_law` — the fate of every job.
-/

namespace DialectBridge

variable {ι : Type}

namespace Spawned

/-- The job that waits in a task. -/
def sleeping? (t : Spawned ι) : Option (Timer (Job ι)) :=
  match t.stage with
  | .asleep => some ⟨t.due, t.job⟩
  | _ => none

/-- The job that runs in a task. -/
def running? (t : Spawned ι) : Option (Timer ι) :=
  match t.stage with
  | .running finish => some ⟨finish, t.job.id⟩
  | _ => none

/-- The task has woken up. -/
def woken (t : Spawned ι) : Bool :=
  match t.stage with
  | .running _ => true
  | .ended => true
  | _ => false

theorem sleeping?_eq_none {t : Spawned ι} (h : t.stage ≠ .asleep) : t.sleeping? = none := by
  unfold sleeping?
  split
  · contradiction
  · rfl

theorem stage_ne_of_woken {t : Spawned ι} (h : t.woken = true) : t.stage ≠ .asleep := by
  intro hstage
  rw [woken, hstage] at h
  cases h

theorem flag_poll (t : Spawned ι) (now : Nat) : (t.poll now).1.flag = t.flag := by
  unfold poll
  split
  · split <;> rfl
  all_goals rfl

theorem woken_poll {t : Spawned ι} (h : t.stage = .asleep) (now : Nat) :
    (t.poll now).1.woken = true := by
  unfold poll
  rw [h]
  simp only
  split <;> rfl

end Spawned

namespace Alarm

open Spawned Workshop

variable {a : Alarm ι} {w : DebouncedShop ι} {now : Nat}

/-! ## Slot, flags and tasks -/

/-- No task sleeps, and a slot that is left is stale. -/
structure Quiet (a : Alarm ι) : Prop where
  awake : ∀ t ∈ a.tasks, t.stage ≠ .asleep
  stale : ∀ slot, a.pending = some slot → a.raised slot.flag = true

/-- The last task sleeps, no other does, and the slot leads to it. -/
structure Armed (a : Alarm ι) (earlier : List (Spawned ι)) (last : Spawned ι) : Prop where
  tasks : a.tasks = earlier ++ [last]
  asleep : last.stage = .asleep
  awake : ∀ t ∈ earlier, t.stage ≠ .asleep
  slot : a.pending = some ⟨earlier.length, earlier.length⟩

/-- Each task has a flag of its own, which is raised just when it has woken up; and if a task sleeps,
the slot leads to it. -/
structure Wired (a : Alarm ι) : Prop where
  flags : a.flags = a.tasks.map woken
  numbered : ∀ (i : Nat) (t : Spawned ι), a.tasks[i]? = some t → t.flag = i
  slot : a.Quiet ∨ ∃ earlier last, a.Armed earlier last

theorem wired_idle (delay : Nat) : (idle delay : Alarm ι).Wired where
  flags := rfl
  numbered i t h := by simp [idle] at h
  slot := .inl ⟨fun t ht => absurd ht List.not_mem_nil, fun slot h => by cases h⟩

theorem Wired.raised (h : a.Wired) {i : Nat} {t : Spawned ι} (ht : a.tasks[i]? = some t) :
    a.raised i = t.woken := by
  simp [Alarm.raised, h.flags, ht]

theorem Armed.raised {earlier : List (Spawned ι)} {last : Spawned ι} (harmed : a.Armed earlier last)
    (h : a.Wired) : a.raised earlier.length = false := by
  have hlast : a.tasks[earlier.length]? = some last := by
    rw [harmed.tasks, List.getElem?_concat_length]
  rw [h.raised hlast, woken, harmed.asleep]

/-- A task that has been polled or aborted keeps its flag. -/
theorem numbered_replace {before after : List (Spawned ι)} {t u : Spawned ι}
    (h : ∀ (i : Nat) (v : Spawned ι), (before ++ t :: after)[i]? = some v → v.flag = i)
    (hflag : u.flag = t.flag) :
    ∀ (i : Nat) (v : Spawned ι), (before ++ u :: after)[i]? = some v → v.flag = i := by
  intro i v hv
  rcases Nat.lt_trichotomy i before.length with hlt | rfl | hgt
  · rw [List.getElem?_append_left hlt] at hv
    exact h i v (by rwa [List.getElem?_append_left hlt])
  · simp only [List.getElem?_append_right (Nat.le_refl _), Nat.sub_self, List.getElem?_cons_zero,
      Option.some.injEq] at hv
    rw [← hv, hflag]
    exact h before.length t (by simp)
  · have hle : before.length ≤ i := Nat.le_of_lt hgt
    obtain ⟨k, hk⟩ : ∃ k, i - before.length = k + 1 := ⟨i - before.length - 1, by omega⟩
    rw [List.getElem?_append_right hle, hk, List.getElem?_cons_succ] at hv
    exact h i v (by rwa [List.getElem?_append_right hle, hk, List.getElem?_cons_succ])

/-! ## What waits and what runs -/

/-- The job that waits and the jobs that run, read off the tasks. -/
structure Refines (a : Alarm ι) (w : DebouncedShop ι) : Prop where
  now : w.now = a.now
  delay : w.timers.delay = a.delay
  waiting : a.tasks.filterMap sleeping? = w.timers.waiting.toList
  running : a.tasks.filterMap running? = w.running

theorem refines_idle (delay : Nat) :
    Refines (idle delay : Alarm ι) (start (.idle delay)) :=
  ⟨rfl, rfl, rfl, rfl⟩

theorem filterMap_sleeping?_of_awake {tasks : List (Spawned ι)}
    (h : ∀ t ∈ tasks, t.stage ≠ .asleep) : tasks.filterMap sleeping? = [] :=
  List.filterMap_eq_nil_iff.mpr fun t ht => sleeping?_eq_none (h t ht)

theorem Refines.waiting_of_quiet (h : Refines a w) (hquiet : a.Quiet) : w.timers.waiting = none := by
  have hnone := h.waiting
  rw [filterMap_sleeping?_of_awake hquiet.awake] at hnone
  cases hwaiting : w.timers.waiting with
  | none => rfl
  | some t => simp [hwaiting] at hnone

theorem Refines.waiting_of_armed (h : Refines a w) {earlier : List (Spawned ι)} {last : Spawned ι}
    (harmed : a.Armed earlier last) : w.timers.waiting = some ⟨last.due, last.job⟩ := by
  have hone := h.waiting
  have hlast : last.sleeping? = some ⟨last.due, last.job⟩ := by rw [sleeping?, harmed.asleep]
  rw [harmed.tasks, List.filterMap_append, filterMap_sleeping?_of_awake harmed.awake,
    List.filterMap_cons, hlast, List.filterMap_nil, List.nil_append] at hone
  cases hwaiting : w.timers.waiting with
  | none => simp [hwaiting] at hone
  | some t => simpa [hwaiting] using hone.symm

/-! ## To cancel and to schedule -/

theorem modify_concat {α : Type} (f : α → α) (earlier : List α) (last : α) :
    (earlier ++ [last]).modify earlier.length f = earlier ++ [f last] := by
  induction earlier with
  | nil => rfl
  | cons x rest ih => rw [List.cons_append, List.length_cons, List.modify_succ_cons, ih]; rfl

/-- A stale slot is emptied, and nothing else happens. -/
theorem cancel_of_quiet (hquiet : a.Quiet) : a.cancel = ({ a with pending := none }, false) := by
  unfold cancel
  split
  · rename_i slot hpending
    rw [if_pos (hquiet.stale slot hpending)]
  · rename_i hpending
    rw [← hpending]

/-- The task that sleeps is aborted. -/
theorem cancel_of_armed (hwired : a.Wired) {earlier : List (Spawned ι)} {last : Spawned ι}
    (harmed : a.Armed earlier last) :
    a.cancel =
      ({ a with pending := none, tasks := earlier ++ [{ last with stage := .aborted }] }, true) := by
  have habort : last.abort = { last with stage := .aborted } := by
    rw [abort, harmed.asleep, if_neg (by decide)]
  have htasks : a.tasks.modify earlier.length Spawned.abort =
      earlier ++ [{ last with stage := .aborted }] := by
    rw [harmed.tasks, modify_concat, habort]
  unfold cancel
  simp only [harmed.slot, harmed.raised hwired, Bool.false_eq_true, if_false, htasks]

theorem wired_cancel (hwired : a.Wired) : a.cancel.1.Wired ∧ a.cancel.1.Quiet := by
  rcases hwired.slot with hquiet | ⟨earlier, last, harmed⟩
  · have hempty : ({ a with pending := none } : Alarm ι).Quiet :=
      ⟨hquiet.awake, fun slot hslot => by cases hslot⟩
    rw [cancel_of_quiet hquiet]
    exact ⟨⟨hwired.flags, hwired.numbered, .inl hempty⟩, hempty⟩
  · have hempty : ({ a with
        pending := none, tasks := earlier ++ [{ last with stage := .aborted }] } : Alarm ι).Quiet := by
      refine ⟨fun t ht => ?_, fun slot hslot => by cases hslot⟩
      rcases List.mem_append.mp ht with ht | ht
      · exact harmed.awake t ht
      · rw [List.mem_singleton.mp ht]
        exact TaskStage.noConfusion
    have hasleep : last.woken = false := by rw [woken, harmed.asleep]
    have hnumbered := hwired.numbered
    rw [harmed.tasks] at hnumbered
    rw [cancel_of_armed hwired harmed]
    refine ⟨⟨?_, numbered_replace hnumbered rfl, .inl hempty⟩, hempty⟩
    rw [hwired.flags, harmed.tasks, List.map_append, List.map_append, List.map_singleton, hasleep]
    rfl

/-- **To cancel** drops the job that waits, tells whether there was one, and stops nothing that runs. -/
theorem refines_cancel (hwired : a.Wired) (h : Refines a w) :
    Refines a.cancel.1 { w with timers := w.timers.cancel.1 } ∧ a.cancel.2 = w.timers.cancel.2 := by
  have hnone := filterMap_sleeping?_of_awake (wired_cancel hwired).2.awake
  rcases hwired.slot with hquiet | ⟨earlier, last, harmed⟩
  · have hwaiting : w.timers.cancel = (Debouncer.idle w.timers.delay, false) := by
      rw [Debouncer.cancel, h.waiting_of_quiet hquiet]
      rfl
    rw [cancel_of_quiet hquiet] at hnone ⊢
    rw [hwaiting]
    exact ⟨⟨h.now, h.delay, hnone, h.running⟩, rfl⟩
  · have hwaiting : w.timers.cancel = (Debouncer.idle w.timers.delay, true) := by
      rw [Debouncer.cancel, h.waiting_of_armed harmed]
      rfl
    have hidle : last.running? = none := by rw [running?, harmed.asleep]
    have hrunning := h.running
    rw [harmed.tasks, List.filterMap_append, List.filterMap_cons, hidle] at hrunning
    rw [cancel_of_armed hwired harmed] at hnone ⊢
    rw [hwaiting]
    refine ⟨⟨h.now, h.delay, hnone, ?_⟩, rfl⟩
    rw [List.filterMap_append]
    exact hrunning

/-- **To schedule** a job replaces the one that waits. -/
theorem refines_schedule (hwired : a.Wired) (h : Refines a w) (job : Job ι) :
    (a.schedule job).Wired ∧
      Refines (a.schedule job) { w with timers := w.timers.schedule w.now job } := by
  obtain ⟨hwired', hquiet⟩ := wired_cancel hwired
  obtain ⟨hrefines, -⟩ := refines_cancel hwired h
  have hlength : a.cancel.1.flags.length = a.cancel.1.tasks.length := by
    rw [hwired'.flags, List.length_map]
  unfold schedule
  simp only [hlength]
  refine ⟨⟨?_, ?_, .inr ⟨a.cancel.1.tasks, _, rfl, rfl, hquiet.awake, rfl⟩⟩,
    ⟨hrefines.now, hrefines.delay, ?_, ?_⟩⟩
  · rw [List.map_append, ← hwired'.flags]
    rfl
  · intro i t ht
    rcases Nat.lt_trichotomy i a.cancel.1.tasks.length with hlt | rfl | hgt
    · rw [List.getElem?_append_left hlt] at ht
      exact hwired'.numbered i t ht
    · rw [List.getElem?_concat_length, Option.some.injEq] at ht
      rw [← ht]
    · rw [List.getElem?_eq_none (by simp; omega)] at ht
      cases ht
  · rw [List.filterMap_append, filterMap_sleeping?_of_awake hquiet.awake, ← hrefines.now,
      ← hrefines.delay]
    rfl
  · rw [List.filterMap_append, hrefines.running]
    exact List.append_nil _

/-! ## Passing time -/

theorem earlier?_assoc (x y z : Option Nat) :
    Clockwork.earlier? (Clockwork.earlier? x y) z =
      Clockwork.earlier? x (Clockwork.earlier? y z) := by
  cases x <;> cases y <;> cases z <;> simp [Clockwork.earlier?, Nat.min_assoc]

theorem earlier?_left_comm (x y z : Option Nat) :
    Clockwork.earlier? x (Clockwork.earlier? y z) =
      Clockwork.earlier? y (Clockwork.earlier? x z) := by
  cases x <;> cases y <;> cases z <;>
    simp [Clockwork.earlier?, Nat.min_left_comm, Nat.min_comm]

/-- What happens next is the first end of a job, or the time of a job that waits. -/
theorem foldr_next? (tasks : List (Spawned ι)) :
    tasks.foldr (fun t first => Clockwork.earlier? t.next? first) none =
      Clockwork.earlier? (firstEnd? (tasks.filterMap running?))
        ((tasks.filterMap sleeping?).foldr (fun t first => Clockwork.earlier? (some t.due) first)
          none) := by
  induction tasks with
  | nil => rfl
  | cons t rest ih =>
    rw [List.foldr_cons, ih]
    cases hstage : t.stage with
    | asleep => simp [next?, running?, sleeping?, hstage, earlier?_left_comm]
    | running finish => simp [next?, running?, sleeping?, hstage, firstEnd?_cons, earlier?_assoc]
    | ended | aborted => simp [next?, running?, sleeping?, hstage, Clockwork.earlier?]

theorem Refines.due? (h : Refines a w) : a.due? = w.due? := by
  have hwaiting : w.timers.waiting.toList.foldr
      (fun t first => Clockwork.earlier? (some t.due) first) none = w.timers.due? := by
    unfold Debouncer.due?
    cases w.timers.waiting <;> rfl
  unfold Alarm.due? Workshop.due?
  rw [foldr_next?, h.running, h.waiting, hwaiting]
  rfl

theorem Refines.remaining (h : Refines a w) :
    clockwork.remaining a = Workshop.clockwork.remaining w := by
  have hleft : ∀ tasks : List (Spawned ι), tasks.foldr (fun t n => t.left + n) 0 =
      2 * (tasks.filterMap sleeping?).length + (tasks.filterMap running?).length := by
    intro tasks
    induction tasks with
    | nil => rfl
    | cons t rest ih =>
      rw [List.foldr_cons, ih]
      cases hstage : t.stage <;> simp [left, running?, sleeping?, hstage] <;> omega
  have harmed : w.timers.waiting.toList.length = Timers.armed w.timers := by
    show _ = if w.timers.waiting.isSome then 1 else 0
    cases w.timers.waiting <;> rfl
  show a.tasks.foldr (fun t n => t.left + n) 0 = 2 * Timers.armed w.timers + w.running.length
  rw [hleft, h.waiting, h.running, harmed]

theorem pollFirst_split {before after : List (Spawned ι)} {t : Spawned ι} (ht : t.next? = some now)
    (hbefore : ∀ u ∈ before, u.next? ≠ some now) (flags : List Bool) :
    pollFirst now flags (before ++ t :: after) =
      (before ++ (t.poll now).1 :: after, t.raise flags, (t.poll now).2) := by
  induction before with
  | nil => rw [List.nil_append, pollFirst, if_pos ht]; rfl
  | cons u before ih =>
    rw [List.cons_append, pollFirst, if_neg (hbefore u List.mem_cons_self),
      ih fun v hv => hbefore v (List.mem_cons_of_mem _ hv)]
    rfl

/-- Something is due only if there is a first task to which it happens. -/
theorem exists_first {tasks : List (Spawned ι)}
    (h : tasks.foldr (fun t first => Clockwork.earlier? t.next? first) none = some now) :
    ∃ before t after, tasks = before ++ t :: after ∧ t.next? = some now ∧
      ∀ u ∈ before, u.next? ≠ some now := by
  induction tasks with
  | nil => cases h
  | cons t rest ih =>
    by_cases ht : t.next? = some now
    · exact ⟨[], t, rest, rfl, ht, fun u hu => absurd hu List.not_mem_nil⟩
    · obtain ⟨before, u, after, rfl, hu, hbefore⟩ :=
        ih ((Clockwork.earlier?_eq_some h).1.resolve_left ht)
      exact ⟨t :: before, u, after, rfl, hu, List.forall_mem_cons.mpr ⟨ht, hbefore⟩⟩

theorem takeEnding_split {before after : List (Timer ι)} {id : ι}
    (hbefore : ∀ t ∈ before, t.due ≠ now) :
    takeEnding now (before ++ ⟨now, id⟩ :: after) = some (id, before ++ after) := by
  induction before with
  | nil => rw [List.nil_append, takeEnding, if_pos rfl]; rfl
  | cons t before ih =>
    rw [List.cons_append, takeEnding, if_neg (hbefore t List.mem_cons_self),
      ih fun u hu => hbefore u (List.mem_cons_of_mem _ hu)]
    rfl

theorem takeEnding_none {running : List (Timer ι)} (h : ∀ t ∈ running, t.due ≠ now) :
    takeEnding now running = none := by
  induction running with
  | nil => rfl
  | cons t rest ih =>
    rw [takeEnding, if_neg (h t List.mem_cons_self), ih fun u hu => h u (List.mem_cons_of_mem _ hu)]
    rfl

theorem due_ne_of_next? {tasks : List (Spawned ι)} (h : ∀ t ∈ tasks, t.next? ≠ some now) :
    ∀ t ∈ tasks.filterMap running?, t.due ≠ now := by
  intro t ht hdue
  obtain ⟨u, hu, hrunning⟩ := List.mem_filterMap.mp ht
  unfold running? at hrunning
  split at hrunning
  · rename_i finish hstage
    cases hrunning
    exact h u hu (by rw [next?, hstage]; exact congrArg some hdue)
  · cases hrunning

/-- A place in a list with a last item is that of the last item, or one before it. -/
theorem split_of_concat {α : Type} {earlier before after : List α} {last x : α}
    (h : earlier ++ [last] = before ++ x :: after) :
    (before = earlier ∧ x = last ∧ after = []) ∨
      ∃ after', after = after' ++ [last] ∧ earlier = before ++ x :: after' := by
  rcases List.eq_nil_or_concat after with rfl | ⟨after', y, rfl⟩
  · obtain ⟨rfl, hlast⟩ := List.append_inj' h rfl
    simp only [List.cons.injEq, and_true] at hlast
    exact .inl ⟨rfl, hlast.symm, rfl⟩
  · rw [List.concat_eq_append] at h ⊢
    have h' : earlier ++ [last] = (before ++ x :: after') ++ [y] := by
      rw [h, List.append_assoc, List.cons_append]
    obtain ⟨hearlier, hlast⟩ := List.append_inj' h' rfl
    simp only [List.cons.injEq, and_true] at hlast
    exact .inr ⟨after', by rw [hlast], hearlier⟩

/-- A task that ends its job leaves the slot to another one. -/
theorem wired_finish (hwired : a.Wired) {before after : List (Spawned ι)} {t : Spawned ι}
    (htasks : a.tasks = before ++ t :: after) {finish : Nat} (hstage : t.stage = .running finish)
    (now : Nat) :
    ({ a with now, tasks := before ++ { t with stage := .ended } :: after } : Alarm ι).Wired := by
  have hwoken : t.woken = true := by rw [woken, hstage]
  have hnumbered := hwired.numbered
  rw [htasks] at hnumbered
  refine ⟨?_, numbered_replace hnumbered rfl, ?_⟩
  · rw [hwired.flags, htasks, List.map_append, List.map_cons, hwoken, List.map_append]
    rfl
  rcases hwired.slot with hquiet | ⟨earlier, last, harmed⟩
  · have hall := hquiet.awake
    simp only [htasks, List.forall_mem_append, List.forall_mem_cons] at hall
    refine .inl ⟨?_, hquiet.stale⟩
    simp only [List.forall_mem_append, List.forall_mem_cons]
    exact ⟨hall.1, TaskStage.noConfusion, hall.2.2⟩
  · -- the task that sleeps is another one, and stays the last
    rcases split_of_concat (harmed.tasks.symm.trans htasks) with ⟨-, rfl, -⟩ | ⟨after', rfl, rfl⟩
    · cases harmed.asleep.symm.trans hstage
    · have hall := harmed.awake
      simp only [List.forall_mem_append, List.forall_mem_cons] at hall
      have hlength : (before ++ { t with stage := .ended } :: after').length =
          (before ++ t :: after').length := by simp
      refine .inr ⟨before ++ { t with stage := .ended } :: after', last, ?_, harmed.asleep, ?_, ?_⟩
      · simp
      · simp only [List.forall_mem_append, List.forall_mem_cons]
        exact ⟨hall.1, TaskStage.noConfusion, hall.2.2⟩
      · rw [hlength]
        exact harmed.slot

/-- A job ends. -/
theorem refines_finish (h : Refines a w) (hdue : a.due? = some now)
    {before after : List (Spawned ι)} {t : Spawned ι} (htasks : a.tasks = before ++ t :: after)
    (hstage : t.stage = .running now) (hbefore : ∀ u ∈ before, u.next? ≠ some now) :
    Refines { a with now, tasks := before ++ { t with stage := .ended } :: after } w.step.1 ∧
      [.done t.job.id] = w.step.2 := by
  have htake : takeEnding now w.running =
      some (t.job.id, before.filterMap running? ++ after.filterMap running?) := by
    have hjob : t.running? = some ⟨now, t.job.id⟩ := by rw [running?, hstage]
    rw [← h.running, htasks, List.filterMap_append, List.filterMap_cons, hjob]
    exact takeEnding_split (due_ne_of_next? hbefore)
  have hstep : w.step = ({ w with
      now := now, running := before.filterMap running? ++ after.filterMap running? },
      [.done t.job.id]) := by
    unfold Workshop.step
    rw [← h.due?, hdue]
    simp only [htake]
  have hawake : t.sleeping? = none := by rw [sleeping?, hstage]
  have hwaiting := h.waiting
  rw [htasks, List.filterMap_append, List.filterMap_cons, hawake] at hwaiting
  rw [hstep]
  refine ⟨⟨rfl, h.delay, ?_, ?_⟩, rfl⟩
  · rw [List.filterMap_append]
    exact hwaiting
  · rw [List.filterMap_append]
    rfl

/-- A task that sleeps is the last one, and the slot leads to it. -/
theorem Wired.armed_of_asleep (hwired : a.Wired) {before after : List (Spawned ι)} {t : Spawned ι}
    (htasks : a.tasks = before ++ t :: after) (hstage : t.stage = .asleep) :
    after = [] ∧ a.Armed before t := by
  rcases hwired.slot with hquiet | ⟨earlier, last, harmed⟩
  · exact absurd hstage (hquiet.awake t (by simp [htasks]))
  · rcases split_of_concat (harmed.tasks.symm.trans htasks) with ⟨rfl, rfl, rfl⟩ | ⟨after', -, rfl⟩
    · exact ⟨rfl, harmed⟩
    · exact absurd hstage (harmed.awake t (by simp))

theorem Armed.awake_poll {earlier : List (Spawned ι)} {last : Spawned ι}
    (harmed : a.Armed earlier last) (now : Nat) :
    ∀ t ∈ earlier ++ [(last.poll now).1], t.stage ≠ .asleep := by
  rw [List.forall_mem_append, List.forall_mem_singleton]
  exact ⟨harmed.awake, stage_ne_of_woken (woken_poll harmed.asleep now)⟩

/-- The task that wakes up raises the flag of the slot, which is stale from then on. -/
theorem wired_wake (hwired : a.Wired) {earlier : List (Spawned ι)} {last : Spawned ι}
    (harmed : a.Armed earlier last) (now : Nat) :
    ({ a with
      now, tasks := earlier ++ [(last.poll now).1], flags := last.raise a.flags } : Alarm ι).Wired := by
  have hnumbered := hwired.numbered
  rw [harmed.tasks] at hnumbered
  have hflags : last.raise a.flags = earlier.map woken ++ [true] := by
    have hflag : last.flag = earlier.length := hnumbered earlier.length last (by simp)
    have hasleep : last.woken = false := by rw [woken, harmed.asleep]
    rw [raise, if_pos harmed.asleep, hwired.flags, harmed.tasks, hflag, List.map_append,
      List.map_singleton, hasleep, List.set_append_right _ _ (by simp), List.length_map, Nat.sub_self]
    rfl
  refine ⟨?_, numbered_replace hnumbered (flag_poll last now), .inl ⟨harmed.awake_poll now, ?_⟩⟩
  · rw [hflags, List.map_append, List.map_singleton, woken_poll harmed.asleep]
  · intro slot hpending
    obtain rfl : (⟨earlier.length, earlier.length⟩ : Slot) = slot :=
      Option.some.inj (harmed.slot.symm.trans hpending)
    show (last.raise a.flags)[earlier.length]?.getD false = true
    rw [hflags]
    simp

/-- A job starts, and ends at once if it takes no time. -/
theorem refines_wake (h : Refines a w) (hdue : a.due? = some now)
    {earlier : List (Spawned ι)} {last : Spawned ι} (harmed : a.Armed earlier last)
    (hearlier : ∀ t ∈ earlier, t.next? ≠ some now) :
    Refines { a with
        now, tasks := earlier ++ [(last.poll now).1], flags := last.raise a.flags } w.step.1 ∧
      (last.poll now).2 = w.step.2 := by
  have hrunning : w.running = earlier.filterMap running? := by
    have hidle : last.running? = none := by rw [running?, harmed.asleep]
    rw [← h.running, harmed.tasks, List.filterMap_append, List.filterMap_cons, hidle]
    exact List.append_nil _
  have htake : takeEnding now w.running = none := by
    rw [hrunning]
    exact takeEnding_none (due_ne_of_next? hearlier)
  have hfire : Timers.fire w.timers = (Debouncer.idle w.timers.delay, some last.job) := by
    show Debouncer.fire w.timers = _
    rw [Debouncer.fire, h.waiting_of_armed harmed]
    rfl
  have hnone := filterMap_sleeping?_of_awake (harmed.awake_poll now)
  unfold Workshop.step
  rw [← h.due?, hdue]
  simp only [htake, hfire]
  by_cases hlength : last.job.length = 0
  · have heq : last.poll now =
        ({ last with stage := .ended }, [.start last.job.id, .done last.job.id]) := by
      rw [poll, harmed.asleep]
      simp only [hlength, if_true]
    rw [heq] at hnone ⊢
    rw [if_pos hlength]
    refine ⟨⟨rfl, h.delay, hnone, ?_⟩, rfl⟩
    rw [List.filterMap_append, hrunning]
    exact List.append_nil _
  · have heq : last.poll now =
        ({ last with stage := .running (now + last.job.length) }, [.start last.job.id]) := by
      rw [poll, harmed.asleep]
      simp only [hlength, if_false]
    rw [heq] at hnone ⊢
    rw [if_neg hlength]
    refine ⟨⟨rfl, h.delay, hnone, ?_⟩, rfl⟩
    rw [List.filterMap_append, hrunning]
    rfl

/-- **The next thing that happens** is the same with the tasks and without them. -/
theorem refines_step (hwired : a.Wired) (h : Refines a w) (hdue : a.due? = some now) :
    a.step.1.Wired ∧ Refines a.step.1 w.step.1 ∧ a.step.2 = w.step.2 := by
  obtain ⟨before, t, after, htasks, ht, hbefore⟩ := exists_first hdue
  have hstep : a.step = ({ a with
      now, tasks := before ++ (t.poll now).1 :: after, flags := t.raise a.flags },
      (t.poll now).2) := by
    unfold step
    rw [hdue]
    simp only [htasks, pollFirst_split ht hbefore]
  rw [hstep]
  cases hstage : t.stage with
  | asleep =>
    obtain ⟨rfl, harmed⟩ := hwired.armed_of_asleep htasks hstage
    exact ⟨wired_wake hwired harmed now, refines_wake h hdue harmed hbefore⟩
  | running finish =>
    obtain rfl : finish = now := by simpa [next?, hstage] using ht
    have hpoll : t.poll finish = ({ t with stage := .ended }, [.done t.job.id]) := by
      rw [poll, hstage]
    have hraise : t.raise a.flags = a.flags := by
      rw [raise, hstage, if_neg TaskStage.noConfusion]
    rw [hpoll, hraise]
    exact ⟨wired_finish hwired htasks hstage finish, refines_finish h hdue htasks hstage hbefore⟩
  | ended | aborted => simp [next?, hstage] at ht

/-- Letting the clock run, with the tasks and without them. -/
theorem refines_run (limit fuel : Nat) (hwired : a.Wired) (h : Refines a w) :
    (clockwork.stamped.run limit fuel a).1.Wired ∧
      Refines (clockwork.stamped.run limit fuel a).1
        (Workshop.clockwork.stamped.run limit fuel w).1 ∧
      (clockwork.stamped.run limit fuel a).2 = (Workshop.clockwork.stamped.run limit fuel w).2 := by
  induction fuel generalizing a w with
  | zero => exact ⟨hwired, h, rfl⟩
  | succ fuel ih =>
    by_cases hstill : ∀ due, a.due? = some due → limit < due
    · rw [Clockwork.run_still (c := clockwork.stamped) hstill,
        Clockwork.run_still (c := Workshop.clockwork.stamped) fun due hdue =>
          hstill due (h.due?.trans hdue)]
      exact ⟨hwired, h, rfl⟩
    · obtain ⟨due, hdue, hle⟩ : ∃ due, a.due? = some due ∧ due ≤ limit := by simpa using hstill
      have hdue' : w.due? = some due := h.due? ▸ hdue
      obtain ⟨hwired', h', hseen⟩ := refines_step hwired h hdue
      obtain ⟨hlast, hrefines, hlater⟩ := ih hwired' h'
      rw [Clockwork.run_due (c := clockwork.stamped) hdue hle,
        Clockwork.run_due (c := Workshop.clockwork.stamped) hdue' hle]
      refine ⟨hlast, hrefines, ?_⟩
      have hnow : (clockwork.stamped.step a).2 = (Workshop.clockwork.stamped.step w).2 := by
        simp only [Clockwork.stamped, clockwork, Workshop.clockwork, hdue, hdue', hseen]
      rw [hnow]
      exact congrArg _ hlater

/-! ## Histories -/

/-- The debouncer and its tasks after a move. -/
def move (a : Alarm ι) : Move ι → Alarm ι
  | .schedule job => a.schedule job
  | .cancel => a.cancel.1
  | .drop => a.drop
  | .pass ms => (a.advance ms).1

/-- What is told of the jobs during a move. -/
def told (a : Alarm ι) : Move ι → List (JobEvent ι)
  | .pass ms => (a.advance ms).2
  | _ => []

/-- What is told of the jobs during a move, by time. -/
def seen (a : Alarm ι) : Move ι → List (Nat × JobEvent ι)
  | .pass ms => (clockwork.stamped.runTo (a.now + ms) a).2
  | _ => []

/-- The debouncer and its tasks after a history. -/
def after (a : Alarm ι) (history : List (Move ι)) : Alarm ι :=
  history.foldl move a

/-- What is told of the jobs during a history, by time. -/
def log (a : Alarm ι) : List (Move ι) → List (Nat × JobEvent ι)
  | [] => []
  | m :: rest => a.seen m ++ (a.move m).log rest

/-- What is told of the jobs during a history. -/
def report (a : Alarm ι) : List (Move ι) → List (JobEvent ι)
  | [] => []
  | m :: rest => a.told m ++ (a.move m).report rest

/-- **A move**, with the tasks and without them. -/
theorem refines_move (hwired : a.Wired) (h : Refines a w) (m : Move ι) :
    (a.move m).Wired ∧ Refines (a.move m) (w.move m) ∧ a.seen m = w.seen m := by
  cases m with
  | schedule job =>
    obtain ⟨hwired', hrefines⟩ := refines_schedule hwired h job
    exact ⟨hwired', hrefines, rfl⟩
  | cancel | drop =>
    exact ⟨(wired_cancel hwired).1, (refines_cancel hwired h).1, rfl⟩
  | pass ms =>
    obtain ⟨hwired', hrefines, hseen⟩ :=
      refines_run (a.now + ms) (clockwork.remaining a) hwired h
    have hstamp := (Clockwork.run_stamped clockwork (a.now + ms) (clockwork.remaining a) a).1
    have hstamp' := (Clockwork.run_stamped Workshop.clockwork (a.now + ms)
      (clockwork.remaining a) w).1
    rw [hstamp] at hwired' hrefines
    rw [hstamp', h.remaining, ← h.now] at hrefines
    rw [h.remaining, ← h.now] at hwired'
    have hadvance : (a.move (.pass ms)) = { (clockwork.run (w.now + ms)
        (Workshop.clockwork.remaining w) a).1 with now := w.now + ms } := by
      rw [← h.remaining, h.now]
      rfl
    rw [hadvance]
    refine ⟨⟨hwired'.flags, hwired'.numbered, ?_⟩,
      ⟨rfl, hrefines.delay, hrefines.waiting, hrefines.running⟩, ?_⟩
    · rcases hwired'.slot with hquiet | ⟨earlier, last, harmed⟩
      · exact .inl ⟨hquiet.awake, hquiet.stale⟩
      · exact .inr ⟨earlier, last, harmed.tasks, harmed.asleep, harmed.awake, harmed.slot⟩
    · show (clockwork.stamped.run (a.now + ms) (clockwork.remaining a) a).2 =
        (Workshop.clockwork.stamped.run (w.now + ms) (Workshop.clockwork.remaining w) w).2
      rw [hseen, h.remaining, h.now]

theorem refines_after (hwired : a.Wired) (h : Refines a w) (history : List (Move ι)) :
    (a.after history).Wired ∧ Refines (a.after history) (w.after history) := by
  induction history generalizing a w with
  | nil => exact ⟨hwired, h⟩
  | cons m rest ih =>
    obtain ⟨hwired', hrefines, -⟩ := refines_move hwired h m
    exact ih hwired' hrefines

theorem log_eq (hwired : a.Wired) (h : Refines a w) (history : List (Move ι)) :
    a.log history = w.log history := by
  induction history generalizing a w with
  | nil => rfl
  | cons m rest ih =>
    obtain ⟨hwired', hrefines, hseen⟩ := refines_move hwired h m
    rw [log, Workshop.log, hseen, ih hwired' hrefines]

theorem map_snd_log (a : Alarm ι) (history : List (Move ι)) :
    (a.log history).map (·.2) = a.report history := by
  induction history generalizing a with
  | nil => rfl
  | cons m rest ih =>
    have htold : (a.seen m).map (·.2) = a.told m := by
      cases m with
      | pass ms => exact (Clockwork.run_stamped clockwork (a.now + ms) _ a).2
      | schedule job | cancel | drop => rfl
    rw [log, report, List.map_append, htold, ih]

/-! ## The law -/

/-- A task whose flag is raised is not aborted. -/
theorem Wired.stage_of_raised (h : a.Wired) {t : Spawned ι} (ht : t ∈ a.tasks)
    (hraised : a.raised t.flag = true) :
    t.stage = .ended ∨ ∃ finish, t.stage = .running finish := by
  obtain ⟨i, hi⟩ := List.mem_iff_getElem?.mp ht
  rw [h.numbered i t hi, h.raised hi, woken] at hraised
  cases hstage : t.stage with
  | ended => exact .inl rfl
  | running finish => exact .inr ⟨finish, rfl⟩
  | asleep | aborted => simp [hstage] at hraised

/-- **The fate of every job.**  Let nothing be done just when a job is due that has been left alone.

1. The jobs that start are those that are left alone until they are due; each starts once, when it
   is due, in the order in which they were scheduled.
2. Each of them ends when its time has passed, whatever is done in the meantime: a task whose flag is
   raised is never aborted, it is over or still has to end.
3. The task that sleeps at the end is that of the job that is left alone and is not due yet; there is
   at most one.
4. To cancel tells whether there is such a job, also if the slot is stale.  What starts afterwards has
   been scheduled afterwards. -/
theorem debouncer_law (delay : Nat) (history : List (Move ι))
    (hapart : ∀ s ∈ scheduled delay 0 history, s.Apart delay (clock 0 history)) :
    let a : Alarm ι := idle delay
    let stop := clock 0 history
    let started := (scheduled delay 0 history).filter (·.Starts stop)
    let waiting := (scheduled delay 0 history).filter (·.Waits stop)
    (a.log history).map (·.2) = a.report history ∧
    starts (a.log history) = started.map (fun s => (s.timer.due, s.timer.job.id)) ∧
    (ends (a.log history)).Perm
      ((started.map fun s => (s.timer.due + s.timer.job.length, s.timer.job.id)).filter
        (·.1 ≤ stop)) ∧
    (∀ t ∈ (a.after history).tasks, (a.after history).raised t.flag = true →
      t.stage = .ended ∨ ∃ finish, t.stage = .running finish ∧ stop < finish) ∧
    (a.after history).tasks.filterMap sleeping? = waiting.map (·.timer) ∧ waiting.length ≤ 1 ∧
    ∀ before later, history = before ++ .cancel :: later →
      ((a.after before).cancel.2 = true ↔
        ∃ s ∈ scheduled delay 0 before, s.Waits (clock 0 before)) ∧
      starts (a.log history) = starts (a.log before) ++
        ((scheduled delay (clock 0 before) later).filter (·.Starts stop)).map
          (fun s => (s.timer.due, s.timer.job.id)) := by
  intro a stop started waiting
  have hwired : a.Wired := wired_idle delay
  have hrefines : Refines a (start (.idle delay)) := refines_idle delay
  obtain ⟨-, hstarts, hends, hwaiting, hone, hcancel⟩ := history_law delay history hapart
  obtain ⟨hwired', hrefines'⟩ := refines_after hwired hrefines history
  rw [log_eq hwired hrefines]
  refine ⟨?_, hstarts, hends, ?_, hrefines'.waiting.trans hwaiting, hone, ?_⟩
  · rw [← log_eq hwired hrefines]
    exact map_snd_log a history
  · intro t ht hraised
    rcases hwired'.stage_of_raised ht hraised with hover | ⟨finish, hrunning⟩
    · exact .inl hover
    · refine .inr ⟨finish, hrunning, ?_⟩
      have hready : Ready delay (Workshop.after (start (.idle delay)) history) ([] : List (Move ι)) :=
        Ready.after (by rw [List.append_nil]; exact ready_start hapart)
      have hjob : t.running? = some ⟨finish, t.job.id⟩ := by rw [running?, hrunning]
      have hmem : (⟨finish, t.job.id⟩ : Timer ι) ∈
          (Workshop.after (start (.idle delay)) history).running := by
        rw [← hrefines'.running]
        exact List.mem_filterMap.mpr ⟨t, ht, hjob⟩
      have hlate := hready.running_gt _ hmem
      rwa [now_after] at hlate
  · intro before later hhistory
    obtain ⟨htells, hrest⟩ := hcancel before later hhistory
    obtain ⟨hbefore, hrefines''⟩ := refines_after hwired hrefines before
    rw [(refines_cancel hbefore hrefines'').2, log_eq hwired hrefines]
    exact ⟨htells, hrest⟩

/-- Six jobs: the first is replaced, the third cancelled and the fourth dropped; the second and the
fifth run, and the sixth waits. -/
def crowdedHistory : List (Move Nat) :=
  [.schedule ⟨1, 250⟩, .pass 40, .schedule ⟨2, 250⟩, .pass 150, .schedule ⟨3, 5⟩, .pass 10, .cancel,
    .schedule ⟨4, 0⟩, .pass 50, .drop, .pass 20, .schedule ⟨5, 100⟩, .pass 150, .cancel,
    .schedule ⟨6, 1⟩, .pass 60]

/-- The slot of the fifth job is stale when it is cancelled, and the job runs on. -/
theorem debouncer_law_crowdedHistory :
    let a : Alarm Nat := idle 100
    (∀ s ∈ scheduled 100 0 crowdedHistory, s.Apart 100 (clock 0 crowdedHistory)) ∧
    starts (a.log crowdedHistory) = [(140, 2), (370, 5)] ∧
    (ends (a.log crowdedHistory)).Perm [(390, 2), (470, 5)] ∧
    (a.after crowdedHistory).tasks.filterMap sleeping? = [⟨520, ⟨6, 1⟩⟩] ∧
    (a.after (crowdedHistory.take 6)).cancel.2 = true ∧
    (a.after (crowdedHistory.take 13)).pending.isSome = true ∧
    ¬(a.after (crowdedHistory.take 13)).cancel.2 = true := by
  intro a
  have hapart : ∀ s ∈ scheduled 100 0 crowdedHistory, s.Apart 100 (clock 0 crowdedHistory) := by
    decide
  have hstarted : (scheduled 100 0 crowdedHistory).filter (·.Starts (clock 0 crowdedHistory)) =
      [⟨⟨140, ⟨2, 250⟩⟩, [190, 200, 200, 250, 270, 420, 420]⟩, ⟨⟨370, ⟨5, 100⟩⟩, [420, 420]⟩] := by
    rfl
  have hwaits : (scheduled 100 0 crowdedHistory).filter (·.Waits (clock 0 crowdedHistory)) =
      [⟨⟨520, ⟨6, 1⟩⟩, []⟩] := by
    rfl
  obtain ⟨-, hstarts, hends, -, hwaiting, -, hcancel⟩ := debouncer_law 100 crowdedHistory hapart
  simp only [hstarted, hwaits] at hstarts hends hwaiting
  have hfirst := hcancel (crowdedHistory.take 6) (crowdedHistory.drop 7) rfl
  have hsecond := hcancel (crowdedHistory.take 13) (crowdedHistory.drop 14) rfl
  have hstale : (a.after (crowdedHistory.take 13)).pending.isSome = true := by decide +kernel
  refine ⟨hapart, hstarts, hends, ?_, hfirst.1.mpr (by decide), hstale, ?_⟩
  · rw [hwaiting, List.map_singleton]
  · exact mt hsecond.1.mp (by decide)

end Alarm

end DialectBridge
