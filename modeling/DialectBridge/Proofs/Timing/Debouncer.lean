import DialectBridge.Proofs.Timing.Workshop

/-!
# What becomes of the jobs of a debouncer

A debouncer is used again and again: jobs are scheduled, cancelled, the debouncer itself is dropped
for a new one, and time passes in between.  What becomes of a job can be told from the times at
which the debouncer is used after it.  If it is used before the job is due, the job never starts;
else it starts when it is due, and nothing stops it then.

* `Scheduled`, `scheduled` — the jobs of a history, with the uses that come after them;
* `Ready.move` — one move settles the jobs it settles, and leaves the rest to the moves after it;
* `starts_log`, `ends_log`, `waiting_after` — what a whole history comes to;
* `history_law` — the fate of every job.
-/

namespace DialectBridge

variable {ι : Type}

namespace Workshop

/-! ## Histories -/

/-- What is done with a debouncer, and the time that passes. -/
inductive Move (ι : Type) where
  | schedule (job : Job ι)
  | cancel
  /-- The debouncer goes, and another one comes in its place. -/
  | drop
  | pass (ms : Nat)
  deriving DecidableEq, Repr

/-- The workshop after a move. -/
def move (w : DebouncedShop ι) : Move ι → DebouncedShop ι
  | .schedule job => { w with timers := w.timers.schedule w.now job }
  | .cancel => { w with timers := w.timers.cancel.1 }
  | .drop => { w with timers := w.timers.cancel.1 }
  | .pass ms => (w.advance ms).1

/-- What is told of the jobs during a move. -/
def told (w : DebouncedShop ι) : Move ι → List (JobEvent ι)
  | .pass ms => (w.advance ms).2
  | _ => []

/-- What is told of the jobs during a move, by time. -/
def seen (w : DebouncedShop ι) : Move ι → List (Nat × JobEvent ι)
  | .pass ms => (clockwork.stamped.runTo (w.now + ms) w).2
  | _ => []

/-- The workshop after a history. -/
def after (w : DebouncedShop ι) (history : List (Move ι)) : DebouncedShop ι :=
  history.foldl move w

/-- What is told of the jobs during a history, by time. -/
def log (w : DebouncedShop ι) : List (Move ι) → List (Nat × JobEvent ι)
  | [] => []
  | m :: rest => w.seen m ++ (w.move m).log rest

/-- What is told of the jobs during a history. -/
def report (w : DebouncedShop ι) : List (Move ι) → List (JobEvent ι)
  | [] => []
  | m :: rest => w.told m ++ (w.move m).report rest

/-- The time at the end of a history that begins at `now`. -/
def clock (now : Nat) : List (Move ι) → Nat
  | [] => now
  | .schedule _ :: rest => clock now rest
  | .cancel :: rest => clock now rest
  | .drop :: rest => clock now rest
  | .pass ms :: rest => clock (now + ms) rest

/-- The times at which the debouncer is used: a job is scheduled or cancelled, or the debouncer is
dropped. -/
def uses (now : Nat) : List (Move ι) → List Nat
  | [] => []
  | .schedule _ :: rest => now :: uses now rest
  | .cancel :: rest => now :: uses now rest
  | .drop :: rest => now :: uses now rest
  | .pass ms :: rest => uses (now + ms) rest

/-- A job that has been scheduled, and the times at which the debouncer is used after that. -/
structure Scheduled (ι : Type) where
  timer : Timer (Job ι)
  later : List Nat

/-- The jobs that are scheduled in a history, each to be due after the delay. -/
def scheduled (delay now : Nat) : List (Move ι) → List (Scheduled ι)
  | [] => []
  | .schedule job :: rest => ⟨⟨now + delay, job⟩, uses now rest⟩ :: scheduled delay now rest
  | .cancel :: rest => scheduled delay now rest
  | .drop :: rest => scheduled delay now rest
  | .pass ms :: rest => scheduled delay (now + ms) rest

namespace Scheduled

/-- The debouncer is used again before the job is due. -/
def Overtaken (a : Scheduled ι) : Prop :=
  ∃ time ∈ a.later, time < a.timer.due

/-- The job starts by the time `stop`: it is left alone until it is due. -/
def Starts (stop : Nat) (a : Scheduled ι) : Prop :=
  ¬a.Overtaken ∧ a.timer.due ≤ stop

/-- The job still waits at the time `stop`: it is left alone, and not due yet. -/
def Waits (stop : Nat) (a : Scheduled ι) : Prop :=
  ¬a.Overtaken ∧ stop < a.timer.due

/-- If the job is left alone until it is due, the debouncer is not used just then.  Without a delay
the job is due when it is scheduled, but waits for the clock; then `stop` is not that time
either. -/
def Apart (delay stop : Nat) (a : Scheduled ι) : Prop :=
  a.Overtaken ∨ a.timer.due ∉ a.later ∧ (a.timer.due = stop → 0 < delay)

instance (a : Scheduled ι) : Decidable a.Overtaken :=
  inferInstanceAs (Decidable (∃ time ∈ a.later, time < a.timer.due))

instance (stop : Nat) (a : Scheduled ι) : Decidable (a.Starts stop) :=
  inferInstanceAs (Decidable (_ ∧ _))

instance (stop : Nat) (a : Scheduled ι) : Decidable (a.Waits stop) :=
  inferInstanceAs (Decidable (_ ∧ _))

instance (delay stop : Nat) (a : Scheduled ι) : Decidable (a.Apart delay stop) :=
  inferInstanceAs (Decidable (_ ∨ _))

end Scheduled

variable {w : DebouncedShop ι} {delay now : Nat} {history rest : List (Move ι)} {m : Move ι}

/-! ## Times -/

theorem le_clock (now : Nat) (history : List (Move ι)) : now ≤ clock now history := by
  induction history generalizing now with
  | nil => exact Nat.le_refl now
  | cons m rest ih =>
    cases m with
    | schedule job => exact ih now
    | cancel => exact ih now
    | drop => exact ih now
    | pass ms => exact Nat.le_trans (Nat.le_add_right now ms) (ih (now + ms))

theorem le_of_mem_uses {time : Nat} (h : time ∈ uses now history) : now ≤ time := by
  induction history generalizing now with
  | nil => cases h
  | cons m rest ih =>
    cases m with
    | pass ms => exact Nat.le_trans (Nat.le_add_right now ms) (ih h)
    | schedule job | cancel | drop =>
      rcases List.mem_cons.mp h with rfl | h
      · exact Nat.le_refl _
      · exact ih h

theorem le_clock_of_mem_uses {time : Nat} (h : time ∈ uses now history) :
    time ≤ clock now history := by
  induction history generalizing now with
  | nil => cases h
  | cons m rest ih =>
    cases m with
    | pass ms => exact ih h
    | schedule job | cancel | drop =>
      rcases List.mem_cons.mp h with rfl | h
      · exact le_clock _ rest
      · exact ih h

/-- The uses after a job come before the end. -/
theorem later_le_clock {a : Scheduled ι} (h : a ∈ scheduled delay now history) {time : Nat}
    (htime : time ∈ a.later) : time ≤ clock now history := by
  induction history generalizing now with
  | nil => cases h
  | cons m rest ih =>
    cases m with
    | pass ms | cancel | drop => exact ih h
    | schedule job =>
      rcases List.mem_cons.mp h with rfl | h
      · show time ≤ clock now rest
        exact le_clock_of_mem_uses htime
      · exact ih h

theorem clock_append (now : Nat) (before rest : List (Move ι)) :
    clock now (before ++ rest) = clock (clock now before) rest := by
  induction before generalizing now with
  | nil => rfl
  | cons m before ih => cases m <;> exact ih _

theorem uses_append (now : Nat) (before rest : List (Move ι)) :
    uses now (before ++ rest) = uses now before ++ uses (clock now before) rest := by
  induction before generalizing now with
  | nil => rfl
  | cons m before ih =>
    cases m with
    | pass ms => exact ih (now + ms)
    | schedule job | cancel | drop => exact congrArg (now :: ·) (ih now)

/-- A job of a history goes on to be one when the history goes on; there are more uses after it. -/
theorem scheduled_append (delay now : Nat) (before rest : List (Move ι)) :
    scheduled delay now (before ++ rest) =
      (scheduled delay now before).map
          (fun a => ⟨a.timer, a.later ++ uses (clock now before) rest⟩) ++
        scheduled delay (clock now before) rest := by
  induction before generalizing now with
  | nil => rfl
  | cons m before ih =>
    cases m with
    | pass ms => exact ih (now + ms)
    | cancel | drop => exact ih now
    | schedule job =>
      show (⟨⟨now + delay, job⟩, uses now (before ++ rest)⟩ : Scheduled ι) ::
        scheduled delay now (before ++ rest) = _
      rw [ih now, uses_append]
      rfl

/-! ## One move -/

/-- The job that waits now and the jobs that are scheduled in a history from now on. -/
def agenda (delay : Nat) (w : DebouncedShop ι) (history : List (Move ι)) : List (Scheduled ι) :=
  w.timers.waiting.toList.map (fun t => ⟨t, uses w.now history⟩) ++ scheduled delay w.now history

/-- A workshop with nothing overdue, ahead of a history in which nothing is done when a job is
due. -/
structure Ready (delay : Nat) (w : DebouncedShop ι) (history : List (Move ι)) : Prop where
  delay_eq : w.timers.delay = delay
  waiting_ge : ∀ t, w.timers.waiting = some t → w.now ≤ t.due
  waiting_gt : 0 < delay → ∀ t, w.timers.waiting = some t → w.now < t.due
  running_gt : ∀ t ∈ w.running, w.now < t.due
  apart : ∀ a ∈ agenda delay w history, a.Apart delay (clock w.now history)

/-- What a move settles, of the jobs on the agenda: those in `past`. -/
structure Settles (delay : Nat) (w : DebouncedShop ι) (m : Move ι) (rest : List (Move ι))
    (past : List (Scheduled ι)) : Prop where
  agenda_eq : agenda delay w (m :: rest) = past ++ agenda delay (w.move m) rest
  not_waits : ∀ a ∈ past, ¬a.Waits (clock w.now (m :: rest))
  starts_eq : starts (w.seen m) =
    (past.filter (·.Starts (clock w.now (m :: rest)))).map fun a => startOf a.timer
  ends_perm : (ends (w.seen m) ++ endings (w.move m).running).Perm
    (endings w.running ++
      (past.filter (·.Starts (clock w.now (m :: rest)))).map fun a => endOf a.timer)
  ends_le : ∀ ended ∈ ends (w.seen m), ended.1 ≤ (w.move m).now

/-- A use of the debouncer overtakes the job that waits. -/
theorem settles_use (h : Ready delay w (m :: rest))
    (huses : uses w.now (m :: rest) = w.now :: uses w.now rest) (hseen : w.seen m = [])
    (hrunning : (w.move m).running = w.running)
    (hagenda : agenda delay (w.move m) rest = scheduled delay w.now (m :: rest)) :
    Settles delay w m rest
      (w.timers.waiting.toList.map fun t => ⟨t, uses w.now (m :: rest)⟩) := by
  have hovertaken : ∀ a ∈ w.timers.waiting.toList.map fun t =>
      (⟨t, uses w.now (m :: rest)⟩ : Scheduled ι), a.Overtaken := by
    intro a ha
    rcases h.apart a (List.mem_append_left _ ha) with hovertaken | ⟨hapart, -⟩
    · exact hovertaken
    · obtain ⟨t, ht, rfl⟩ := List.mem_map.mp ha
      have hge := h.waiting_ge t (Option.mem_toList.mp ht)
      have hnow : w.now ∈ uses w.now (m :: rest) := huses ▸ List.mem_cons_self
      have hne : w.now ≠ t.due := fun heq => hapart (heq ▸ hnow)
      exact ⟨w.now, hnow, Nat.lt_of_le_of_ne hge hne⟩
  have hnone : (w.timers.waiting.toList.map fun t =>
      (⟨t, uses w.now (m :: rest)⟩ : Scheduled ι)).filter
        (fun a => a.Starts (clock w.now (m :: rest))) = [] := by
    refine List.filter_eq_nil_iff.mpr fun a ha => ?_
    simpa using fun hstarts : a.Starts _ => hstarts.1 (hovertaken a ha)
  refine ⟨?_, fun a ha hwaits => hwaits.1 (hovertaken a ha), ?_, ?_, ?_⟩
  · rw [hagenda]
    rfl
  · rw [hnone, hseen]
    rfl
  · rw [hnone, hseen, hrunning, List.map_nil, List.append_nil]
    exact List.Perm.refl _
  · rw [hseen]
    intro ended hended
    cases hended

/-- What happens while time passes. -/
theorem passes_move (w : DebouncedShop ι) (ms : Nat) :
    Passes (w.now + ms) w (w.move (.pass ms)) (w.seen (.pass ms)) := by
  have hrun := passes_run (w.now + ms) (Nat.le_refl (clockwork.remaining w))
  rw [(Clockwork.run_stamped clockwork (w.now + ms) _ w).1] at hrun
  exact ⟨hrun.timers_eq, hrun.starts_eq, hrun.ends_perm, hrun.ends_le, hrun.running_gt⟩

/-- A timer is due by a time, or it is not. -/
theorem toList_eq_due_append_late {α : Type} (limit : Nat) (waiting : Option (Timer α)) :
    waiting.toList =
      waiting.toList.filter (·.due ≤ limit) ++ (waiting.filter (limit < ·.due)).toList := by
  cases waiting with
  | none => rfl
  | some t =>
    by_cases hdue : t.due ≤ limit
    · rw [Option.filter_some_neg (by simpa using hdue)]
      simp [hdue]
    · rw [Option.filter_some_pos (by simpa using hdue)]
      simp [hdue]

/-- Passing time settles the job that comes due, and leaves it to wait otherwise. -/
theorem settles_pass (delay : Nat) (w : DebouncedShop ι) (ms : Nat) (rest : List (Move ι)) :
    Settles delay w (.pass ms) rest
      ((w.timers.waiting.toList.filter (·.due ≤ w.now + ms)).map fun t =>
        ⟨t, uses (w.now + ms) rest⟩) := by
  have hpasses := passes_move w ms
  have hstop : w.now + ms ≤ clock w.now (.pass ms :: rest) := le_clock (w.now + ms) rest
  have hstarts : ∀ a ∈ (w.timers.waiting.toList.filter (·.due ≤ w.now + ms)).map fun t =>
      (⟨t, uses (w.now + ms) rest⟩ : Scheduled ι), a.Starts (clock w.now (.pass ms :: rest)) := by
    intro a ha
    obtain ⟨t, ht, rfl⟩ := List.mem_map.mp ha
    have hdue : t.due ≤ w.now + ms := by simpa using (List.mem_filter.mp ht).2
    refine ⟨?_, Nat.le_trans hdue hstop⟩
    rintro ⟨time, htime, hless⟩
    have hge := le_of_mem_uses htime
    exact absurd (Nat.lt_of_lt_of_le hless hdue) (Nat.not_lt.mpr hge)
  have hall := List.filter_eq_self.mpr fun a ha => decide_eq_true (hstarts a ha)
  refine ⟨?_, ?_, ?_, ?_, hpasses.ends_le⟩
  · have hwaiting : (w.move (.pass ms)).timers.waiting =
        w.timers.waiting.filter (w.now + ms < ·.due) := by rw [hpasses.timers_eq]
    show w.timers.waiting.toList.map (fun t => ⟨t, uses (w.now + ms) rest⟩) ++
        scheduled delay (w.now + ms) rest =
      _ ++ ((w.move (.pass ms)).timers.waiting.toList.map (fun t => ⟨t, uses (w.now + ms) rest⟩) ++
        scheduled delay (w.now + ms) rest)
    rw [hwaiting, ← List.append_assoc, ← List.map_append, ← toList_eq_due_append_late]
  · intro a ha hwaits
    have := (hstarts a ha).2
    have := hwaits.2
    omega
  · rw [hall, hpasses.starts_eq, List.map_map]
    rfl
  · rw [hall, List.map_map]
    exact hpasses.ends_perm

theorem exists_settles (h : Ready delay w (m :: rest)) : ∃ past, Settles delay w m rest past := by
  cases m with
  | pass ms => exact ⟨_, settles_pass delay w ms rest⟩
  | cancel | drop => exact ⟨_, settles_use h rfl rfl rfl rfl⟩
  | schedule job =>
    refine ⟨_, settles_use h rfl rfl rfl ?_⟩
    show [(⟨⟨w.now + w.timers.delay, job⟩, _⟩ : Scheduled ι)] ++ _ = _
    rw [h.delay_eq]
    rfl

theorem clock_move (w : DebouncedShop ι) (m : Move ι) (rest : List (Move ι)) :
    clock w.now (m :: rest) = clock (w.move m).now rest := by
  cases m <;> rfl

/-- A move leaves the workshop ready for the rest of the history. -/
theorem Ready.move (h : Ready delay w (m :: rest)) : Ready delay (w.move m) rest := by
  have hapart : ∀ a ∈ agenda delay (w.move m) rest, a.Apart delay (clock (w.move m).now rest) := by
    obtain ⟨past, hsettles⟩ := exists_settles h
    intro a ha
    rw [← clock_move]
    exact h.apart a (hsettles.agenda_eq ▸ List.mem_append_right past ha)
  cases m with
  | pass ms =>
    have hpasses := passes_move w ms
    have hlate : ∀ t, (w.move (.pass ms)).timers.waiting = some t → w.now + ms < t.due := by
      intro t ht
      rw [hpasses.timers_eq, Option.filter_eq_some_iff] at ht
      simpa using ht.2
    refine ⟨?_, fun t ht => Nat.le_of_lt (hlate t ht), fun _ => hlate, hpasses.running_gt, hapart⟩
    rw [hpasses.timers_eq]
    exact h.delay_eq
  | schedule job =>
    refine ⟨h.delay_eq, ?_, ?_, h.running_gt, hapart⟩
    · rintro t ⟨⟩
      exact Nat.le_add_right _ _
    · rintro hdelay t ⟨⟩
      exact Nat.lt_add_of_pos_right (h.delay_eq ▸ hdelay)
  | cancel | drop =>
    have hidle : ∀ t, w.timers.cancel.1.waiting ≠ some t := by
      intro t ht
      cases ht
    exact ⟨h.delay_eq, fun t ht => absurd ht (hidle t), fun _ t ht => absurd ht (hidle t),
      h.running_gt, hapart⟩

/-! ## Whole histories -/

/-- With nothing left to come, no job on the agenda has started, and all wait. -/
theorem Ready.waits_of_nil (h : Ready delay w []) : ∀ a ∈ agenda delay w [], a.Waits w.now := by
  intro a ha
  have hapart := h.apart a ha
  rw [agenda, scheduled, List.append_nil] at ha
  obtain ⟨t, ht, rfl⟩ := List.mem_map.mp ha
  have halone : ¬(⟨t, []⟩ : Scheduled ι).Overtaken := by
    rintro ⟨time, htime, -⟩
    cases htime
  have hwaiting := Option.mem_toList.mp ht
  refine ⟨halone, ?_⟩
  by_cases hdue : t.due = w.now
  · exact h.waiting_gt ((hapart.resolve_left halone).2 hdue) t hwaiting
  · exact Nat.lt_of_le_of_ne (h.waiting_ge t hwaiting) (Ne.symm hdue)

theorem Ready.starts_of_nil (h : Ready delay w []) :
    (agenda delay w []).filter (fun a => a.Starts w.now) = [] := by
  refine List.filter_eq_nil_iff.mpr fun a ha => ?_
  have hwaits := (h.waits_of_nil a ha).2
  simpa using fun hstarts : a.Starts w.now => Nat.not_le.mpr hwaits hstarts.2

/-- **The jobs that start**, in the order in which they were scheduled. -/
theorem starts_log (h : Ready delay w history) :
    starts (w.log history) =
      ((agenda delay w history).filter (·.Starts (clock w.now history))).map
        fun a => startOf a.timer := by
  induction history generalizing w with
  | nil =>
    rw [clock, h.starts_of_nil]
    rfl
  | cons m rest ih =>
    obtain ⟨past, hsettles⟩ := exists_settles h
    rw [log, starts_append, hsettles.starts_eq, ih h.move, hsettles.agenda_eq, List.filter_append,
      List.map_append, clock_move]

/-- **The jobs that end**: those that ran at first and those that have started, each when its time
has passed. -/
theorem ends_log (h : Ready delay w history) :
    (ends (w.log history)).Perm
      ((endings w.running ++
        ((agenda delay w history).filter (·.Starts (clock w.now history))).map
          fun a => endOf a.timer).filter (·.1 ≤ clock w.now history)) := by
  induction history generalizing w with
  | nil =>
    have hrunning : (endings w.running).filter (fun ended => ended.1 ≤ w.now) = [] := by
      refine List.filter_eq_nil_iff.mpr fun ended hended => ?_
      obtain ⟨t, ht, rfl⟩ := List.mem_map.mp hended
      simpa using h.running_gt t ht
    rw [clock, h.starts_of_nil, List.map_nil, List.append_nil, hrunning]
    exact List.Perm.refl _
  | cons m rest ih =>
    obtain ⟨past, hsettles⟩ := exists_settles h
    have hseen : (ends (w.seen m)).filter (fun ended => ended.1 ≤ clock w.now (m :: rest)) =
        ends (w.seen m) := by
      refine List.filter_eq_self.mpr fun ended hended => decide_eq_true ?_
      rw [clock_move]
      exact Nat.le_trans (hsettles.ends_le ended hended) (le_clock _ rest)
    have hrest := ih h.move
    rw [← clock_move] at hrest
    have hsplit : ((agenda delay w (m :: rest)).filter (·.Starts (clock w.now (m :: rest)))).map
          (fun a => endOf a.timer) =
        (past.filter (·.Starts (clock w.now (m :: rest)))).map (fun a => endOf a.timer) ++
          ((agenda delay (w.move m) rest).filter (·.Starts (clock w.now (m :: rest)))).map
            (fun a => endOf a.timer) := by
      rw [hsettles.agenda_eq, List.filter_append, List.map_append]
    rw [log, ends_append, hsplit, ← List.append_assoc]
    refine (hrest.append_left _).trans ?_
    -- what has ended so far and what still runs are what ran and what has started
    rw [← hseen, ← List.filter_append, ← List.append_assoc]
    exact (hsettles.ends_perm.append_right _).filter _

/-- **The job that waits** at the end. -/
theorem waiting_after (h : Ready delay w history) :
    (w.after history).timers.waiting.toList =
      ((agenda delay w history).filter (·.Waits (clock w.now history))).map (·.timer) := by
  induction history generalizing w with
  | nil =>
    rw [clock, List.filter_eq_self.mpr fun a ha => decide_eq_true (h.waits_of_nil a ha), agenda,
      scheduled, List.append_nil, List.map_map]
    exact (List.map_id _).symm
  | cons m rest ih =>
    obtain ⟨past, hsettles⟩ := exists_settles h
    have hpast : past.filter (fun a => a.Waits (clock w.now (m :: rest))) = [] := by
      refine List.filter_eq_nil_iff.mpr fun a ha => ?_
      simpa using hsettles.not_waits a ha
    have hrest := ih h.move
    rw [← clock_move] at hrest
    rw [hsettles.agenda_eq, List.filter_append, hpast, List.nil_append]
    exact hrest

/-! ## The law -/

/-- The log is what is told, with the times. -/
theorem map_snd_log (w : DebouncedShop ι) (history : List (Move ι)) :
    (w.log history).map (·.2) = w.report history := by
  induction history generalizing w with
  | nil => rfl
  | cons m rest ih =>
    have htold : (w.seen m).map (·.2) = w.told m := by
      cases m with
      | pass ms => exact (Clockwork.run_stamped clockwork (w.now + ms) _ w).2
      | schedule job | cancel | drop => rfl
    rw [log, report, List.map_append, htold, ih]

theorem log_append (w : DebouncedShop ι) (before rest : List (Move ι)) :
    w.log (before ++ rest) = w.log before ++ (w.after before).log rest := by
  induction before generalizing w with
  | nil => rfl
  | cons m before ih =>
    rw [List.cons_append, log, log, ih, List.append_assoc]
    rfl

theorem now_after (w : DebouncedShop ι) (history : List (Move ι)) :
    (w.after history).now = clock w.now history := by
  induction history generalizing w with
  | nil => rfl
  | cons m rest ih =>
    rw [clock_move]
    exact ih (w.move m)

theorem Ready.after {before : List (Move ι)} (h : Ready delay w (before ++ rest)) :
    Ready delay (w.after before) rest := by
  induction before generalizing w with
  | nil => exact h
  | cons m before ih => exact ih h.move

theorem ready_start (hapart : ∀ a ∈ scheduled delay 0 history, a.Apart delay (clock 0 history)) :
    Ready delay (start (.idle delay) : DebouncedShop ι) history := by
  refine ⟨rfl, ?_, ?_, ?_, hapart⟩
  · intro t ht
    cases ht
  · intro _ t ht
    cases ht
  · intro t ht
    cases ht

/-- Up to a use of the debouncer, nothing is done when a job is due either. -/
theorem apart_before_use {before : List (Move ι)} {use : Move ι}
    (huse : clock now before ∈ uses (clock now before) (use :: rest))
    (hapart : ∀ a ∈ scheduled delay now (before ++ use :: rest),
      a.Apart delay (clock now history)) :
    ∀ a ∈ scheduled delay now before, a.Apart delay (clock now before) := by
  intro a ha
  rw [scheduled_append] at hapart
  rcases hapart _ (List.mem_append_left _ (List.mem_map_of_mem ha)) with hovertaken | ⟨hunused, -⟩
  · obtain ⟨time, htime, hless⟩ := hovertaken
    rcases List.mem_append.mp htime with hearly | hlate
    · exact .inl ⟨time, hearly, hless⟩
    · -- overtaken only after the end, so not due by then
      have hend := Nat.lt_of_le_of_lt (le_of_mem_uses hlate) hless
      exact .inr ⟨fun hdue => Nat.not_le.mpr hend (later_le_clock ha hdue),
        fun heq => absurd heq (Nat.ne_of_gt hend)⟩
  · rw [List.mem_append, not_or] at hunused
    exact .inr ⟨hunused.1, fun heq => absurd (heq ▸ huse) hunused.2⟩

/-- To cancel tells whether a job waits. -/
theorem cancel_iff_waits (h : Ready delay w history) :
    (w.after history).timers.cancel.2 = true ↔
      ∃ a ∈ agenda delay w history, a.Waits (clock w.now history) := by
  have hwaiting := waiting_after h
  show (w.after history).timers.waiting.isSome = true ↔ _
  rw [Option.isSome_iff_exists]
  constructor
  · rintro ⟨t, ht⟩
    rw [← Option.mem_toList, hwaiting] at ht
    obtain ⟨a, ha, -⟩ := List.mem_map.mp ht
    obtain ⟨hmem, hwaits⟩ := List.mem_filter.mp ha
    exact ⟨a, hmem, of_decide_eq_true hwaits⟩
  · rintro ⟨a, hmem, hwaits⟩
    have ha : a.timer ∈ (w.after history).timers.waiting.toList := by
      rw [hwaiting]
      exact List.mem_map_of_mem (List.mem_filter.mpr ⟨hmem, decide_eq_true hwaits⟩)
    exact ⟨a.timer, Option.mem_toList.mp ha⟩

/-- **The fate of every job.**  Let nothing be done just when a job is due that has been left alone.

1. The jobs that start are those that are left alone until they are due; each starts once, when it
   is due, in the order in which they were scheduled.
2. Each of them ends when its time has passed, whatever is done in the meantime.
3. The job that waits at the end is the one that is left alone and is not due yet; there is at most
   one.
4. To cancel tells whether there is such a job.  What starts afterwards has been scheduled
   afterwards. -/
theorem history_law (delay : Nat) (history : List (Move ι))
    (hapart : ∀ a ∈ scheduled delay 0 history, a.Apart delay (clock 0 history)) :
    let w : DebouncedShop ι := start (.idle delay)
    let stop := clock 0 history
    let started := (scheduled delay 0 history).filter (·.Starts stop)
    let waiting := (scheduled delay 0 history).filter (·.Waits stop)
    (w.log history).map (·.2) = w.report history ∧
    starts (w.log history) = started.map (fun a => (a.timer.due, a.timer.job.id)) ∧
    (ends (w.log history)).Perm
      ((started.map fun a => (a.timer.due + a.timer.job.length, a.timer.job.id)).filter
        (·.1 ≤ stop)) ∧
    (w.after history).timers.waiting.toList = waiting.map (·.timer) ∧ waiting.length ≤ 1 ∧
    ∀ before later, history = before ++ .cancel :: later →
      ((w.after before).timers.cancel.2 = true ↔
        ∃ a ∈ scheduled delay 0 before, a.Waits (clock 0 before)) ∧
      starts (w.log history) = starts (w.log before) ++
        ((scheduled delay (clock 0 before) later).filter (·.Starts stop)).map
          (fun a => (a.timer.due, a.timer.job.id)) := by
  intro w stop started waiting
  have hready : Ready delay w history := ready_start hapart
  have hwaiting := waiting_after hready
  refine ⟨map_snd_log w history, starts_log hready, ends_log hready, hwaiting, ?_, ?_⟩
  · have hlength : (w.after history).timers.waiting.toList.length = waiting.length := by
      rw [hwaiting, List.length_map]
      rfl
    rw [← hlength]
    cases (w.after history).timers.waiting <;> simp
  · rintro before later rfl
    have hbefore : Ready delay w before := ready_start (apart_before_use List.mem_cons_self hapart)
    refine ⟨cancel_iff_waits hbefore, ?_⟩
    have hcancelled : Ready delay ((w.after before).move .cancel) later := hready.after.move
    have hlater := starts_log hcancelled
    have hstop : stop = clock (w.after before).now later := by
      rw [now_after]
      exact clock_append 0 before (.cancel :: later)
    have hnow : clock 0 before = (w.after before).now := (now_after w before).symm
    rw [log_append, starts_append, hstop, hnow]
    exact congrArg (starts (w.log before) ++ ·) hlater

end Workshop

end DialectBridge
