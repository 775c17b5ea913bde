import DialectBridge.Proofs.Timing.Clockwork

/-!
# Jobs behind a debouncer, while time passes

A workshop with a debouncer has at most one job that waits and any number of jobs that run.  While
time passes, the waiting job starts if its time comes, and of the running jobs those end whose time
comes, that one included.  Nothing is lost: what has ended and what still runs at the end are what
ran at the beginning and what has started since.

* `step_cases` — all that can happen next;
* `Passes` — what happens up to a time;
* `passes_run` — letting the clock run does just that.
-/

namespace DialectBridge

variable {ι : Type}

/-- A workshop with one debouncer. -/
abbrev DebouncedShop (ι : Type) := Workshop (Debouncer (Job ι)) ι

namespace Workshop

/-- The jobs that are seen to start, by time. -/
def starts (log : List (Nat × JobEvent ι)) : List (Nat × ι) :=
  log.filterMap fun
    | (time, .start id) => some (time, id)
    | (_, .done _) => none

/-- The jobs that are seen to end, by time. -/
def ends (log : List (Nat × JobEvent ι)) : List (Nat × ι) :=
  log.filterMap fun
    | (_, .start _) => none
    | (time, .done id) => some (time, id)

/-- When running jobs end. -/
def endings (running : List (Timer ι)) : List (Nat × ι) :=
  running.map fun t => (t.due, t.job)

@[simp] theorem starts_append (log later : List (Nat × JobEvent ι)) :
    starts (log ++ later) = starts log ++ starts later :=
  List.filterMap_append

@[simp] theorem ends_append (log later : List (Nat × JobEvent ι)) :
    ends (log ++ later) = ends log ++ ends later :=
  List.filterMap_append

@[simp] theorem endings_append (running more : List (Timer ι)) :
    endings (running ++ more) = endings running ++ endings more :=
  List.map_append

/-- When a job starts that waits for its time. -/
def startOf (t : Timer (Job ι)) : Nat × ι :=
  (t.due, t.job.id)

/-- When such a job ends, once it has started. -/
def endOf (t : Timer (Job ι)) : Nat × ι :=
  (t.due + t.job.length, t.job.id)

/-- **All that can happen next**: a running job ends, or the waiting job starts, and ends at once if
it takes no time. -/
theorem step_cases {w : DebouncedShop ι} {due : Nat} (h : w.due? = some due) :
    (∃ before id after, w.running = before ++ ⟨due, id⟩ :: after ∧
      w.step = ({ w with now := due, running := before ++ after }, [.done id])) ∨
    (∃ job, w.timers.waiting = some ⟨due, job⟩ ∧ job.length = 0 ∧
      w.step = ({ w with now := due, timers := .idle w.timers.delay },
        [.start job.id, .done job.id])) ∨
    (∃ job, w.timers.waiting = some ⟨due, job⟩ ∧
      w.step = (⟨due, .idle w.timers.delay, w.running ++ [⟨due + job.length, job.id⟩]⟩,
        [.start job.id])) := by
  obtain ⟨hfound, -, -⟩ := Clockwork.earlier?_eq_some h
  cases hending : takeEnding due w.running with
  | some found =>
    obtain ⟨id, rest⟩ := found
    obtain ⟨before, after, hrunning, rfl⟩ := takeEnding_eq_some hending
    exact .inl ⟨before, id, after, hrunning, by simp only [step, h, hending]⟩
  | none =>
    -- no running job ends now, so it is the timer that is due
    have htimer : w.timers.due? = some due := by
      rcases hfound with hfound | hfound
      · obtain ⟨t, ht, hdue⟩ := (firstEnd?_eq_some hfound).1
        exact absurd hdue (takeEnding_eq_none hending t ht)
      · exact hfound
    obtain ⟨⟨_, job⟩, hwaiting, rfl⟩ := Option.map_eq_some_iff.mp htimer
    have hfire : Timers.fire w.timers = (Debouncer.idle w.timers.delay, some job) := by
      show Debouncer.fire w.timers = _
      rw [Debouncer.fire, hwaiting]
      rfl
    by_cases hlength : job.length = 0
    · exact .inr (.inl ⟨job, hwaiting, hlength,
        by simp only [step, h, hending, hfire, hlength, if_true]⟩)
    · exact .inr (.inr ⟨job, hwaiting, by simp only [step, h, hending, hfire, hlength, if_false]⟩)

/-- Something happens no later than a running job ends. -/
theorem due?_le_running {w : DebouncedShop ι} {t : Timer ι} (h : t ∈ w.running) :
    ∃ due, w.due? = some due ∧ due ≤ t.due := by
  cases hdue : w.due? with
  | none =>
    rw [firstEnd?_eq_none.mp (Clockwork.earlier?_eq_none.mp hdue).1] at h
    cases h
  | some due =>
    refine ⟨due, rfl, ?_⟩
    cases hfirst : firstEnd? w.running with
    | none =>
      rw [firstEnd?_eq_none.mp hfirst] at h
      cases h
    | some first =>
      exact Nat.le_trans ((Clockwork.earlier?_eq_some hdue).2.1 first hfirst)
        ((firstEnd?_eq_some hfirst).2 t h)

/-- Something happens no later than the waiting job starts. -/
theorem due?_le_waiting {w : DebouncedShop ι} {t : Timer (Job ι)} (h : w.timers.waiting = some t) :
    ∃ due, w.due? = some due ∧ due ≤ t.due := by
  have htimer : w.timers.due? = some t.due := by rw [Debouncer.due?, h, Option.map_some]
  cases hdue : w.due? with
  | none =>
    have hnone : w.timers.due? = none := (Clockwork.earlier?_eq_none.mp hdue).2
    rw [hnone] at htimer
    cases htimer
  | some due => exact ⟨due, rfl, (Clockwork.earlier?_eq_some hdue).2.2 _ htimer⟩

/-- What happens up to a time, from one state of the workshop to another. -/
structure Passes (limit : Nat) (w last : DebouncedShop ι) (seen : List (Nat × JobEvent ι)) :
    Prop where
  /-- The waiting job goes on to wait if its time has not come. -/
  timers_eq : last.timers = ⟨w.timers.delay, w.timers.waiting.filter (limit < ·.due)⟩
  /-- It starts otherwise, when its time comes. -/
  starts_eq : starts seen = (w.timers.waiting.toList.filter (·.due ≤ limit)).map startOf
  /-- No job is lost once it runs. -/
  ends_perm : (ends seen ++ endings last.running).Perm
    (endings w.running ++ (w.timers.waiting.toList.filter (·.due ≤ limit)).map endOf)
  /-- What has ended has done so in time. -/
  ends_le : ∀ ended ∈ ends seen, ended.1 ≤ limit
  /-- What still runs ends later. -/
  running_gt : ∀ t ∈ last.running, limit < t.due

variable {w last : DebouncedShop ι} {seen : List (Nat × JobEvent ι)} {limit due : Nat}

/-- With nothing due in time, all stays as it is. -/
theorem passes_still (h : ∀ due, w.due? = some due → limit < due) : Passes limit w w [] := by
  have hrunning : ∀ t ∈ w.running, limit < t.due := by
    intro t ht
    obtain ⟨due, hdue, hle⟩ := due?_le_running ht
    exact Nat.lt_of_lt_of_le (h due hdue) hle
  have hends : ∀ ended ∈ ends ([] : List (Nat × JobEvent ι)), ended.1 ≤ limit := by
    intro ended hended
    cases hended
  cases hwaiting : w.timers.waiting with
  | none =>
    refine ⟨?_, ?_, ?_, hends, hrunning⟩
    · rw [hwaiting, Option.filter_none, ← hwaiting]
    · rw [hwaiting]
      rfl
    · simp [hwaiting, ends]
  | some t =>
    obtain ⟨due, hdue, hle⟩ := due?_le_waiting hwaiting
    have hlate : limit < t.due := Nat.lt_of_lt_of_le (h due hdue) hle
    refine ⟨?_, ?_, ?_, hends, hrunning⟩
    · rw [hwaiting, Option.filter_some_pos (by simpa using hlate), ← hwaiting]
    · simp [hwaiting, hlate, starts]
    · simp [hwaiting, hlate, ends]

/-- A running job ends first. -/
theorem Passes.of_done {before after : List (Timer ι)} {id : ι} (hdue : due ≤ limit)
    (hrunning : w.running = before ++ ⟨due, id⟩ :: after)
    (h : Passes limit { w with now := due, running := before ++ after } last seen) :
    Passes limit w last ((due, .done id) :: seen) := by
  refine ⟨h.timers_eq, h.starts_eq, ?_, ?_, h.running_gt⟩
  · have hmiddle : (endings w.running).Perm ((due, id) :: endings (before ++ after)) := by
      rw [hrunning]
      exact List.perm_middle.map _
    exact (h.ends_perm.cons (due, id)).trans (hmiddle.symm.append_right _)
  · intro ended hended
    rcases List.mem_cons.mp hended with rfl | hended
    · exact hdue
    · exact h.ends_le ended hended

/-- The waiting job starts first, and ends at once. -/
theorem Passes.of_start_done {job : Job ι} (hdue : due ≤ limit)
    (hwaiting : w.timers.waiting = some ⟨due, job⟩) (hlength : job.length = 0)
    (h : Passes limit { w with now := due, timers := .idle w.timers.delay } last seen) :
    Passes limit w last ((due, .start job.id) :: (due, .done job.id) :: seen) := by
  have hfired : w.timers.waiting.toList.filter (·.due ≤ limit) = [⟨due, job⟩] := by
    simp [hwaiting, hdue]
  refine ⟨?_, ?_, ?_, ?_, h.running_gt⟩
  · rw [h.timers_eq, hwaiting, Option.filter_some_neg (by simpa using hdue)]
    rfl
  · rw [hfired]
    exact congrArg ((due, job.id) :: ·) h.starts_eq
  · have hend : endOf ⟨due, job⟩ = (due, job.id) := by rw [endOf, hlength, Nat.add_zero]
    have hrest : (ends seen ++ endings last.running).Perm (endings w.running ++ []) := h.ends_perm
    rw [List.append_nil] at hrest
    rw [hfired, List.map_singleton, hend]
    exact (hrest.cons (due, job.id)).trans (List.perm_append_singleton _ _).symm
  · intro ended hended
    rcases List.mem_cons.mp hended with rfl | hended
    · exact hdue
    · exact h.ends_le ended hended

/-- The waiting job starts first, and runs. -/
theorem Passes.of_start {job : Job ι} (hdue : due ≤ limit)
    (hwaiting : w.timers.waiting = some ⟨due, job⟩)
    (h : Passes limit ⟨due, .idle w.timers.delay, w.running ++ [⟨due + job.length, job.id⟩]⟩ last
      seen) :
    Passes limit w last ((due, .start job.id) :: seen) := by
  have hfired : w.timers.waiting.toList.filter (·.due ≤ limit) = [⟨due, job⟩] := by
    simp [hwaiting, hdue]
  refine ⟨?_, ?_, ?_, h.ends_le, h.running_gt⟩
  · rw [h.timers_eq, hwaiting, Option.filter_some_neg (by simpa using hdue)]
    rfl
  · rw [hfired]
    exact congrArg ((due, job.id) :: ·) h.starts_eq
  · have hrest : (ends seen ++ endings last.running).Perm
        (endings (w.running ++ [⟨due + job.length, job.id⟩]) ++ []) := h.ends_perm
    rw [List.append_nil, endings_append] at hrest
    rw [hfired]
    exact hrest

/-- Each thing that happens leaves fewer to come. -/
theorem remaining_step (h : w.due? = some due) :
    clockwork.remaining (clockwork.step w).1 < clockwork.remaining w := by
  have harmed : ∀ t, w.timers.waiting = some t → Timers.armed w.timers = 1 := by
    intro t ht
    show (if w.timers.waiting.isSome then 1 else 0) = 1
    rw [ht]
    rfl
  have hidle : Timers.armed (Debouncer.idle w.timers.delay : Debouncer (Job ι)) = 0 := rfl
  show 2 * Timers.armed w.step.1.timers + w.step.1.running.length <
    2 * Timers.armed w.timers + w.running.length
  rcases step_cases h with ⟨before, id, after, hrunning, hstep⟩ | ⟨job, hwaiting, -, hstep⟩ |
    ⟨job, hwaiting, hstep⟩
  · rw [hstep, hrunning]
    simp
  · rw [hstep, harmed _ hwaiting, hidle]
    exact Nat.add_lt_add_right (by decide) w.running.length
  · rw [hstep, harmed _ hwaiting, hidle, List.length_append, List.length_singleton]
    omega

/-- **Letting the clock run** up to a time. -/
theorem passes_run (limit : Nat) {fuel : Nat} {w : DebouncedShop ι}
    (hfuel : clockwork.remaining w ≤ fuel) :
    Passes limit w (clockwork.stamped.run limit fuel w).1
      (clockwork.stamped.run limit fuel w).2 := by
  induction fuel generalizing w with
  | zero =>
    have hstill : ∀ due, w.due? = some due → limit < due := by
      intro due hdue
      have := remaining_step hdue
      omega
    exact passes_still hstill
  | succ fuel ih =>
    by_cases hstill : ∀ due, w.due? = some due → limit < due
    · rw [Clockwork.run_still (c := clockwork.stamped) hstill]
      exact passes_still hstill
    · obtain ⟨due, hdue, hle⟩ : ∃ due, w.due? = some due ∧ due ≤ limit := by simpa using hstill
      have hrest : Passes limit w.step.1 (clockwork.stamped.run limit fuel w.step.1).1
          (clockwork.stamped.run limit fuel w.step.1).2 :=
        ih (Nat.le_of_lt_succ (Nat.lt_of_lt_of_le (remaining_step hdue) hfuel))
      have hrun : clockwork.stamped.run limit (fuel + 1) w =
          ((clockwork.stamped.run limit fuel w.step.1).1,
            w.step.2.map (fun seen => (due, seen)) ++
              (clockwork.stamped.run limit fuel w.step.1).2) := by
        rw [Clockwork.run_due (c := clockwork.stamped) hdue hle]
        simp only [Clockwork.stamped, clockwork, hdue, Option.getD_some]
      rw [hrun]
      rcases step_cases hdue with ⟨before, id, after, hrunning, hstep⟩ |
        ⟨job, hwaiting, hlength, hstep⟩ | ⟨job, hwaiting, hstep⟩
      · rw [hstep] at hrest ⊢
        exact hrest.of_done hle hrunning
      · rw [hstep] at hrest ⊢
        exact hrest.of_start_done hle hwaiting hlength
      · rw [hstep] at hrest ⊢
        exact hrest.of_start hle hwaiting

end Workshop

end DialectBridge
