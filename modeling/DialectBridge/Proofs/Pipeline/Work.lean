import DialectBridge.Pipeline.Desk

/-!
# The work on a desk

Whatever waits for a timer or is under way on a desk is a piece of work for one generation, and
`Desk.work` lists them all.  The lemmas say once what a step does to that list:

* `resume?_eq_some` opens the step of a run: which run took it, and which runs stand beside it;
* `workFor_resume_sublist` — a step never adds work for a generation other than its own, so the work
  for the others stays or is dropped;
* `workFor_resume` — where a generation has a single piece of work, a step of its run replaces that
  piece by what the run goes on with.
-/

namespace DialectBridge.Pipeline

/-- A piece of work: a job that waits for its timer, or a run. -/
inductive Work where
  | compileTimer (generation : Nat)
  | verifyTimer (job : VerifyJob)
  | run (r : Run)
  deriving DecidableEq, Repr

/-- The generation a piece of work is for. -/
def Work.generation : Work → Nat
  | .compileTimer generation => generation
  | .verifyTimer job => job.generation
  | .run r => r.generation

/-- The work that waits for the timers of a session. -/
def timerWork (s : DocumentSession) : List Work :=
  (s.compileTimer.waiting.map fun t => Work.compileTimer t.job).toList ++
    (s.verifyTimer.waiting.map fun t => Work.verifyTimer t.job).toList

/-- All the work on a desk. -/
def Desk.work (d : Desk) : List Work :=
  timerWork d.session ++ d.runs.map .run

/-- The work on a desk for one generation. -/
def Desk.workFor (d : Desk) (g : Nat) : List Work :=
  d.work.filter fun w => w.generation = g

/-- **All that a step of a run can do**, by the step and the run: a gate of the current generation
lets the run go on, any other gate ends it and leaves the session alone. -/
inductive Takes (verify : Bool) (now : Nat) (s : DocumentSession) : Step → Run → Progress → Prop
  | begin (g : Nat) (hg : s.generation = g) :
      Takes verify now s .begin (.starting g)
        ⟨{ s with phase := .compilingDialect }, some (.compiling g s.text), [.compile g s.text]⟩
  | compiled (g : Nat) (answer : Compiler.Answer) (text : String) (hg : s.generation = g) :
      Takes verify now s (.compiled answer) (.compiling g text)
        ⟨{ s with phase := (compileGate verify text answer).phase },
          some (.announcing g (compileGate verify text answer).what
            (compileGate verify text answer).next), []⟩
  | announce (g : Nat) (what : Announcement) (next : Option Translation) :
      Takes verify now s .announce (.announcing g what next)
        ⟨s, next.map fun t => .scheduling ⟨t, g⟩, [.tell g what]⟩
  | schedule (job : VerifyJob) (hg : s.generation = job.generation) :
      Takes verify now s .schedule (.scheduling job)
        ⟨{ s with verifyTimer := s.verifyTimer.schedule now job }, none, []⟩
  | check (job : VerifyJob) (hg : s.generation = job.generation) :
      Takes verify now s .check (.checking job) ⟨s, some (.verifying job), [.verify job]⟩
  | failed (job : VerifyJob) (cause : ServiceError) (hg : s.generation = job.generation) :
      Takes verify now s (.verified (.error cause)) (.verifying job)
        ⟨{ s with phase := .published }, none, []⟩
  | found (job : VerifyJob) (found : List Finding) (hg : s.generation = job.generation) :
      Takes verify now s (.verified (.ok found)) (.verifying job)
        ⟨{ s with phase := .mapping }, some (.mapping job found), []⟩
  | map (job : VerifyJob) (found : List Finding) (hg : s.generation = job.generation) :
      Takes verify now s .map (.mapping job found)
        ⟨{ s with phase := .published },
          some (.announcing job.generation
            (.publish (Finding.placeAll job.map found job.text.toList)) none), []⟩
  | stale (step : Step) (run : Run) (hg : s.generation ≠ run.generation) :
      Takes verify now s step run ⟨s, none, []⟩

variable {verify : Bool} {now g : Nat} {d : Desk} {s : DocumentSession} {step : Step} {run : Run}
  {p : Progress}

theorem workFor_eq (d : Desk) (g : Nat) :
    d.workFor g = (timerWork d.session).filter (fun w => w.generation = g) ++
      (d.runs.map Work.run).filter (fun w => w.generation = g) := by
  simp only [Desk.workFor, Desk.work, List.filter_append]

/-! ## Gates -/

theorem advance_current {phase : Phase} (h : s.generation = g) :
    s.advance g phase = ({ s with phase }, true) := by
  simp [Session.advance, Session.isCurrent, h]

theorem advance_stale {phase : Phase} (h : s.generation ≠ g) : s.advance g phase = (s, false) := by
  simp [Session.advance, Session.isCurrent, h]

theorem advanceWithText_stale {phase : Phase} (h : s.generation ≠ g) :
    s.advanceWithText g phase = (s, none) := by
  simp [Session.advanceWithText, Session.isCurrent, h]

theorem pass_current {phase : Phase} {next : Run} (h : s.generation = g) :
    Run.pass s g phase next = ⟨{ s with phase }, some next, []⟩ := by
  simp [Run.pass, advance_current h]

theorem pass_stale {phase : Phase} {next : Run} (h : s.generation ≠ g) :
    Run.pass s g phase next = ⟨s, none, []⟩ := by
  simp [Run.pass, advance_stale h]

theorem begin_current (h : s.generation = g) :
    Run.begin s g =
      ⟨{ s with phase := .compilingDialect }, some (.compiling g s.text), [.compile g s.text]⟩ := by
  simp [Run.begin, Session.advanceWithText, Session.isCurrent, h]

theorem begin_stale (h : s.generation ≠ g) : Run.begin s g = ⟨s, none, []⟩ := by
  simp [Run.begin, advanceWithText_stale h]

theorem scheduleVerify_current {job : VerifyJob} (h : s.generation = g) :
    s.scheduleVerify now g job = ({ s with verifyTimer := s.verifyTimer.schedule now job }, true) := by
  simp [Session.scheduleVerify, Session.isCurrent, h]

theorem scheduleVerify_stale {job : VerifyJob} (h : s.generation ≠ g) :
    s.scheduleVerify now g job = (s, false) := by
  simp [Session.scheduleVerify, Session.isCurrent, h]

theorem check_current {job : VerifyJob} (h : s.generation = job.generation) :
    Run.check s job = ⟨s, some (.verifying job), [.verify job]⟩ := by
  simp [Run.check, Session.isCurrent, h]

theorem check_stale {job : VerifyJob} (h : s.generation ≠ job.generation) :
    Run.check s job = ⟨s, none, []⟩ := by
  simp [Run.check, Session.isCurrent, h]

theorem takes_of_take? (h : run.take? verify now s step = some p) :
    Takes verify now s step run p := by
  cases step <;> cases run <;> simp only [Run.take?, reduceCtorEq, Option.some.injEq] at h <;>
    subst h
  case begin.starting g =>
    by_cases hg : s.generation = g
    · rw [begin_current hg]; exact .begin g hg
    · rw [begin_stale hg]; exact .stale _ _ hg
  case compiled.compiling answer g text =>
    simp only [Run.compiled]
    by_cases hg : s.generation = g
    · rw [pass_current hg]; exact .compiled g answer text hg
    · rw [pass_stale hg]; exact .stale _ _ hg
  case announce.announcing g what next => exact .announce g what next
  case schedule.scheduling job =>
    by_cases hg : s.generation = job.generation
    · rw [scheduleVerify_current hg]; exact .schedule job hg
    · rw [scheduleVerify_stale hg]; exact .stale _ _ hg
  case check.checking job =>
    by_cases hg : s.generation = job.generation
    · rw [check_current hg]; exact .check job hg
    · rw [check_stale hg]; exact .stale _ _ hg
  case verified.verifying answer job =>
    by_cases hg : s.generation = job.generation
    · cases answer with
      | error cause => rw [Run.verified, advance_current hg]; exact .failed job cause hg
      | ok found => rw [Run.verified, pass_current hg]; exact .found job found hg
    · cases answer with
      | error cause => rw [Run.verified, advance_stale hg]; exact .stale _ _ hg
      | ok found => rw [Run.verified, pass_stale hg]; exact .stale _ _ hg
  case map.mapping job found =>
    unfold Run.map
    by_cases hg : s.generation = job.generation
    · rw [pass_current hg]; exact .map job found hg
    · rw [pass_stale hg]; exact .stale _ _ hg

/-- A run works for one generation as long as it goes on. -/
theorem Takes.next_generation (h : Takes verify now s step run p) {r : Run} (hr : r ∈ p.next) :
    r.generation = run.generation := by
  cases h <;> simp only [Option.mem_def, Option.some.injEq, Option.map_eq_some_iff, reduceCtorEq] at hr
  case announce g what next => obtain ⟨t, -, rfl⟩ := hr; rfl
  all_goals subst hr; rfl

theorem Takes.session_generation (h : Takes verify now s step run p) :
    p.session.generation = s.generation := by
  cases h <;> rfl

theorem Takes.session_text (h : Takes verify now s step run p) : p.session.text = s.text := by
  cases h <;> rfl

/-- A run leaves the timers alone, but for the verification it schedules. -/
theorem Takes.timerWork (h : Takes verify now s step run p) :
    timerWork p.session = timerWork s ∨
      ∃ job, run = .scheduling job ∧ s.generation = job.generation ∧
        p = ⟨{ s with verifyTimer := s.verifyTimer.schedule now job }, none, []⟩ := by
  cases h
  case schedule job hg => exact .inr ⟨job, rfl, hg, rfl⟩
  all_goals exact .inl rfl

/-! ## Which run takes a step -/

theorem takeRun?_eq_some {go : Run → Option Progress} {runs rest : List Run}
    (h : takeRun? go runs = some (p, rest)) :
    ∃ before run after, runs = before ++ run :: after ∧ rest = before ++ after ∧ go run = some p := by
  induction runs generalizing rest with
  | nil => simp [takeRun?] at h
  | cons run runs ih =>
    rw [takeRun?] at h
    cases hgo : go run with
    | some q =>
      simp only [hgo, Option.some.injEq, Prod.mk.injEq] at h
      obtain ⟨rfl, rfl⟩ := h
      exact ⟨[], run, runs, rfl, rfl, hgo⟩
    | none =>
      simp only [hgo, Option.map_eq_some_iff] at h
      obtain ⟨⟨q, others⟩, hfound, heq⟩ := h
      simp only [Prod.mk.injEq] at heq
      obtain ⟨rfl, rfl⟩ := heq
      obtain ⟨before, r, after, rfl, rfl, hr⟩ := ih hfound
      exact ⟨run :: before, r, after, rfl, rfl, hr⟩

theorem takeRun?_eq_none {go : Run → Option Progress} {runs : List Run} :
    takeRun? go runs = none ↔ ∀ run ∈ runs, go run = none := by
  induction runs with
  | nil => simp [takeRun?]
  | cons run runs ih =>
    rw [takeRun?]
    cases hgo : go run with
    | some q => simp [hgo]
    | none => simp [hgo, ih]

theorem takeRun?_concat {go : Run → Option Progress} {runs : List Run}
    (h : ∀ run ∈ runs, go run = none) (hrun : go run = some p) :
    takeRun? go (runs ++ [run]) = some (p, runs) := by
  induction runs with
  | nil => simp [takeRun?, hrun]
  | cons r runs ih =>
    rw [List.cons_append, takeRun?, h r List.mem_cons_self,
      ih fun r' hr => h r' (List.mem_cons_of_mem _ hr)]
    rfl

/-- **What it takes for a run to go on**: one of the runs of that generation waits for the step. -/
theorem resume?_eq_some {rest : List Run} (h : d.resume? verify now g step = some (p, rest)) :
    ∃ before run after, d.runs = before ++ run :: after ∧ rest = before ++ after ∧
      run.generation = g ∧ run.take? verify now d.session step = some p := by
  obtain ⟨before, run, after, hruns, hrest, hgo⟩ := takeRun?_eq_some h
  split at hgo
  · exact ⟨before, run, after, hruns, hrest, by assumption, hgo⟩
  · cases hgo

theorem resume?_eq_none :
    d.resume? verify now g step = none ↔
      ∀ run ∈ d.runs, run.generation = g → run.take? verify now d.session step = none := by
  rw [Desk.resume?, takeRun?_eq_none]
  simp

theorem resume?_concat {runs : List Run}
    (h : ∀ r ∈ runs, r.take? verify now s step = none)
    (hrun : run.take? verify now s step = some p) (hg : run.generation = g) :
    Desk.resume? verify now ⟨s, runs ++ [run]⟩ g step = some (p, runs) := by
  apply takeRun?_concat
  · intro r hr
    simp [h r hr]
  · simp [hg, hrun]

theorem resume_none (h : d.resume? verify now g step = none) :
    d.resume verify now g step = (d, []) := by
  simp [Desk.resume, h]

theorem resume_some {rest : List Run} (h : d.resume? verify now g step = some (p, rest)) :
    d.resume verify now g step = (⟨p.session, rest ++ p.next.toList⟩, p.output) := by
  simp [Desk.resume, h]

/-! ## The work for one generation -/

theorem filter_run_of_ne {r : Run} (h : r.generation ≠ g) (runs : List Run) :
    ((r :: runs).map Work.run).filter (fun w => w.generation = g) =
      (runs.map Work.run).filter (fun w => w.generation = g) := by
  simp [Work.generation, h]

theorem filter_next_of_ne {next : Option Run} (h : ∀ r ∈ next, r.generation ≠ g) :
    (next.toList.map Work.run).filter (fun w => w.generation = g) = [] := by
  cases next with
  | none => rfl
  | some r => simp [Work.generation, h r rfl]

/-- A run that goes on leaves the work for the other generations alone, but for the timers. -/
theorem workFor_resume_of_ne {other : Nat} {rest : List Run}
    (hr : d.resume? verify now g step = some (p, rest)) (h : other ≠ g) :
    (d.resume verify now g step).1.workFor other =
      (timerWork p.session).filter (fun w => w.generation = other) ++
        (d.runs.map Work.run).filter (fun w => w.generation = other) := by
  rw [resume_some hr]
  obtain ⟨before, run, after, hruns, rfl, hg, htake⟩ := resume?_eq_some hr
  have hnext : ∀ r ∈ p.next, r.generation ≠ other := fun r hr => by
    rw [(takes_of_take? htake).next_generation hr, hg]; exact h.symm
  have hrun : run.generation ≠ other := by rw [hg]; exact h.symm
  rw [workFor_eq, hruns]
  simp only [List.map_append, List.filter_append, filter_next_of_ne hnext, List.append_nil,
    filter_run_of_ne hrun]

/-- The work for the other generations stays, or is dropped. -/
theorem workFor_resume_sublist {other : Nat} (h : other ≠ g) :
    ((d.resume verify now g step).1.workFor other).Sublist (d.workFor other) := by
  cases hr : d.resume? verify now g step with
  | none => simp [resume_none hr]
  | some found =>
    obtain ⟨p, rest⟩ := found
    rw [workFor_resume_of_ne hr h, workFor_eq]
    refine List.Sublist.append ?_ (List.Sublist.refl _)
    obtain ⟨before, run, after, -, -, hg, htake⟩ := resume?_eq_some hr
    rcases (takes_of_take? htake).timerWork with hsame | ⟨job, rfl, -, rfl⟩
    · simp [hsame]
    · have hjob : job.generation ≠ other := fun heq => h (heq ▸ hg)
      simp [timerWork, Debouncer.schedule, Work.generation, hjob]

/-- A single piece of work for a generation that takes a step is the run that takes it, and no timer
holds a job of that generation. -/
theorem workFor_of_resume {rest : List Run} (hr : d.resume? verify now g step = some (p, rest))
    (hone : (d.workFor g).length ≤ 1) :
    ∃ run, d.workFor g = [.run run] ∧ run.generation = g ∧
      run.take? verify now d.session step = some p ∧
      (timerWork d.session).filter (fun w => w.generation = g) = [] ∧
      (rest.map Work.run).filter (fun w => w.generation = g) = [] := by
  obtain ⟨before, run, after, hruns, rfl, hg, htake⟩ := resume?_eq_some hr
  have hkeep : ((run :: after).map Work.run).filter (fun w => w.generation = g) =
      .run run :: (after.map Work.run).filter (fun w => w.generation = g) := by
    simp [Work.generation, hg]
  rw [workFor_eq, hruns, List.map_append, List.filter_append, hkeep] at hone
  simp only [List.length_append, List.length_cons] at hone
  have htimer := List.eq_nil_of_length_eq_zero (l := (timerWork d.session).filter
    (fun w => w.generation = g)) (by omega)
  have hbefore := List.eq_nil_of_length_eq_zero (l := (before.map Work.run).filter
    (fun w => w.generation = g)) (by omega)
  have hafter := List.eq_nil_of_length_eq_zero (l := (after.map Work.run).filter
    (fun w => w.generation = g)) (by omega)
  refine ⟨run, ?_, hg, htake, htimer, ?_⟩
  · rw [workFor_eq, hruns, List.map_append, List.filter_append, hkeep, htimer, hbefore, hafter]
    rfl
  · rw [List.map_append, List.filter_append, hbefore, hafter]
    rfl

/-- **A run that goes on** takes the place of the piece of work it was. -/
theorem workFor_resume {rest : List Run} (hr : d.resume? verify now g step = some (p, rest))
    (hone : (d.workFor g).length ≤ 1) (hw : d.workFor g = [.run run])
    (hrun : ∀ job, run ≠ .scheduling job) :
    run.take? verify now d.session step = some p ∧
      (d.resume verify now g step).1.workFor g = p.next.toList.map .run := by
  obtain ⟨r, hw', hg, htake, htimer, hrest⟩ := workFor_of_resume hr hone
  obtain rfl : run = r := by simpa [hw] using hw'
  have htakes := takes_of_take? htake
  refine ⟨htake, ?_⟩
  have hsame : timerWork p.session = timerWork d.session := by
    rcases htakes.timerWork with hsame | ⟨job, heq, -, -⟩
    · exact hsame
    · exact absurd heq (hrun job)
  have hnext : (p.next.toList.map Work.run).filter (fun w => w.generation = g) =
      p.next.toList.map .run := by
    rw [List.filter_eq_self]
    intro w hw
    obtain ⟨r, hr, rfl⟩ := List.mem_map.mp hw
    have := htakes.next_generation (Option.mem_toList.mp hr)
    simp [Work.generation, this, hg]
  rw [resume_some hr, workFor_eq, hsame, htimer, List.map_append, List.filter_append, hrest, hnext]
  rfl

/-- A verification that is scheduled waits for its timer. -/
theorem workFor_schedule {rest : List Run} {job : VerifyJob}
    (hr : d.resume? verify now job.generation .schedule = some (p, rest))
    (hone : (d.workFor job.generation).length ≤ 1)
    (hw : d.workFor job.generation = [.run (.scheduling job)]) :
    (d.resume verify now job.generation .schedule).1.workFor job.generation =
      if d.session.generation = job.generation then [.verifyTimer job] else [] := by
  obtain ⟨r, hw', hg, htake, htimer, hrest⟩ := workFor_of_resume hr hone
  obtain rfl : .scheduling job = r := by simpa [hw] using hw'
  simp only [Run.take?, Option.some.injEq] at htake
  subst htake
  rw [resume_some hr, workFor_eq]
  simp only [Option.toList_none, List.append_nil, hrest]
  by_cases hcur : d.session.generation = job.generation
  · rw [if_pos hcur, scheduleVerify_current hcur]
    simp only [timerWork, List.filter_append, List.append_eq_nil_iff] at htimer
    simp only [timerWork, Debouncer.schedule, List.filter_append, htimer.1]
    simp [Work.generation]
  · rw [if_neg hcur, scheduleVerify_stale hcur]
    exact htimer

/-! ## Timers, edits and closing -/

theorem compileTimer_none (h : d.session.compileTimer.waiting = none) : d.compileTimer = d := by
  obtain ⟨⟨text, generation, phase, ⟨delay, waiting⟩, verifyTimer⟩, runs⟩ := d
  simp only at h
  subst h
  simp [Desk.compileTimer, Debouncer.fire]

theorem verifyTimer_none (h : d.session.verifyTimer.waiting = none) : d.verifyTimer = d := by
  obtain ⟨⟨text, generation, phase, compileTimer, ⟨delay, waiting⟩⟩, runs⟩ := d
  simp only at h
  subst h
  simp [Desk.verifyTimer, Debouncer.fire]

theorem workFor_compileTimer_of_ne {t : Timer Nat} (h : d.session.compileTimer.waiting = some t)
    (hg : t.job ≠ g) : d.compileTimer.workFor g = d.workFor g := by
  rw [workFor_eq, workFor_eq]
  simp [Desk.compileTimer, Debouncer.fire, timerWork, h, Work.generation, Run.generation, hg]

/-- The compile timer turns the job it holds into a run. -/
theorem workFor_compileTimer {t : Timer Nat} (h : d.session.compileTimer.waiting = some t)
    (hone : (d.workFor t.job).length ≤ 1) :
    d.workFor t.job = [.compileTimer t.job] ∧
      d.compileTimer.workFor t.job = [.run (.starting t.job)] := by
  obtain ⟨others, hw, hfired⟩ : ∃ others, d.workFor t.job = .compileTimer t.job :: others ∧
      d.compileTimer.workFor t.job = others ++ [.run (.starting t.job)] :=
    ⟨((d.session.verifyTimer.waiting.map fun t => Work.verifyTimer t.job).toList ++
        d.runs.map Work.run).filter (fun w => w.generation = t.job),
      by rw [workFor_eq]; simp [timerWork, h, Work.generation],
      by rw [workFor_eq]; simp [Desk.compileTimer, Debouncer.fire, timerWork, h, Work.generation,
        Run.generation]⟩
  obtain rfl : others = [] := List.eq_nil_of_length_eq_zero (by simpa [hw] using hone)
  exact ⟨hw, hfired⟩

theorem workFor_verifyTimer_of_ne {t : Timer VerifyJob} (h : d.session.verifyTimer.waiting = some t)
    (hg : t.job.generation ≠ g) : d.verifyTimer.workFor g = d.workFor g := by
  rw [workFor_eq, workFor_eq]
  simp [Desk.verifyTimer, Debouncer.fire, timerWork, h, Work.generation, Run.generation, hg]

/-- The verify timer turns the job it holds into a run. -/
theorem workFor_verifyTimer {t : Timer VerifyJob} (h : d.session.verifyTimer.waiting = some t)
    (hone : (d.workFor t.job.generation).length ≤ 1) :
    d.workFor t.job.generation = [.verifyTimer t.job] ∧
      d.verifyTimer.workFor t.job.generation = [.run (.checking t.job)] := by
  obtain ⟨before, after, hw, hfired⟩ : ∃ before after,
      d.workFor t.job.generation = before ++ .verifyTimer t.job :: after ∧
      d.verifyTimer.workFor t.job.generation = before ++ (after ++ [.run (.checking t.job)]) :=
    ⟨(d.session.compileTimer.waiting.map fun t => Work.compileTimer t.job).toList.filter
        (fun w => w.generation = t.job.generation),
      (d.runs.map Work.run).filter (fun w => w.generation = t.job.generation),
      by rw [workFor_eq]; simp [timerWork, h, Work.generation],
      by rw [workFor_eq]; simp [Desk.verifyTimer, Debouncer.fire, timerWork, h, Work.generation,
        Run.generation]⟩
  rw [hw, List.length_append, List.length_cons] at hone
  obtain rfl : before = [] := List.eq_nil_of_length_eq_zero (by omega)
  obtain rfl : after = [] := List.eq_nil_of_length_eq_zero (by omega)
  exact ⟨hw, hfired⟩

theorem workFor_edit_sublist {text : String} (hg : g ≠ d.session.generation + 1) :
    ((d.edit now text).workFor g).Sublist (d.workFor g) := by
  rw [workFor_eq, workFor_eq]
  refine List.Sublist.append ?_ (List.Sublist.refl _)
  simp [Desk.edit, Session.edit, Session.scheduleCompile, Debouncer.schedule, Debouncer.cancel,
    timerWork, Work.generation, hg.symm]

theorem workFor_edit {text : String} (h : d.workFor (d.session.generation + 1) = []) :
    (d.edit now text).workFor (d.session.generation + 1) =
      [.compileTimer (d.session.generation + 1)] := by
  rw [workFor_eq, List.append_eq_nil_iff] at h
  rw [workFor_eq, show (d.edit now text).runs = d.runs from rfl, h.2]
  simp [Desk.edit, Session.edit, Session.scheduleCompile, Debouncer.schedule, Debouncer.cancel,
    timerWork, Work.generation]

theorem workFor_close_sublist :
    (Desk.workFor { d with session := d.session.close } g).Sublist (d.workFor g) := by
  rw [workFor_eq, workFor_eq]
  refine List.Sublist.append ?_ (List.Sublist.refl _)
  simp [Session.close, Debouncer.cancel, timerWork]

end DialectBridge.Pipeline
