import DialectBridge.Proofs.Pipeline.Work

/-!
# Operations on a desk

An operation takes its steps without a break, so between operations every run waits for an answer of
the compiler or the verifier (`Desk.Waiting`).  For such a desk each operation has a closed form:

* `operate_compileTimer`, `operate_verifyTimer` — a timer with a job of the current generation;
* `compileReturn_cases`, `verifyReturn_cases` — an answer finds no run, a run of an old generation
  that ends there, or the run of the current one, whose gate is passed.
-/

namespace DialectBridge.Pipeline

/-- The run waits for an answer. -/
def Run.waits : Run → Bool
  | .compiling _ _ => true
  | .verifying _ => true
  | _ => false

/-- Every run waits for an answer. -/
def Desk.Waiting (d : Desk) : Prop :=
  ∀ run ∈ d.runs, run.waits = true

/-- The step is an answer. -/
def Step.isAnswer : Step → Bool
  | .compiled _ => true
  | .verified _ => true
  | _ => false

variable {verify : Bool} {now g : Nat} {d : Desk} {s : DocumentSession} {step : Step} {run : Run}
  {runs : List Run}

theorem take?_none_of_waits (hrun : run.waits = true) (hstep : step.isAnswer = false) :
    run.take? verify now s step = none := by
  cases run <;> cases step <;> simp_all [Run.waits, Step.isAnswer, Run.take?]

theorem Desk.Waiting.resume_none (h : d.Waiting) (hstep : step.isAnswer = false) :
    d.resume verify now g step = (d, []) :=
  Pipeline.resume_none
    (resume?_eq_none.mpr fun run hrun _ => take?_none_of_waits (h run hrun) hstep)

theorem perform_run {after : Desk} {output : List Output} (rest : List Action)
    (h : d.resume verify now g step = (after, output)) :
    d.perform verify now (.run g step :: rest) =
      ((after.perform verify now rest).1, output ++ (after.perform verify now rest).2) := by
  rw [Desk.perform, Desk.act, h]

/-- Without an answer nothing goes on. -/
theorem Desk.Waiting.perform_none (h : d.Waiting) {later : Step}
    (hstep : step.isAnswer = false) (hlater : later.isAnswer = false) :
    d.perform verify now [.run g step, .run g later] = (d, []) := by
  rw [perform_run _ (h.resume_none hstep), perform_run _ (h.resume_none hlater)]
  rfl

/-- A run that does not wait goes on beside those that do. -/
theorem resume_concat {p : Progress} (h : ∀ r ∈ runs, r.waits = true) (hstep : step.isAnswer = false)
    (htake : run.take? verify now s step = some p) (hg : run.generation = g) :
    Desk.resume verify now ⟨s, runs ++ [run]⟩ g step = (⟨p.session, runs ++ p.next.toList⟩, p.output) :=
  resume_some (resume?_concat (fun r hr => take?_none_of_waits (h r hr) hstep) htake hg)

/-! ## Timers -/

theorem operate_compileTimer_none (h : d.session.compileTimer.waiting = none) :
    d.operate verify now .compileTimer = (d, []) := by
  simp [Desk.operate, Operation.actions, h, Desk.perform]

theorem operate_verifyTimer_none (h : d.session.verifyTimer.waiting = none) :
    d.operate verify now .verifyTimer = (d, []) := by
  simp [Desk.operate, Operation.actions, h, Desk.perform]

/-- A compile timer with a job of the current generation starts its compilation. -/
theorem operate_compileTimer {t : Timer Nat} (hwait : d.Waiting)
    (h : d.session.compileTimer.waiting = some t) (hg : d.session.generation = t.job) :
    d.operate verify now .compileTimer =
      (⟨{ d.session with
            compileTimer := d.session.compileTimer.fire.1, phase := .compilingDialect },
          d.runs ++ [.compiling t.job d.session.text]⟩, [.compile t.job d.session.text]) := by
  have hbegin : Desk.resume verify now
      ⟨{ d.session with compileTimer := d.session.compileTimer.fire.1 }, d.runs ++ [.starting t.job]⟩
      t.job .begin = _ :=
    resume_concat hwait rfl (by rw [Run.take?, begin_current (by exact hg)]) rfl
  simp only [Desk.operate, Operation.actions, h, Desk.perform, Desk.act, Desk.compileTimer]
  simp only [Debouncer.fire, h, Option.map_some, Option.toList_some] at hbegin ⊢
  rw [hbegin]
  rfl

/-- A verify timer with a job of the current generation starts its verification. -/
theorem operate_verifyTimer {t : Timer VerifyJob} (hwait : d.Waiting)
    (h : d.session.verifyTimer.waiting = some t) (hg : d.session.generation = t.job.generation) :
    d.operate verify now .verifyTimer =
      (⟨{ d.session with verifyTimer := d.session.verifyTimer.fire.1 },
          d.runs ++ [.verifying t.job]⟩, [.verify t.job]) := by
  have hcheck : Desk.resume verify now
      ⟨{ d.session with verifyTimer := d.session.verifyTimer.fire.1 }, d.runs ++ [.checking t.job]⟩
      t.job.generation .check = _ :=
    resume_concat hwait rfl (by rw [Run.take?, check_current (by exact hg)]) rfl
  simp only [Desk.operate, Operation.actions, h, Desk.perform, Desk.act, Desk.verifyTimer]
  simp only [Debouncer.fire, h, Option.map_some, Option.toList_some] at hcheck ⊢
  rw [hcheck]
  rfl

/-! ## Answers -/

/-- The session behind the gate of a generation, with what is to be verified later on scheduled. -/
def passedSession (now : Nat) (s : DocumentSession) (g : Nat) (gate : Passage) : DocumentSession :=
  match gate.next with
  | none => { s with phase := gate.phase }
  | some t => { s with phase := gate.phase, verifyTimer := s.verifyTimer.schedule now ⟨t, g⟩ }

theorem passedSession_generation (gate : Passage) :
    (passedSession now s g gate).generation = s.generation := by
  unfold passedSession
  split <;> rfl

theorem passedSession_phase (gate : Passage) : (passedSession now s g gate).phase = gate.phase := by
  unfold passedSession
  split <;> rfl

/-- Behind the gate what there is to tell is told and what there is to verify scheduled. -/
theorem perform_announcing (h : ∀ r ∈ runs, r.waits = true) (hg : s.generation = g)
    (gate : Passage) :
    Desk.perform verify now
        ⟨{ s with phase := gate.phase }, runs ++ [.announcing g gate.what gate.next]⟩
        [.run g .announce, .run g .schedule] =
      (⟨passedSession now s g gate, runs⟩, [.tell g gate.what]) := by
  have htell : Desk.resume verify now
      ⟨{ s with phase := gate.phase }, runs ++ [.announcing g gate.what gate.next]⟩ g .announce = _ :=
    resume_concat h rfl rfl rfl
  rw [perform_run _ htell]
  cases hnext : gate.next with
  | none =>
    have hwait : Desk.Waiting ⟨{ s with phase := gate.phase }, runs⟩ := h
    simp only [Option.map_none, Option.toList_none, List.append_nil]
    rw [perform_run _ (hwait.resume_none rfl)]
    simp [passedSession, hnext, Desk.perform]
  | some t =>
    have hschedule : Desk.resume verify now
        ⟨{ s with phase := gate.phase }, runs ++ [.scheduling ⟨t, g⟩]⟩ g .schedule = _ :=
      resume_concat h rfl rfl rfl
    simp only [Option.map_some, Option.toList_some]
    rw [perform_run _ hschedule, scheduleVerify_current (by exact hg)]
    simp [passedSession, hnext, Desk.perform]

/-- An answer finds no run that waits for it, or a run that goes on beside waiting ones. -/
theorem Desk.Waiting.resume_cases (hwait : d.Waiting) (verify : Bool) (now g : Nat) (step : Step) :
    (d.resume verify now g step = (d, []) ∧
      ∀ run ∈ d.runs, run.generation = g → run.take? verify now d.session step = none) ∨
    ∃ before run after p, d.runs = before ++ run :: after ∧ run.generation = g ∧
      run.take? verify now d.session step = some p ∧ (∀ r ∈ before ++ after, r.waits = true) ∧
      d.resume verify now g step =
        (⟨p.session, before ++ after ++ p.next.toList⟩, p.output) := by
  cases hr : d.resume? verify now g step with
  | none => exact .inl ⟨Pipeline.resume_none hr, resume?_eq_none.mp hr⟩
  | some found =>
    obtain ⟨p, rest⟩ := found
    obtain ⟨before, run, after, hruns, rfl, hg, htake⟩ := resume?_eq_some hr
    refine .inr ⟨before, run, after, p, hruns, hg, htake, fun r hmem => hwait r ?_, resume_some hr⟩
    rw [hruns]
    grind

/-- **An answer of the compiler** finds no run that waits for it, or ends the run it finds: behind
the gate while the generation is the current one, and without a trace when it is not. -/
theorem compileReturn_cases (verify : Bool) (now : Nat) (hwait : d.Waiting) (g : Nat)
    (answer : Compiler.Answer) :
    (d.operate verify now (.compileReturn g answer) = (d, []) ∧ ∀ text, .compiling g text ∉ d.runs) ∨
    ∃ before text after, d.runs = before ++ .compiling g text :: after ∧
      d.operate verify now (.compileReturn g answer) =
        if d.session.generation = g then
          (⟨passedSession now d.session g (compileGate verify text answer), before ++ after⟩,
            [.tell g (compileGate verify text answer).what])
        else (⟨d.session, before ++ after⟩, []) := by
  simp only [Desk.operate, Operation.actions]
  rcases hwait.resume_cases verify now g (.compiled answer) with
    ⟨hresume, hnone⟩ | ⟨before, run, after, p, hruns, hrun, htake, hrest, hresume⟩
  · left
    refine ⟨?_, fun text hmem => ?_⟩
    · rw [perform_run _ hresume, hwait.perform_none rfl rfl]
      rfl
    · exact absurd (hnone _ hmem rfl) (by simp [Run.take?])
  · right
    cases run with
    | compiling g' text =>
      obtain rfl : g' = g := hrun
      simp only [Run.take?, Run.compiled, Option.some.injEq] at htake
      subst htake
      refine ⟨before, text, after, hruns, ?_⟩
      rw [perform_run _ hresume]
      by_cases hg : d.session.generation = g'
      · rw [if_pos hg, pass_current hg, Option.toList_some, perform_announcing hrest hg]
        rfl
      · have hwait' : Desk.Waiting ⟨d.session, before ++ after⟩ := hrest
        rw [if_neg hg, pass_stale hg, Option.toList_none, List.append_nil,
          hwait'.perform_none rfl rfl]
        rfl
    | _ => cases htake

/-- What an answer of the verifier to a job of the current generation tells. -/
def foundOutput (job : VerifyJob) : Verifier.Answer → List Output
  | .error _ => []
  | .ok found =>
    [.tell job.generation (.publish (Finding.placeAll job.map found job.text.toList))]

/-- Findings are mapped and told. -/
theorem perform_mapping {job : VerifyJob} (h : ∀ r ∈ runs, r.waits = true)
    (hg : s.generation = job.generation) (found : List Finding) :
    Desk.perform verify now ⟨{ s with phase := .mapping }, runs ++ [.mapping job found]⟩
        [.run job.generation .map, .run job.generation .announce] =
      (⟨{ s with phase := .published }, runs⟩, foundOutput job (.ok found)) := by
  have hmap : Desk.resume verify now
      ⟨{ s with phase := .mapping }, runs ++ [.mapping job found]⟩ job.generation .map = _ :=
    resume_concat h rfl (by rw [Run.take?, Run.map, pass_current (by exact hg)]) rfl
  have htell (what : Announcement) : Desk.resume verify now
      ⟨{ s with phase := .published }, runs ++ [.announcing job.generation what none]⟩
      job.generation .announce = _ :=
    resume_concat h rfl rfl rfl
  rw [perform_run _ hmap, Option.toList_some, perform_run _ (htell _)]
  simp [foundOutput, Desk.perform]

/-- **An answer of the verifier** finds no run that waits for it, or ends the run it finds: with the
document published while the generation is the current one, and without a trace when it is not. -/
theorem verifyReturn_cases (verify : Bool) (now : Nat) (hwait : d.Waiting) (g : Nat)
    (answer : Verifier.Answer) :
    (d.operate verify now (.verifyReturn g answer) = (d, []) ∧
      ∀ job, job.generation = g → .verifying job ∉ d.runs) ∨
    ∃ before job after, d.runs = before ++ .verifying job :: after ∧ job.generation = g ∧
      d.operate verify now (.verifyReturn g answer) =
        if d.session.generation = g then
          (⟨{ d.session with phase := .published }, before ++ after⟩, foundOutput job answer)
        else (⟨d.session, before ++ after⟩, []) := by
  simp only [Desk.operate, Operation.actions]
  rcases hwait.resume_cases verify now g (.verified answer) with
    ⟨hresume, hnone⟩ | ⟨before, run, after, p, hruns, hrun, htake, hrest, hresume⟩
  · left
    refine ⟨?_, fun job hjob hmem => ?_⟩
    · rw [perform_run _ hresume, hwait.perform_none rfl rfl]
      rfl
    · exact absurd (hnone _ hmem hjob) (by simp [Run.take?])
  · right
    have hwait' (s : DocumentSession) : Desk.Waiting ⟨s, before ++ after⟩ := hrest
    cases run with
    | verifying job =>
      obtain rfl : job.generation = g := hrun
      simp only [Run.take?, Option.some.injEq] at htake
      subst htake
      refine ⟨before, job, after, hruns, rfl, ?_⟩
      rw [perform_run _ hresume]
      by_cases hg : d.session.generation = job.generation
      · rw [if_pos hg]
        cases answer with
        | error cause =>
          rw [Run.verified, advance_current hg, Option.toList_none, List.append_nil,
            (hwait' _).perform_none rfl rfl]
          rfl
        | ok found =>
          rw [Run.verified, pass_current hg, Option.toList_some, perform_mapping hrest hg]
          rfl
      · rw [if_neg hg]
        cases answer with
        | error cause =>
          rw [Run.verified, advance_stale hg, Option.toList_none, List.append_nil,
            (hwait' _).perform_none rfl rfl]
          rfl
        | ok found =>
          rw [Run.verified, pass_stale hg, Option.toList_none, List.append_nil,
            (hwait' _).perform_none rfl rfl]
          rfl
    | _ => cases htake

end DialectBridge.Pipeline
