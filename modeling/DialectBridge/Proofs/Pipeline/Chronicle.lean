import DialectBridge.Proofs.Pipeline.Work

/-!
# What happens to an edit

Steps of a desk may come in any order: edits and closings, timers that fire, compilers and verifiers
that answer at any time and whatever they like.  `Desk.history` takes such steps and records what
happens, with the generation that was current at the time.  Of that record, `about g` keeps what
belongs to generation `g`.

* `Chronicle` lists, for one edit, every record it can have so far together with the work that is
  left to do for it.
* `Kept` says that the work on the desk and the record of every generation form a chronicle;
  `Kept.act` shows that every step keeps it so, hence every history does (`Kept.history`).
* `guarded` puts a gate and the announcement behind it into one step.  In a history of such steps
  nothing is told of a generation but while it is the current one (`told_current`).
* `generation_trace` puts both together: what is told of an edit follows its `script`.
-/

namespace DialectBridge.Pipeline

/-- What happens, for some generation. -/
inductive Happening where
  | edited (generation : Nat) (text : String)
  /-- The compiler is asked. -/
  | compile (generation : Nat) (text : String)
  /-- The compiler has answered. -/
  | compiled (generation : Nat) (answer : Compiler.Answer)
  | told (generation : Nat) (what : Announcement)
  /-- The verifier is asked. -/
  | verify (job : VerifyJob)
  /-- The verifier has answered. -/
  | verified (generation : Nat) (answer : Verifier.Answer)

namespace Happening

/-- The generation that something happens for. -/
def generation : Happening → Nat
  | .edited generation _ => generation
  | .compile generation _ => generation
  | .compiled generation _ => generation
  | .told generation _ => generation
  | .verify job => job.generation
  | .verified generation _ => generation

/-- What is asked or told happens. -/
def ofOutput : Output → Happening
  | .compile generation text => .compile generation text
  | .verify job => .verify job
  | .tell generation what => .told generation what

/-- The answer of the compiler, if this is one. -/
def compiled? : Happening → Option Compiler.Answer
  | .compiled _ answer => some answer
  | _ => none

/-- The answer of the verifier, if this is one. -/
def verified? : Happening → Option Verifier.Answer
  | .verified _ answer => some answer
  | _ => none

/-- What is told, if something is. -/
def told? : Happening → Option Announcement
  | .told _ what => some what
  | _ => none

/-- The compiler is asked. -/
def isCompile : Happening → Bool
  | .compile _ _ => true
  | _ => false

/-- The verifier is asked. -/
def isVerify : Happening → Bool
  | .verify _ => true
  | _ => false

end Happening

/-- What belongs to a generation. -/
def about (g : Nat) (es : List Happening) : List Happening :=
  es.filter fun e => e.generation = g

/-- An entry of a record: what happens, and the generation that is current then. -/
structure Entry where
  current : Nat
  what : Happening

namespace Desk

/-- What a step takes in: an edit, or an answer that a run waits for. -/
def heard (verify : Bool) (now : Nat) (d : Desk) : Action → List Happening
  | .edit text => [.edited (d.edit now text).session.generation text]
  | .run g (.compiled answer) =>
    if (d.resume? verify now g (.compiled answer)).isSome then [.compiled g answer] else []
  | .run g (.verified answer) =>
    if (d.resume? verify now g (.verified answer)).isSome then [.verified g answer] else []
  | _ => []

/-- All that happens in a step. -/
def happenings (verify : Bool) (now : Nat) (d : Desk) (action : Action) : List Happening :=
  d.heard verify now action ++ (d.act verify now action).2.map .ofOutput

/-- Takes steps, each at its time, and records what happens. -/
def history (verify : Bool) : Desk → List (Nat × Action) → Desk × List Entry
  | d, [] => (d, [])
  | d, (now, action) :: rest =>
    let next := (d.act verify now action).1
    let (last, later) := history verify next rest
    (last, (d.happenings verify now action).map (⟨next.session.generation, ·⟩) ++ later)

end Desk

/-! ## The chronicle of an edit -/

/-- The record of a text that compiled, up to the clearing of its diagnostics. -/
def cleared (g : Nat) (t host : String) (map : SourceMap) : List Happening :=
  [.edited g t, .compile g t, .compiled g (.ok (.compiled host map)), .told g .clear]

/-- The verification of a text that compiled. -/
def jobOf (g : Nat) (t host : String) (map : SourceMap) : VerifyJob :=
  ⟨⟨t, host, map⟩, g⟩

/-- What is told of the findings of the verifier. -/
def placed (t : String) (map : SourceMap) (found : List Finding) : Announcement :=
  .publish (Finding.placeAll map found t.toList)

/-- **The chronicle of the edit of generation `g` to text `t`**: what may have happened for it so
far, and the work that is left for it then.  Work may be dropped at any time, never to come back. -/
inductive Chronicle (verify : Bool) (g : Nat) (t : String) : List Happening → List Work → Prop
  | unborn : Chronicle verify g t [] []
  | waiting : Chronicle verify g t [.edited g t] [.compileTimer g]
  | starting : Chronicle verify g t [.edited g t] [.run (.starting g)]
  | compiling : Chronicle verify g t [.edited g t, .compile g t] [.run (.compiling g t)]
  | announcing (answer : Compiler.Answer) :
      Chronicle verify g t [.edited g t, .compile g t, .compiled g answer]
        [.run (.announcing g (compileGate verify t answer).what (compileGate verify t answer).next)]
  | announced (answer : Compiler.Answer) (hnext : (compileGate verify t answer).next = none) :
      Chronicle verify g t
        [.edited g t, .compile g t, .compiled g answer, .told g (compileGate verify t answer).what] []
  | scheduling (hv : verify = true) (host : String) (map : SourceMap) :
      Chronicle verify g t (cleared g t host map) [.run (.scheduling (jobOf g t host map))]
  | settling (hv : verify = true) (host : String) (map : SourceMap) :
      Chronicle verify g t (cleared g t host map) [.verifyTimer (jobOf g t host map)]
  | checking (hv : verify = true) (host : String) (map : SourceMap) :
      Chronicle verify g t (cleared g t host map) [.run (.checking (jobOf g t host map))]
  | verifying (hv : verify = true) (host : String) (map : SourceMap) :
      Chronicle verify g t (cleared g t host map ++ [.verify (jobOf g t host map)])
        [.run (.verifying (jobOf g t host map))]
  | failed (hv : verify = true) (host : String) (map : SourceMap) (cause : ServiceError) :
      Chronicle verify g t
        (cleared g t host map ++ [.verify (jobOf g t host map), .verified g (.error cause)]) []
  | mapping (hv : verify = true) (host : String) (map : SourceMap) (found : List Finding) :
      Chronicle verify g t
        (cleared g t host map ++ [.verify (jobOf g t host map), .verified g (.ok found)])
        [.run (.mapping (jobOf g t host map) found)]
  | publishing (hv : verify = true) (host : String) (map : SourceMap) (found : List Finding) :
      Chronicle verify g t
        (cleared g t host map ++ [.verify (jobOf g t host map), .verified g (.ok found)])
        [.run (.announcing g (placed t map found) none)]
  | published (hv : verify = true) (host : String) (map : SourceMap) (found : List Finding) :
      Chronicle verify g t
        (cleared g t host map ++ [.verify (jobOf g t host map), .verified g (.ok found),
          .told g (placed t map found)]) []
  | dropped {es : List Happening} {w : Work} (h : Chronicle verify g t es [w]) :
      Chronicle verify g t es []

variable {verify : Bool} {now g : Nat} {t : String} {d : Desk} {s : DocumentSession} {step : Step}
  {run : Run} {p : Progress} {es : List Happening} {ws : List Work}

theorem Chronicle.length_work (h : Chronicle verify g t es ws) : ws.length ≤ 1 := by
  cases h <;> simp

theorem Chronicle.sublist {ws' : List Work} (h : Chronicle verify g t es ws)
    (hsub : ws'.Sublist ws) : Chronicle verify g t es ws' := by
  match ws, h, h.length_work with
  | [], h, _ => rwa [List.sublist_nil.mp hsub]
  | [w], h, _ =>
    cases hsub with
    | cons _ hnil => rw [List.sublist_nil.mp hnil]; exact h.dropped
    | cons_cons _ hnil => rwa [List.sublist_nil.mp hnil]

theorem Chronicle.work_nil (h : Chronicle verify g t [] ws) : ws = [] := by
  cases h
  · rfl
  · rfl

theorem Chronicle.edited_mem {w : Work} (h : Chronicle verify g t es [w]) : .edited g t ∈ es := by
  cases h <;> simp [cleared]

/-- Only a text that compiled is verified, and only where host texts are verified at all. -/
theorem compileGate_next {answer : Compiler.Answer} {translation : Translation}
    (h : (compileGate verify t answer).next = some translation) :
    verify = true ∧ ∃ host map, answer = .ok (.compiled host map) ∧ translation = ⟨t, host, map⟩ := by
  match answer with
  | .error fault => cases h
  | .ok (.rejected diagnostics) => cases h
  | .ok (.compiled host map) =>
    simp only [compileGate, Option.ite_none_right_eq_some, Option.some.injEq] at h
    exact ⟨h.1, host, map, rfl, h.2.symm⟩

/-- What a step of a run takes in. -/
def Step.heard (g : Nat) : Step → List Happening
  | .compiled answer => [.compiled g answer]
  | .verified answer => [.verified g answer]
  | _ => []

/-- A step that the work of an edit is waiting for continues its chronicle. -/
theorem Chronicle.takes (h : Chronicle verify g t es [.run run])
    (htakes : run.take? verify now s step = some p) (hrun : ∀ job, run ≠ .scheduling job)
    (ht : run = .starting g → s.generation = g → s.text = t) :
    Chronicle verify g t (es ++ (step.heard g ++ p.output.map .ofOutput))
      (p.next.toList.map .run) := by
  cases h <;> cases step <;> simp only [Run.take?, reduceCtorEq, Option.some.injEq] at htakes <;>
    subst htakes
  case starting.begin =>
    by_cases hg : s.generation = g
    · have htext := ht rfl hg
      subst htext
      rw [begin_current hg]; exact .compiling
    · rw [begin_stale hg]; exact Chronicle.starting.dropped
  case compiling.compiled answer =>
    simp only [Run.compiled]
    by_cases hg : s.generation = g
    · rw [pass_current hg]; exact .announcing answer
    · rw [pass_stale hg]; exact (Chronicle.announcing answer).dropped
  case announcing.announce answer =>
    cases hnext : (compileGate verify t answer).next with
    | none => exact .announced answer hnext
    | some translation =>
      obtain ⟨hv, host, map, rfl, rfl⟩ := compileGate_next hnext
      exact .scheduling hv host map
  case scheduling.schedule => exact absurd rfl (hrun _)
  case checking.check hv host map =>
    unfold Run.check
    split
    · exact .verifying hv host map
    · exact (Chronicle.checking hv host map).dropped
  case verifying.verified hv host map answer =>
    cases answer with
    | error cause => exact .failed hv host map cause
    | ok found =>
      by_cases hg : s.generation = (jobOf g t host map).generation
      · rw [Run.verified, pass_current hg]; exact .mapping hv host map found
      · rw [Run.verified, pass_stale hg]; exact (Chronicle.mapping hv host map found).dropped
  case mapping.map hv host map found =>
    by_cases hg : s.generation = (jobOf g t host map).generation
    · rw [Run.map, pass_current hg]; exact .publishing hv host map found
    · rw [Run.map, pass_stale hg]; exact (Chronicle.mapping hv host map found).dropped
  case publishing.announce hv host map found => exact .published hv host map found

theorem Chronicle.compileTimer {generation : Nat}
    (h : Chronicle verify g t es [.compileTimer generation]) :
    Chronicle verify g t es [.run (.starting generation)] := by
  cases h with
  | waiting => exact .starting

theorem Chronicle.verifyTimer {job : VerifyJob} (h : Chronicle verify g t es [.verifyTimer job]) :
    Chronicle verify g t es [.run (.checking job)] := by
  cases h with
  | settling hv host map => exact .checking hv host map

theorem Chronicle.schedules {job : VerifyJob} (h : Chronicle verify g t es [.run (.scheduling job)]) :
    Chronicle verify g t es [.verifyTimer job] := by
  cases h with
  | scheduling hv host map => exact .settling hv host map

/-! ## Every step keeps the chronicles -/

/-- The record of every generation, together with the work on the desk for it, is a chronicle. -/
structure Kept (verify : Bool) (d : Desk) (es : List Happening) : Prop where
  chronicle : ∀ g, ∃ t, Chronicle verify g t (about g es) (d.workFor g)
  bound : ∀ e ∈ es, e.generation ≤ d.session.generation
  text : ∀ t, .edited d.session.generation t ∈ es → d.session.text = t

theorem about_append (g : Nat) (es later : List Happening) :
    about g (es ++ later) = about g es ++ about g later := by
  simp [about]

theorem mem_about {e : Happening} : e ∈ about g es ↔ e ∈ es ∧ e.generation = g := by
  simp [about]

theorem about_eq_self (h : ∀ e ∈ es, e.generation = g) : about g es = es := by
  simpa [about, List.filter_eq_self] using h

theorem about_eq_nil (h : ∀ e ∈ es, e.generation ≠ g) : about g es = [] := by
  simpa [about, List.filter_eq_nil_iff] using h

theorem Kept.length_work (h : Kept verify d es) (g : Nat) : (d.workFor g).length ≤ 1 :=
  (h.chronicle g).choose_spec.length_work

theorem Kept.fresh (verify : Bool) (compileDelay verifyDelay : Nat) :
    Kept verify (.fresh compileDelay verifyDelay) [] := by
  refine ⟨fun g => ⟨"", ?_⟩, by simp, by simp⟩
  exact .unborn

theorem Kept.edit (h : Kept verify d es) (now : Nat) (text : String) :
    Kept verify (d.edit now text) (es ++ [.edited (d.session.generation + 1) text]) := by
  have hnew : about (d.session.generation + 1) es = [] :=
    about_eq_nil fun e he => by have := h.bound e he; omega
  refine ⟨fun g => ?_, ?_, ?_⟩
  · obtain ⟨t, ht⟩ := h.chronicle g
    rw [about_append]
    by_cases hg : g = d.session.generation + 1
    · subst hg
      rw [hnew] at ht ⊢
      rw [workFor_edit ht.work_nil, about_eq_self (by simp [Happening.generation])]
      exact ⟨text, .waiting⟩
    · have hother : about g [.edited (d.session.generation + 1) text] = [] :=
        about_eq_nil (by simpa [Happening.generation] using fun h => hg h.symm)
      rw [hother, List.append_nil]
      exact ⟨t, ht.sublist (workFor_edit_sublist hg)⟩
  · intro e he
    rcases List.mem_append.mp he with he | he
    · exact Nat.le_succ_of_le (h.bound e he)
    · rw [List.mem_singleton.mp he]; exact Nat.le_refl _
  · intro t ht
    rcases List.mem_append.mp ht with ht | ht
    · have hle : d.session.generation + 1 ≤ d.session.generation := h.bound _ ht
      omega
    · simp only [List.mem_singleton, Happening.edited.injEq] at ht
      exact ht.2.symm

theorem Kept.close (h : Kept verify d es) : Kept verify { d with session := d.session.close } es := by
  refine ⟨fun g => ?_, fun e he => Nat.le_succ_of_le (h.bound e he), fun t ht => ?_⟩
  · obtain ⟨t, ht⟩ := h.chronicle g
    exact ⟨t, ht.sublist workFor_close_sublist⟩
  · have hle : d.session.generation + 1 ≤ d.session.generation := h.bound _ ht
    omega

theorem Kept.compileTimer (h : Kept verify d es) : Kept verify d.compileTimer es := by
  cases hw : d.session.compileTimer.waiting with
  | none => rwa [compileTimer_none hw]
  | some timer =>
    refine ⟨fun g => ?_, h.bound, h.text⟩
    obtain ⟨t, ht⟩ := h.chronicle g
    by_cases hg : timer.job = g
    · subst hg
      obtain ⟨hwork, hfired⟩ := workFor_compileTimer hw ht.length_work
      rw [hwork] at ht
      rw [hfired]
      exact ⟨t, ht.compileTimer⟩
    · rw [workFor_compileTimer_of_ne hw hg]
      exact ⟨t, ht⟩

theorem Kept.verifyTimer (h : Kept verify d es) : Kept verify d.verifyTimer es := by
  cases hw : d.session.verifyTimer.waiting with
  | none => rwa [verifyTimer_none hw]
  | some timer =>
    refine ⟨fun g => ?_, h.bound, h.text⟩
    obtain ⟨t, ht⟩ := h.chronicle g
    by_cases hg : timer.job.generation = g
    · subst hg
      obtain ⟨hwork, hfired⟩ := workFor_verifyTimer hw ht.length_work
      rw [hwork] at ht
      rw [hfired]
      exact ⟨t, ht.verifyTimer⟩
    · rw [workFor_verifyTimer_of_ne hw hg]
      exact ⟨t, ht⟩

theorem happenings_run_none (h : d.resume? verify now g step = none) :
    d.happenings verify now (.run g step) = [] := by
  cases step <;> simp [Desk.happenings, Desk.heard, Desk.act, resume_none h, h]

theorem happenings_run_some {rest : List Run} (h : d.resume? verify now g step = some (p, rest)) :
    d.happenings verify now (.run g step) = step.heard g ++ p.output.map .ofOutput := by
  cases step <;> simp [Desk.happenings, Desk.heard, Desk.act, resume_some h, h, Step.heard]

theorem Takes.output_generation (h : Takes verify now s step run p) :
    ∀ e ∈ p.output.map Happening.ofOutput, e.generation = run.generation := by
  cases h <;> simp [Happening.ofOutput, Happening.generation, Run.generation]

theorem heard_generation : ∀ e ∈ step.heard g, e.generation = g := by
  cases step <;> simp [Step.heard, Happening.generation]

theorem not_edited_mem {generation : Nat} :
    .edited generation t ∉ step.heard g ++ p.output.map Happening.ofOutput := by
  intro hmem
  rcases List.mem_append.mp hmem with hmem | hmem
  · cases step <;> simp [Step.heard] at hmem
  · obtain ⟨output, -, heq⟩ := List.mem_map.mp hmem
    cases output <;> cases heq

/-- A step of the run of a generation continues the chronicle of its edit. -/
theorem Kept.chronicle_resume {rest : List Run} (h : Kept verify d es)
    (hr : d.resume? verify now g step = some (p, rest))
    (ht : Chronicle verify g t (about g es) (d.workFor g)) :
    Chronicle verify g t (about g es ++ (step.heard g ++ p.output.map .ofOutput))
      ((d.resume verify now g step).1.workFor g) := by
  have hone := ht.length_work
  obtain ⟨run, hwork, hg, htake, -, -⟩ := workFor_of_resume hr hone
  rw [hwork] at ht
  have hedited := (mem_about.mp ht.edited_mem).1
  by_cases hrun : ∃ job, run = .scheduling job
  · obtain ⟨job, rfl⟩ := hrun
    obtain rfl : job.generation = g := hg
    cases step <;> simp only [Run.take?, reduceCtorEq, Option.some.injEq] at htake
    rw [workFor_schedule hr hone hwork, ← htake]
    simp only [Step.heard, List.map_nil, List.append_nil]
    split
    · exact ht.schedules
    · exact ht.dropped
  · have hrun : ∀ job, run ≠ .scheduling job := fun job heq => hrun ⟨job, heq⟩
    rw [(workFor_resume hr hone hwork hrun).2]
    exact ht.takes htake hrun fun _ hcurrent => h.text t (hcurrent ▸ hedited)

theorem Kept.resume (h : Kept verify d es) (now g : Nat) (step : Step) :
    Kept verify (d.resume verify now g step).1 (es ++ d.happenings verify now (.run g step)) := by
  cases hr : d.resume? verify now g step with
  | none => rwa [happenings_run_none hr, resume_none hr, List.append_nil]
  | some found =>
    obtain ⟨p, rest⟩ := found
    obtain ⟨run, hwork, hg, htake, -, -⟩ := workFor_of_resume hr (h.length_work g)
    have htakes := takes_of_take? htake
    have hgen : ∀ e ∈ step.heard g ++ p.output.map Happening.ofOutput, e.generation = g := by
      intro e he
      rcases List.mem_append.mp he with he | he
      · exact heard_generation e he
      · rw [htakes.output_generation e he, hg]
    have hsession : (d.resume verify now g step).1.session = p.session := by rw [resume_some hr]
    rw [happenings_run_some hr]
    refine ⟨fun other => ?_, ?_, ?_⟩
    · obtain ⟨t, ht⟩ := h.chronicle other
      rw [about_append]
      by_cases hother : other = g
      · subst hother
        rw [about_eq_self hgen]
        exact ⟨t, h.chronicle_resume hr ht⟩
      · have hnone : about other (step.heard g ++ p.output.map Happening.ofOutput) = [] :=
          about_eq_nil fun e he => by rw [hgen e he]; exact Ne.symm hother
        rw [hnone, List.append_nil]
        exact ⟨t, ht.sublist (workFor_resume_sublist hother)⟩
    · intro e he
      rw [hsession, htakes.session_generation]
      rcases List.mem_append.mp he with he | he
      · exact h.bound e he
      · obtain ⟨t, ht⟩ := h.chronicle g
        rw [hwork] at ht
        rw [hgen e he]
        exact h.bound _ (mem_about.mp ht.edited_mem).1
    · intro t ht
      rw [hsession, htakes.session_generation] at ht
      rw [hsession, htakes.session_text]
      rcases List.mem_append.mp ht with ht | ht
      · exact h.text t ht
      · exact absurd ht not_edited_mem

/-- **Every step keeps the chronicles**, whichever comes and whenever. -/
theorem Kept.act (h : Kept verify d es) (now : Nat) (action : Action) :
    Kept verify (d.act verify now action).1 (es ++ d.happenings verify now action) := by
  cases action with
  | edit text => exact h.edit now text
  | close => simpa [Desk.happenings, Desk.heard, Desk.act] using h.close
  | compileTimer => simpa [Desk.happenings, Desk.heard, Desk.act] using h.compileTimer
  | verifyTimer => simpa [Desk.happenings, Desk.heard, Desk.act] using h.verifyTimer
  | run g step => exact h.resume now g step

/-- **Every history keeps the chronicles.** -/
theorem Kept.history (h : Kept verify d es) (steps : List (Nat × Action)) :
    Kept verify (d.history verify steps).1 (es ++ (d.history verify steps).2.map (·.what)) := by
  induction steps generalizing d es with
  | nil => simpa [Desk.history] using h
  | cons entry rest ih =>
    obtain ⟨now, action⟩ := entry
    have hrest := ih (h.act now action)
    simpa [Desk.history, Function.comp_def] using hrest

/-! ## A gate and what is told behind it -/

/-- A step, with the announcement it opens the gate for. -/
def Action.guarded : Action → List Action
  | .run g (.compiled answer) => [.run g (.compiled answer), .run g .announce]
  | .run g .map => [.run g .map, .run g .announce]
  | action => [action]

/-- Steps with their announcements, each at its time. -/
def guardedSteps (steps : List (Nat × Action)) : List (Nat × Action) :=
  steps.flatMap fun entry => entry.2.guarded.map fun action => (entry.1, action)

/-- Nothing is about to be told. -/
def Desk.Quiet (d : Desk) : Prop :=
  ∀ run ∈ d.runs, ∀ g what next, run ≠ .announcing g what next

/-- What is told is told while its generation is the current one. -/
def ToldCurrent (log : List Entry) : Prop :=
  ∀ entry ∈ log, ∀ g what, entry.what = .told g what → entry.current = g

theorem history_append (d : Desk) (steps later : List (Nat × Action)) :
    d.history verify (steps ++ later) =
      (((d.history verify steps).1.history verify later).1,
        (d.history verify steps).2 ++ ((d.history verify steps).1.history verify later).2) := by
  induction steps generalizing d with
  | nil => rfl
  | cons entry rest ih =>
    obtain ⟨now, action⟩ := entry
    simp [Desk.history, ih]

theorem ToldCurrent.append {log later : List Entry} (h : ToldCurrent log) (hl : ToldCurrent later) :
    ToldCurrent (log ++ later) := by
  intro entry he
  rcases List.mem_append.mp he with he | he
  · exact h entry he
  · exact hl entry he

theorem toldCurrent_of_silent {current : Nat} (h : ∀ g what, .told g what ∉ es) :
    ToldCurrent (es.map (⟨current, ·⟩)) := by
  intro entry he g what htold
  obtain ⟨e, hmem, rfl⟩ := List.mem_map.mp he
  simp only at htold
  exact absurd (htold ▸ hmem) (h g what)

theorem take?_announce_none (h : ∀ g what next, run ≠ .announcing g what next) :
    run.take? verify now s .announce = none := by
  cases run with
  | announcing g what next => exact absurd rfl (h g what next)
  | _ => rfl

theorem Desk.Quiet.resume?_announce (h : d.Quiet) : d.resume? verify now g .announce = none :=
  resume?_eq_none.mpr fun run hrun _ => take?_announce_none (h run hrun)

theorem history_run_none {later : List (Nat × Action)} (h : d.resume? verify now g step = none) :
    d.history verify ((now, .run g step) :: later) = d.history verify later := by
  simp [Desk.history, happenings_run_none h, Desk.act, resume_none h]

theorem history_run_some {rest : List Run} {later : List (Nat × Action)}
    (h : d.resume? verify now g step = some (p, rest)) :
    d.history verify ((now, .run g step) :: later) =
      let next : Desk := ⟨p.session, rest ++ p.next.toList⟩
      ((next.history verify later).1,
        (step.heard g ++ p.output.map Happening.ofOutput).map (⟨p.session.generation, ·⟩) ++
          (next.history verify later).2) := by
  simp [Desk.history, happenings_run_some h, Desk.act, resume_some h]

/-- Behind these steps something is to be told. -/
def Step.isGate : Step → Bool
  | .compiled _ => true
  | .map => true
  | _ => false

/-- A gate tells nothing itself, and opens only for the current generation. -/
theorem Takes.gate (h : Takes verify now s step run p) (hstep : step.isGate = true) :
    p.output = [] ∧ (p.next = none ∨ s.generation = run.generation ∧
      ∃ what next, p.next = some (.announcing run.generation what next)) := by
  cases h <;> simp only [Step.isGate, Bool.false_eq_true] at hstep
  case compiled g answer text hg => exact ⟨rfl, .inr ⟨hg, _, _, rfl⟩⟩
  case map job found hg => exact ⟨rfl, .inr ⟨hg, _, _, rfl⟩⟩
  case stale => exact ⟨rfl, .inl rfl⟩

/-- The other steps tell nothing and have nothing to tell. -/
theorem Takes.plain (h : Takes verify now s step run p) (hstep : step.isGate = false)
    (htold : step ≠ .announce) :
    (∀ g what, .told g what ∉ p.output.map Happening.ofOutput) ∧
      ∀ g what next, p.next ≠ some (.announcing g what next) := by
  cases h <;> simp_all [Step.isGate, Happening.ofOutput]

theorem heard_silent {what : Announcement} {g' : Nat} : .told g' what ∉ step.heard g := by
  cases step <;> simp [Step.heard]

theorem Desk.Quiet.of_rest {before after : List Run} (h : d.Quiet)
    (hruns : d.runs = before ++ run :: after) {r : Run} (hr : r ∈ before ++ after) :
    ∀ g what next, r ≠ .announcing g what next := by
  apply h
  rw [hruns]
  rcases List.mem_append.mp hr with hr | hr
  · exact List.mem_append_left _ hr
  · exact List.mem_append_right _ (List.mem_cons_of_mem _ hr)

/-- Work that starts has nothing to tell yet. -/
theorem quiet_concat {α : Type} {runs : List Run} {f : α → Run} {job : Option α}
    (h : ∀ run ∈ runs, ∀ g what next, run ≠ .announcing g what next)
    (hf : ∀ a g what next, f a ≠ .announcing g what next) :
    Desk.Quiet ⟨s, runs ++ (job.map f).toList⟩ := by
  intro run hrun
  rcases List.mem_append.mp hrun with hrun | hrun
  · exact h run hrun
  · obtain ⟨a, -, rfl⟩ := Option.map_eq_some_iff.mp (Option.mem_toList.mp hrun)
    exact hf a

theorem quiet_gate (h : d.Quiet) (hstep : step.isGate = true) :
    (d.history verify [(now, .run g step), (now, .run g .announce)]).1.Quiet ∧
      ToldCurrent (d.history verify [(now, .run g step), (now, .run g .announce)]).2 := by
  cases hr : d.resume? verify now g step with
  | none =>
    rw [history_run_none hr, history_run_none h.resume?_announce]
    exact ⟨h, by simp [Desk.history, ToldCurrent]⟩
  | some found =>
    obtain ⟨p, rest⟩ := found
    obtain ⟨before, run, after, hruns, rfl, hg, htake⟩ := resume?_eq_some hr
    have hrest : ∀ r ∈ before ++ after, ∀ g what next, r ≠ .announcing g what next :=
      fun r hr => h.of_rest hruns hr
    have htakes := takes_of_take? htake
    obtain ⟨hout, hnext | ⟨hcurrent, what, next, hnext⟩⟩ := htakes.gate hstep
    · -- the gate is closed: nothing is left of the run
      have hquiet : Desk.Quiet ⟨p.session, before ++ after⟩ := hrest
      rw [history_run_some hr, hout, hnext]
      simp only [Option.toList_none, List.append_nil, List.map_nil]
      rw [history_run_none hquiet.resume?_announce]
      refine ⟨hquiet, ?_⟩
      simp only [Desk.history, List.append_nil]
      exact toldCurrent_of_silent fun _ _ => heard_silent
    · -- the gate is open: the run is the only one with something to tell
      have hannounce : Desk.resume? verify now
          ⟨p.session, before ++ after ++ [.announcing run.generation what next]⟩ g .announce =
          some (⟨p.session, next.map fun t => .scheduling ⟨t, run.generation⟩,
            [.tell run.generation what]⟩, before ++ after) :=
        resume?_concat (fun r hr => take?_announce_none (hrest r hr)) rfl hg
      rw [history_run_some hr, hout, hnext]
      simp only [Option.toList_some, List.append_nil, List.map_nil]
      rw [history_run_some hannounce]
      simp only [Desk.history, List.append_nil, Step.heard, List.nil_append]
      refine ⟨quiet_concat hrest (by simp),
        (toldCurrent_of_silent fun _ _ => heard_silent).append fun entry he g' what' htold => ?_⟩
      simp only [List.map_cons, List.map_nil, List.mem_singleton] at he
      subst he
      simp only [Happening.ofOutput, Happening.told.injEq] at htold
      rw [← htold.1, ← hcurrent]
      exact htakes.session_generation

/-- Any other step leaves the desk quiet and tells nothing. -/
theorem quiet_plain (h : d.Quiet) (hstep : step.isGate = false) :
    (d.history verify [(now, .run g step)]).1.Quiet ∧
      ToldCurrent (d.history verify [(now, .run g step)]).2 := by
  cases hr : d.resume? verify now g step with
  | none =>
    rw [history_run_none hr]
    exact ⟨h, by simp [Desk.history, ToldCurrent]⟩
  | some found =>
    obtain ⟨p, rest⟩ := found
    obtain ⟨before, run, after, hruns, rfl, hg, htake⟩ := resume?_eq_some hr
    have htold : step ≠ .announce := by
      rintro rfl
      rw [h.resume?_announce] at hr
      cases hr
    obtain ⟨hout, hnext⟩ := (takes_of_take? htake).plain hstep htold
    rw [history_run_some hr]
    simp only [Desk.history, List.append_nil]
    refine ⟨?_, toldCurrent_of_silent fun g what hmem => ?_⟩
    · intro r hr
      rcases List.mem_append.mp hr with hr | hr
      · exact h.of_rest hruns hr
      · rintro g what next rfl
        exact hnext g what next (Option.mem_toList.mp hr)
    · rcases List.mem_append.mp hmem with hmem | hmem
      · exact heard_silent hmem
      · exact hout g what hmem

theorem quiet_guarded (verify : Bool) (h : d.Quiet) (now : Nat) (action : Action) :
    (d.history verify (action.guarded.map fun a => (now, a))).1.Quiet ∧
      ToldCurrent (d.history verify (action.guarded.map fun a => (now, a))).2 := by
  cases action with
  | edit text => exact ⟨h, by simp [Action.guarded, Desk.history, Desk.happenings, Desk.heard,
      Desk.act, ToldCurrent]⟩
  | close => exact ⟨h, by simp [Action.guarded, Desk.history, Desk.happenings, Desk.heard,
      Desk.act, ToldCurrent]⟩
  | compileTimer => exact ⟨quiet_concat h (by simp), by simp [Action.guarded, Desk.history,
      Desk.happenings, Desk.heard, Desk.act, ToldCurrent]⟩
  | verifyTimer => exact ⟨quiet_concat h (by simp), by simp [Action.guarded, Desk.history,
      Desk.happenings, Desk.heard, Desk.act, ToldCurrent]⟩
  | run g step =>
    cases step with
    | compiled answer => exact quiet_gate h rfl
    | map => exact quiet_gate h rfl
    | _ => exact quiet_plain h rfl

/-- **Nothing is told of a generation but while it is the current one.** -/
theorem told_current (verify : Bool) (h : d.Quiet) (steps : List (Nat × Action)) :
    ToldCurrent (d.history verify (guardedSteps steps)).2 := by
  induction steps generalizing d with
  | nil => simp [guardedSteps, Desk.history, ToldCurrent]
  | cons entry rest ih =>
    obtain ⟨hquiet, htold⟩ := quiet_guarded verify h entry.1 entry.2
    rw [show guardedSteps (entry :: rest) =
      entry.2.guarded.map (fun a => (entry.1, a)) ++ guardedSteps rest from rfl, history_append]
    exact htold.append (ih hquiet)

/-! ## The script of an edit -/

/-- What is told of a text, by what the compiler and then the verifier answer. -/
def script (verify : Bool) (t : String) :
    Compiler.Answer → Option Verifier.Answer → List Announcement
  | .error fault, _ => [.fault fault.message]
  | .ok (.rejected diagnostics), _ => [.publish diagnostics]
  | .ok (.compiled _ map), some (.ok found) =>
    if verify then [.clear, .publish (Finding.placeAll map found t.toList)] else [.clear]
  | .ok (.compiled _ _), _ => [.clear]

/-- What is to be told of a text, as far as it has been answered. -/
def scriptOf (verify : Bool) (t : String) (es : List Happening) : List Announcement :=
  match es.findSome? Happening.compiled? with
  | none => []
  | some answer => script verify t answer (es.findSome? Happening.verified?)

/-- **What is told of an edit follows its script.** -/
theorem Chronicle.told_script (h : Chronicle verify g t es ws) :
    es.filterMap Happening.told? <+: scriptOf verify t es := by
  induction h with
  | dropped _ ih => exact ih
  | announced answer hnext =>
    match answer with
    | .error fault => exact List.prefix_rfl
    | .ok (.rejected diagnostics) => exact List.prefix_rfl
    | .ok (.compiled host map) => exact List.prefix_rfl
  | scheduling | settling | checking | verifying | failed => exact List.prefix_rfl
  | mapping hv host map found | publishing hv host map found =>
    subst hv
    exact List.prefix_append [Announcement.clear] [placed t map found]
  | published hv host map found =>
    subst hv
    exact List.prefix_rfl
  | unborn | waiting | starting | compiling | announcing => exact List.nil_prefix

/-- The compiler is asked once at most, for the text of the edit, and answers once at most. -/
theorem Chronicle.compile_once (h : Chronicle verify g t es ws) :
    (es.filter Happening.isCompile).length ≤ 1 ∧ (∀ text, .compile g text ∈ es → text = t) ∧
      (es.filterMap Happening.compiled?).length ≤ 1 := by
  induction h with
  | dropped _ ih => exact ih
  | _ => simp [cleared, Happening.isCompile, Happening.compiled?, List.filter, List.filterMap]

/-- The verifier is asked once at most, and answers once at most. -/
theorem Chronicle.verify_once (h : Chronicle verify g t es ws) :
    (es.filter Happening.isVerify).length ≤ 1 ∧ (es.filterMap Happening.verified?).length ≤ 1 := by
  induction h with
  | dropped _ ih => exact ih
  | _ => simp [cleared, Happening.isVerify, Happening.verified?, List.filter, List.filterMap]

theorem Chronicle.edited_eq {text : String} (h : Chronicle verify g t es ws)
    (hmem : .edited g text ∈ es) : text = t := by
  induction h with
  | dropped _ ih => exact ih hmem
  | _ => simp_all [cleared]

/-- Where the verifier is asked, the text has compiled and its diagnostics have been cleared. -/
theorem Chronicle.verify_mem {job : VerifyJob} (h : Chronicle verify g t es ws)
    (hmem : .verify job ∈ es) :
    ∃ host map, job = jobOf g t host map ∧
      es.takeWhile (fun e => !e.isVerify) = cleared g t host map := by
  induction h with
  | dropped _ ih => exact ih hmem
  | verifying hv host map | failed hv host map | mapping hv host map | publishing hv host map
  | published hv host map =>
    refine ⟨host, map, ?_, rfl⟩
    simpa [cleared] using hmem
  | _ => simp [cleared] at hmem

theorem Chronicle.verify_after_clear {before after : List Happening} {job : VerifyJob}
    (h : Chronicle verify g t (before ++ .verify job :: after) ws) :
    ∃ host map, job = jobOf g t host map ∧ before = cleared g t host map := by
  obtain ⟨host, map, hjob, htake⟩ := h.verify_mem (List.mem_append_right _ List.mem_cons_self)
  have hbefore : ∀ e ∈ before, (!e.isVerify) = true := by
    have hone := h.verify_once.1
    rw [List.filter_append, List.length_append, List.filter_cons_of_pos rfl, List.length_cons] at hone
    have hnil := List.eq_nil_of_length_eq_zero (l := before.filter Happening.isVerify) (by omega)
    simpa [List.filter_eq_nil_iff] using hnil
  rw [List.takeWhile_append_of_pos hbefore, List.takeWhile_cons_of_neg (by simp [Happening.isVerify]),
    List.append_nil] at htake
  exact ⟨host, map, hjob, htake⟩

/-- What a record says of the edit of generation `g` to text `t`. -/
structure TraceOf (verify : Bool) (g : Nat) (t : String) (log : List Entry) : Prop where
  /-- Something is told of it only while it is the current generation. -/
  told_current : ∀ entry ∈ log, ∀ what, entry.what = .told g what → entry.current = g
  /-- What is told of it is the script of its answers, or the beginning of that script. -/
  told_script : (about g (log.map (·.what))).filterMap Happening.told? <+:
    scriptOf verify t (about g (log.map (·.what)))
  compiles_le : ((about g (log.map (·.what))).filter Happening.isCompile).length ≤ 1
  compile_text : ∀ text, .compile g text ∈ log.map (·.what) → text = t
  answers_le : ((about g (log.map (·.what))).filterMap Happening.compiled?).length ≤ 1
  verifies_le : ((about g (log.map (·.what))).filter Happening.isVerify).length ≤ 1
  verdicts_le : ((about g (log.map (·.what))).filterMap Happening.verified?).length ≤ 1
  /-- The verifier is asked about the host text the edit compiled to, after the clearing. -/
  verify_after_clear : ∀ before job after, log.map (·.what) = before ++ .verify job :: after →
    job.generation = g → .told g .clear ∈ before ∧
      ∃ host map, .compiled g (.ok (.compiled host map)) ∈ before ∧ job = ⟨⟨t, host, map⟩, g⟩

/-- **The trace of a generation.**  Whatever steps a new document goes through, at whatever times
timers fire and answers come, and whatever the compiler and the verifier answer: what is told of an
edit is told while its generation is current and follows the script of its answers, and the edit
causes one compilation and one verification at most, the latter behind its own clearing. -/
theorem generation_trace (verify : Bool) (compileDelay verifyDelay : Nat)
    (steps : List (Nat × Action)) (g : Nat) (t : String)
    (hedit : .edited g t ∈ (((Desk.fresh compileDelay verifyDelay).history verify
      (guardedSteps steps)).2.map (·.what))) :
    TraceOf verify g t
      ((Desk.fresh compileDelay verifyDelay).history verify (guardedSteps steps)).2 := by
  have hquiet : (Desk.fresh compileDelay verifyDelay).Quiet := by
    intro run hrun
    simp [Desk.fresh] at hrun
  have hkept := (Kept.fresh verify compileDelay verifyDelay).history (guardedSteps steps)
  have hcurrent := told_current verify hquiet steps
  rw [List.nil_append] at hkept
  generalize ((Desk.fresh compileDelay verifyDelay).history verify (guardedSteps steps)) = run at *
  obtain ⟨d, log⟩ := run
  obtain ⟨text, hchronicle⟩ := hkept.chronicle g
  obtain rfl : t = text := hchronicle.edited_eq (mem_about.mpr ⟨hedit, rfl⟩)
  refine ⟨fun entry he what htold => hcurrent entry he g what htold, hchronicle.told_script,
    hchronicle.compile_once.1, ?_, hchronicle.compile_once.2.2, hchronicle.verify_once.1,
    hchronicle.verify_once.2, ?_⟩
  · intro text hmem
    exact hchronicle.compile_once.2.1 text (mem_about.mpr ⟨hmem, rfl⟩)
  · intro before job after heq hjob
    have habout : about g (log.map (·.what)) = about g before ++ .verify job :: about g after := by
      rw [heq, about_append]
      simp [about, Happening.generation, hjob]
    rw [habout] at hchronicle
    obtain ⟨host, map, rfl, hbefore⟩ := hchronicle.verify_after_clear
    have hmem : ∀ e ∈ cleared g t host map, e ∈ before := fun e he =>
      (mem_about.mp (hbefore ▸ he)).1
    exact ⟨hmem _ (by simp [cleared]), host, map, hmem _ (by simp [cleared]), rfl⟩

/-- An edit that overtakes another one while the compiler is at work on it. -/
def overtaking : List (Nat × Action) :=
  [(0, .edit "a"), (500, .compileTimer), (500, .run 1 .begin), (600, .edit "b"),
    (700, .run 1 (.compiled (.ok (.compiled "A" ⟨[]⟩)))), (1100, .compileTimer), (1100, .run 2 .begin),
    (1200, .run 2 (.compiled (.ok (.compiled "B" ⟨[]⟩)))), (1200, .run 2 .schedule),
    (2000, .verifyTimer), (2000, .run 2 .check), (2100, .run 2 (.verified (.ok []))),
    (2100, .run 2 .map)]

theorem generation_trace_overtaking :
    TraceOf true 2 "b" ((Desk.fresh 500 800).history true (guardedSteps overtaking)).2 ∧
      (about 2 (((Desk.fresh 500 800).history true (guardedSteps overtaking)).2.map
        (·.what))).filterMap Happening.told? = [.clear, .publish []] :=
  ⟨generation_trace true 500 800 overtaking 2 "b" (.tail _ (.tail _ (.head _))), rfl⟩

end DialectBridge.Pipeline
