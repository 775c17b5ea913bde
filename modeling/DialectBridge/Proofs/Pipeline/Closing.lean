import DialectBridge.Proofs.Pipeline.Chronicle

/-!
# What is told of a document after it was closed

Closing a document shuts every gate: no run that comes to its check later goes on.  A run that has
passed its check and has not yet told what it was going to is out of reach, and tells it whenever its
turn comes, even after the diagnostics of the document have been cleared.

* `Shut` — a desk after its document was closed: no timer is armed, and every run is of an old
  generation;
* `Shut.act`, `Shut.history` — as long as there is no edit a shut desk stays shut, and tells nothing
  but what some run was about to tell;
* `told_after_closing` — just what can still be told when the diagnostics are cleared;
* `told_after_closing_rejected` — diagnostics that come after they were cleared.
-/

namespace DialectBridge.Pipeline

/-- The step is an edit. -/
def Action.isEdit : Action → Bool
  | .edit _ => true
  | _ => false

/-- A run has passed its check and is about to tell something. -/
def Desk.Announces (d : Desk) (g : Nat) (what : Announcement) : Prop :=
  ∃ next, .announcing g what next ∈ d.runs

/-- A desk after its document was closed. -/
structure Desk.Shut (d : Desk) : Prop where
  timers : timerWork d.session = []
  old : ∀ r ∈ d.runs, r.generation < d.session.generation

variable {verify : Bool} {now g : Nat} {d : Desk} {s : DocumentSession} {step : Step} {run : Run}
  {p : Progress} {es : List Happening} {action : Action} {what : Announcement}

/-- A run of an old generation tells what it was about to, or it ends. -/
theorem Takes.of_old (h : Takes verify now s step run p) (hold : run.generation < s.generation) :
    p.session = s ∧ (∀ r ∈ p.next.toList, ∀ g what next, r ≠ .announcing g what next) ∧
      ∀ g what, .tell g what ∈ p.output → ∃ next, run = .announcing g what next := by
  cases h with
  | announce g what next =>
    refine ⟨rfl, ?_, ?_⟩
    · intro r hr g' what' next'
      obtain ⟨t, -, rfl⟩ := Option.map_eq_some_iff.mp (Option.mem_toList.mp hr)
      nofun
    · intro g' what' hmem
      obtain ⟨rfl, rfl⟩ : g' = g ∧ what' = what := by simpa using hmem
      exact ⟨next, rfl⟩
  | stale step run hg => exact ⟨rfl, nofun, nofun⟩
  | begin g hg => exact absurd hg (Nat.ne_of_gt hold)
  | compiled g answer text hg => exact absurd hg (Nat.ne_of_gt hold)
  | schedule job hg => exact absurd hg (Nat.ne_of_gt hold)
  | check job hg => exact absurd hg (Nat.ne_of_gt hold)
  | failed job cause hg => exact absurd hg (Nat.ne_of_gt hold)
  | found job found hg => exact absurd hg (Nat.ne_of_gt hold)
  | map job found hg => exact absurd hg (Nat.ne_of_gt hold)

theorem waiting_of_timerWork (h : timerWork s = []) :
    s.compileTimer.waiting = none ∧ s.verifyTimer.waiting = none := by
  unfold timerWork at h
  cases hcompile : s.compileTimer.waiting <;> cases hverify : s.verifyTimer.waiting <;>
    simp_all

/-- **A shut desk stays shut**, and tells nothing but what a run was about to tell. -/
theorem Desk.Shut.act (h : d.Shut) (verify : Bool) (now : Nat) (haction : action.isEdit = false) :
    (d.act verify now action).1.Shut ∧
      (∀ g what, (d.act verify now action).1.Announces g what → d.Announces g what) ∧
      ∀ g what, .told g what ∈ d.happenings verify now action → d.Announces g what := by
  have hsame : d.Shut ∧ (∀ g what, d.Announces g what → d.Announces g what) ∧
      ∀ g what, Happening.told g what ∈ ([] : List Happening) → d.Announces g what :=
    ⟨h, fun _ _ hannounces => hannounces, nofun⟩
  obtain ⟨hcompile, hverify⟩ := waiting_of_timerWork h.timers
  cases action with
  | edit text => cases haction
  | close =>
    refine ⟨⟨?_, fun r hr => Nat.lt_succ_of_lt (h.old r hr)⟩, hsame.2⟩
    simp [Desk.act, Session.close, Debouncer.cancel, timerWork]
  | compileTimer =>
    simp only [Desk.act, Desk.happenings, Desk.heard, compileTimer_none hcompile, List.map_nil,
      List.append_nil]
    exact hsame
  | verifyTimer =>
    simp only [Desk.act, Desk.happenings, Desk.heard, verifyTimer_none hverify, List.map_nil,
      List.append_nil]
    exact hsame
  | run g step =>
    cases hresume : d.resume? verify now g step with
    | none =>
      rw [happenings_run_none hresume, Desk.act, resume_none hresume]
      exact hsame
    | some found =>
      obtain ⟨p, rest⟩ := found
      obtain ⟨before, run, after, hruns, rfl, hg, htake⟩ := resume?_eq_some hresume
      have hrun : run ∈ d.runs := by rw [hruns]; simp
      have htakes := takes_of_take? htake
      obtain ⟨hsession, hnext, htold⟩ := htakes.of_old (h.old run hrun)
      rw [happenings_run_some hresume, Desk.act, resume_some hresume, hsession]
      refine ⟨⟨h.timers, ?_⟩, ?_, ?_⟩
      · intro r hr
        rcases List.mem_append.mp hr with hr | hr
        · exact h.old r (by rw [hruns]; grind)
        · rw [htakes.next_generation (Option.mem_toList.mp hr)]
          exact h.old run hrun
      · rintro g' what ⟨next, hmem⟩
        rcases List.mem_append.mp hmem with hmem | hmem
        · exact ⟨next, by rw [hruns]; grind⟩
        · exact absurd rfl (hnext _ hmem g' what next)
      · intro g' what hmem
        rcases List.mem_append.mp hmem with hmem | hmem
        · exact absurd hmem heard_silent
        · obtain ⟨output, houtput, heq⟩ := List.mem_map.mp hmem
          cases output with
          | tell generation told =>
            obtain ⟨rfl, rfl⟩ : generation = g' ∧ told = what := by
              simpa [Happening.ofOutput] using heq
            obtain ⟨next, rfl⟩ := htold _ _ houtput
            exact ⟨next, hrun⟩
          | _ => cases heq

theorem Desk.Shut.history (h : d.Shut) (verify : Bool) {steps : List (Nat × Action)}
    (hsteps : ∀ entry ∈ steps, entry.2.isEdit = false) :
    (d.history verify steps).1.Shut ∧
      (∀ g what, (d.history verify steps).1.Announces g what → d.Announces g what) ∧
      ∀ g what, .told g what ∈ (d.history verify steps).2.map (·.what) → d.Announces g what := by
  induction steps generalizing d with
  | nil => exact ⟨h, fun _ _ hannounces => hannounces, nofun⟩
  | cons entry rest ih =>
    obtain ⟨now, action⟩ := entry
    obtain ⟨hshut, hkept, htold⟩ := h.act verify now (hsteps _ List.mem_cons_self)
    obtain ⟨hlast, hrest, hlater⟩ := ih hshut fun entry hentry =>
      hsteps entry (List.mem_cons_of_mem _ hentry)
    refine ⟨hlast, fun g what hannounces => hkept g what (hrest g what hannounces), ?_⟩
    intro g what hmem
    simp only [Desk.history, List.map_append, List.map_map, Function.comp_def, List.mem_append] at hmem
    rcases hmem with hmem | hmem
    · exact htold g what (by simpa using hmem)
    · exact hkept g what (hlater g what hmem)

/-! ## Closing -/

/-- A run is all the work there is for its generation. -/
theorem Kept.workFor_eq (h : Kept verify d es) {r : Run} (hr : r ∈ d.runs) :
    d.workFor r.generation = [.run r] := by
  have hmem : .run r ∈ d.workFor r.generation := by
    simp [Desk.workFor, Desk.work, Work.generation, hr]
  have hone := h.length_work r.generation
  cases hwork : d.workFor r.generation with
  | nil =>
    rw [hwork] at hmem
    cases hmem
  | cons w rest =>
    rw [hwork] at hmem hone
    obtain rfl : rest = [] := by simpa using hone
    rw [List.mem_singleton.mp hmem]

/-- All runs are for the current generation or an older one. -/
theorem Kept.old (h : Kept verify d es) {r : Run} (hr : r ∈ d.runs) :
    r.generation ≤ d.session.generation := by
  obtain ⟨t, hchronicle⟩ := h.chronicle r.generation
  rw [h.workFor_eq hr] at hchronicle
  exact h.bound _ (mem_about.mp hchronicle.edited_mem).1

/-- A generation has one run at most. -/
theorem Kept.unique (h : Kept verify d es) {r r' : Run} (hr : r ∈ d.runs) (hr' : r' ∈ d.runs)
    (hg : r'.generation = r.generation) : r' = r := by
  have hwork := h.workFor_eq hr'
  rw [hg, h.workFor_eq hr] at hwork
  exact (Work.run.inj (List.cons.inj hwork).1).symm

theorem Kept.shut (h : Kept verify d es) (now : Nat) : (d.act verify now .close).1.Shut := by
  refine ⟨?_, fun r hr => Nat.lt_succ_of_le (h.old hr)⟩
  simp [Desk.act, Session.close, Debouncer.cancel, timerWork]

/-- A run that is about to tell something does so in its next step. -/
theorem Kept.told (h : Kept verify d es) (hannounces : d.Announces g what) (now : Nat) :
    .told g what ∈ (d.history verify [(now, .run g .announce)]).2.map (·.what) := by
  obtain ⟨next, hrun⟩ := hannounces
  cases hresume : d.resume? verify now g .announce with
  | none => exact absurd (resume?_eq_none.mp hresume _ hrun rfl) (by simp [Run.take?])
  | some found =>
    obtain ⟨p, rest⟩ := found
    obtain ⟨before, run, after, hruns, rfl, hg, htake⟩ := resume?_eq_some hresume
    -- a generation has one piece of work, so it is this run that goes on
    obtain rfl : run = .announcing g what next :=
      h.unique hrun (by rw [hruns]; simp) hg
    rw [history_run_some hresume]
    obtain rfl := Option.some.inj htake
    simp [Happening.ofOutput, Step.heard]

/-- **What is told after a document was closed.**  A document is worked on in any steps, then it is
closed, and after some more steps its diagnostics are cleared.  What can still be told of it without
another edit is exactly what a run is about to tell when they are cleared, and that run had passed
its check before the document was closed. -/
theorem told_after_closing (verify : Bool) (compileDelay verifyDelay time : Nat)
    (before between : List (Nat × Action))
    (hbetween : ∀ entry ∈ between, entry.2.isEdit = false) (g : Nat) (what : Announcement) :
    let opened := ((Desk.fresh compileDelay verifyDelay).history verify before).1
    let cleared := ((opened.act verify time .close).1.history verify between).1
    ((∃ after : List (Nat × Action), (∀ entry ∈ after, entry.2.isEdit = false) ∧
        .told g what ∈ (cleared.history verify after).2.map (·.what)) ↔
      cleared.Announces g what) ∧
    (cleared.Announces g what → opened.Announces g what) := by
  intro opened cleared
  have hopened := (Kept.fresh verify compileDelay verifyDelay).history before
  have hclosed := hopened.act time .close
  have hcleared := hclosed.history between
  obtain ⟨hshut, hkept, -⟩ := (hopened.shut time).history verify hbetween
  refine ⟨⟨?_, ?_⟩, hkept g what⟩
  · rintro ⟨after, hafter, htold⟩
    exact (hshut.history verify hafter).2.2 g what htold
  · intro hannounces
    exact ⟨[(time, .run g .announce)], by simp [Action.isEdit], hcleared.told hannounces time⟩

/-- A text that the compiler rejects: the check is passed, then the document is closed and its
diagnostics are cleared, and then the diagnostics are told. -/
theorem told_after_closing_rejected (verify : Bool) (time : Nat) (diagnostics : List Diagnostic) :
    let before : List (Nat × Action) :=
      [(0, .edit "x"), (500, .compileTimer), (500, .run 1 .begin),
        (500, .run 1 (.compiled (.ok (.rejected diagnostics))))]
    let closed := ((((Desk.fresh 500 300).history verify before).1).act verify time .close).1
    .told 1 (.publish diagnostics) ∈
      (closed.history verify [(time, .run 1 .announce)]).2.map (·.what) := by
  exact List.mem_singleton.mpr rfl

end DialectBridge.Pipeline
