import DialectBridge.Proofs.Pipeline.Operation

/-!
# The phase tells what is pending

Operations come in any order, with any answers, and answers of old generations come late.  After any
number of them the phase of a session says exactly what is pending for its current generation, so a
document that nothing is pending for rests in a phase that needs nothing.

* `Fits` — the work that belongs to a phase: one piece, or none;
* `Settled` — only waiting runs, no job of an old generation behind a timer, and work that fits;
* `Settled.operate` — every operation keeps a desk settled, by the closed forms of the operations;
* `phase_iff_pending` — what follows for every desk that operations lead to.
-/

namespace DialectBridge.Pipeline

/-- The phases of a document that nothing is pending for. -/
def rests : Phase → Bool
  | .idle => true
  | .failedDialect => true
  | .published => true
  | _ => false

/-- The phase that a piece of work belongs to, between operations. -/
def Work.phase? : Work → Option Phase
  | .compileTimer _ => some .debouncing
  | .verifyTimer _ => some .compilingHostVerify
  | .run (.compiling _ _) => some .compilingDialect
  | .run (.verifying _) => some .compilingHostVerify
  | .run _ => none

/-- The work for the current generation fits the phase: none, or one piece that belongs to it. -/
inductive Fits (g : Nat) : Phase → List Work → Prop
  | rest {phase : Phase} (hrest : rests phase = true) : Fits g phase []
  | busy {phase : Phase} (w : Work) (hg : w.generation = g) (hphase : w.phase? = some phase) :
      Fits g phase [w]

/-- The runs of the current generation. -/
def Desk.currentRuns (d : Desk) : List Run :=
  d.runs.filter fun r => r.generation = d.session.generation

/-- The work for the current generation, and all that waits for a timer. -/
def Desk.pending (d : Desk) : List Work :=
  timerWork d.session ++ d.currentRuns.map .run

/-- **What operations keep up**: the timers hold jobs of the current generation only, and what is
pending for that generation fits the phase. -/
structure Settled (d : Desk) : Prop where
  waiting : d.Waiting
  started : ∀ r ∈ d.runs, r.generation ≤ d.session.generation
  timers : ∀ w ∈ timerWork d.session, w.generation = d.session.generation
  fits : Fits d.session.generation d.session.phase d.pending

variable {verify : Bool} {now g : Nat} {d : Desk} {s : DocumentSession} {phase : Phase}
  {ws : List Work}

theorem Fits.length_le (h : Fits g phase ws) : ws.length ≤ 1 := by
  cases h <;> simp

/-- A busy phase is the phase of a piece of work. -/
theorem Fits.phase_iff (h : Fits g phase ws) {p : Phase} (hp : rests p = false) :
    phase = p ↔ ∃ w ∈ ws, w.phase? = some p := by
  cases h with
  | rest hrest =>
    constructor
    · rintro rfl; simp [hp] at hrest
    · simp
  | busy w hg hphase => simp [hphase]

theorem Fits.rests (h : Fits g phase []) : rests phase = true := by
  cases h with
  | rest hrest => exact hrest

theorem Settled.length_le (h : Settled d) :
    (timerWork d.session).length + d.currentRuns.length ≤ 1 := by
  have := h.fits.length_le
  rwa [Desk.pending, List.length_append, List.length_map] at this

theorem timerWork_length (s : DocumentSession) :
    (timerWork s).length =
      s.compileTimer.waiting.toList.length + s.verifyTimer.waiting.toList.length := by
  cases hc : s.compileTimer.waiting <;> cases hv : s.verifyTimer.waiting <;> simp [timerWork, hc, hv]

theorem currentRuns_eq_nil (runs : List Run) (h : ∀ r ∈ runs, r.generation < s.generation) :
    Desk.currentRuns ⟨s, runs⟩ = [] := by
  simp only [Desk.currentRuns, List.filter_eq_nil_iff, decide_eq_true_eq]
  intro r hr
  exact Nat.ne_of_lt (h r hr)

theorem Settled.fresh (compileDelay verifyDelay : Nat) :
    Settled (Desk.fresh compileDelay verifyDelay) where
  waiting := by simp [Desk.Waiting, Desk.fresh]
  started := by simp [Desk.fresh]
  timers := by simp [Desk.fresh, Session.fresh, timerWork, Debouncer.idle]
  fits := .rest rfl

/-! ## Edits and closing -/

theorem Settled.edit (h : Settled d) (text : String) : Settled (d.edit now text) := by
  have hold : (d.edit now text).currentRuns = [] :=
    currentRuns_eq_nil d.runs fun r hr => Nat.lt_succ_of_le (h.started r hr)
  have htimer : timerWork (d.edit now text).session = [.compileTimer (d.session.generation + 1)] := by
    simp [Desk.edit, Session.edit, Session.scheduleCompile, Debouncer.schedule, Debouncer.cancel,
      timerWork]
  refine ⟨h.waiting, fun r hr => Nat.le_succ_of_le (h.started r hr), ?_, ?_⟩
  · rw [htimer]
    intro w hw
    rw [List.mem_singleton.mp hw]
    rfl
  · rw [Desk.pending, htimer, hold]
    exact .busy _ rfl rfl

theorem Settled.close (h : Settled d) : Settled { d with session := d.session.close } := by
  have hold : Desk.currentRuns ⟨d.session.close, d.runs⟩ = [] :=
    currentRuns_eq_nil d.runs fun r hr => Nat.lt_succ_of_le (h.started r hr)
  have htimer : timerWork d.session.close = [] := by
    simp [Session.close, Debouncer.cancel, timerWork]
  refine ⟨h.waiting, fun r hr => Nat.le_succ_of_le (h.started r hr), ?_, ?_⟩
  · rw [htimer]
    exact fun w hw => absurd hw List.not_mem_nil
  · rw [Desk.pending, htimer, hold]
    exact .rest rfl

/-! ## Within a generation -/

/-- Work on the current generation that adds waiting runs of that generation only. -/
theorem Settled.update {s' : DocumentSession} {runs : List Run} (h : Settled d)
    (hgen : s'.generation = d.session.generation)
    (hruns : ∀ r ∈ runs, r ∈ d.runs ∨ r.waits = true ∧ r.generation = d.session.generation)
    (htimers : ∀ w ∈ timerWork s', w.generation = d.session.generation)
    (hfits : Fits d.session.generation s'.phase (Desk.pending ⟨s', runs⟩)) :
    Settled ⟨s', runs⟩ := by
  refine ⟨fun r hr => ?_, fun r hr => ?_, by rwa [hgen], by rwa [hgen]⟩
  · rcases hruns r hr with hold | ⟨hwaits, -⟩
    · exact h.waiting r hold
    · exact hwaits
  · rw [hgen]
    rcases hruns r hr with hold | ⟨-, hcur⟩
    · exact h.started r hold
    · exact Nat.le_of_eq hcur

/-- A job that the timer of the current generation held becomes its only run. -/
theorem Settled.start {s' : DocumentSession} {run : Run} (h : Settled d)
    (hnone : d.currentRuns = []) (hgen : s'.generation = d.session.generation)
    (hwaits : run.waits = true) (hcur : run.generation = d.session.generation)
    (htimers : timerWork s' = []) (hfits : Fits d.session.generation s'.phase [.run run]) :
    Settled ⟨s', d.runs ++ [run]⟩ := by
  have hruns : Desk.currentRuns ⟨s', d.runs ++ [run]⟩ = [run] := by
    simp only [Desk.currentRuns] at hnone ⊢
    rw [List.filter_append, hgen, hnone]
    simp [hcur]
  apply h.update hgen
  · intro r hr
    rcases List.mem_append.mp hr with hr | hr
    · exact .inl hr
    · rw [List.mem_singleton.mp hr]; exact .inr ⟨hwaits, hcur⟩
  · rw [htimers]; exact fun w hw => absurd hw List.not_mem_nil
  · rw [Desk.pending, htimers, hruns]; exact hfits

theorem Settled.compileTimer (h : Settled d) :
    Settled (d.operate verify now .compileTimer).1 := by
  cases hw : d.session.compileTimer.waiting with
  | none => rw [operate_compileTimer_none hw]; exact h
  | some t =>
    have hg : t.job = d.session.generation :=
      h.timers (.compileTimer t.job) (by simp [timerWork, hw])
    -- the job was the only piece of work, so the verify timer holds none and no run is current
    have hlen := h.length_le
    rw [timerWork_length, hw, Option.toList_some, List.length_singleton] at hlen
    have hverify : d.session.verifyTimer.waiting = none :=
      Option.toList_eq_nil_iff.mp (List.eq_nil_of_length_eq_zero (by omega))
    rw [operate_compileTimer h.waiting hw hg.symm]
    refine h.start (List.eq_nil_of_length_eq_zero (by omega)) rfl rfl hg ?_ ?_
    · simp [timerWork, Debouncer.fire, hverify]
    · exact .busy _ hg rfl

theorem Settled.verifyTimer (h : Settled d) :
    Settled (d.operate verify now .verifyTimer).1 := by
  cases hw : d.session.verifyTimer.waiting with
  | none => rw [operate_verifyTimer_none hw]; exact h
  | some t =>
    have hg : t.job.generation = d.session.generation :=
      h.timers (.verifyTimer t.job) (by simp [timerWork, hw])
    have hlen := h.length_le
    rw [timerWork_length, hw, Option.toList_some, List.length_singleton] at hlen
    have hcompile : d.session.compileTimer.waiting = none :=
      Option.toList_eq_nil_iff.mp (List.eq_nil_of_length_eq_zero (by omega))
    have hphase : d.session.phase = .compilingHostVerify :=
      (h.fits.phase_iff rfl).mpr
        ⟨.verifyTimer t.job, by simp [Desk.pending, timerWork, hw], rfl⟩
    rw [operate_verifyTimer h.waiting hw hg.symm]
    refine h.start (List.eq_nil_of_length_eq_zero (by omega)) rfl rfl hg ?_ ?_
    · simp [timerWork, Debouncer.fire, hcompile]
    · exact .busy _ hg (congrArg some hphase.symm)

/-! ## Answers -/

/-- An answer to a run of an old generation leaves what is pending as it was. -/
theorem Settled.discard {before after : List Run} {run : Run} (h : Settled d)
    (hruns : d.runs = before ++ run :: after) (hold : run.generation ≠ d.session.generation) :
    Settled ⟨d.session, before ++ after⟩ := by
  have hcur : Desk.currentRuns ⟨d.session, before ++ after⟩ = d.currentRuns := by
    simp [Desk.currentRuns, hruns, hold]
  refine h.update rfl (fun r hr => .inl (by grind)) h.timers ?_
  rw [Desk.pending, hcur]
  exact h.fits

/-- An answer to the run of the current generation finds nothing else pending. -/
theorem Settled.alone {before after : List Run} {run : Run} (h : Settled d)
    (hruns : d.runs = before ++ run :: after) (hcur : run.generation = d.session.generation) :
    timerWork d.session = [] ∧
      ∀ s' : DocumentSession, s'.generation = d.session.generation →
        Desk.currentRuns ⟨s', before ++ after⟩ = [] := by
  have hlen := h.length_le
  have hsplit : d.currentRuns.length =
      (Desk.currentRuns ⟨d.session, before ++ after⟩).length + 1 := by
    simp [Desk.currentRuns, hruns, hcur, Nat.add_assoc]
  refine ⟨List.eq_nil_of_length_eq_zero (by omega), fun s' hgen => ?_⟩
  have : Desk.currentRuns ⟨d.session, before ++ after⟩ = [] :=
    List.eq_nil_of_length_eq_zero (by omega)
  rwa [Desk.currentRuns, hgen]

/-- The run of the current generation ends, and what its answer schedules is all that is pending. -/
theorem Settled.answer {before after : List Run} {run : Run} {s' : DocumentSession} (h : Settled d)
    (hruns : d.runs = before ++ run :: after) (hcur : run.generation = d.session.generation)
    (hgen : s'.generation = d.session.generation)
    (htimers : ∀ w ∈ timerWork s', w.generation = d.session.generation)
    (hfits : Fits d.session.generation s'.phase (timerWork s')) :
    Settled ⟨s', before ++ after⟩ := by
  refine h.update hgen (fun r hr => .inl (by grind)) htimers ?_
  rw [Desk.pending, (h.alone hruns hcur).2 s' hgen]
  simpa using hfits

theorem rests_compileGate {text : String} {answer : Compiler.Answer}
    (h : (compileGate verify text answer).next = none) :
    rests (compileGate verify text answer).phase = true := by
  rcases answer with fault | ⟨host, map⟩ | diagnostics
  · rfl
  · cases verify with
    | false => rfl
    | true => cases h
  · rfl

theorem verifies_compileGate {text : String} {answer : Compiler.Answer} {t : Translation}
    (h : (compileGate verify text answer).next = some t) :
    (compileGate verify text answer).phase = .compilingHostVerify := by
  rcases answer with fault | ⟨host, map⟩ | diagnostics
  · cases h
  · cases verify with
    | false => cases h
    | true => rfl
  · cases h

/-- Behind the gate of the compiler's answer there is the verification it schedules, or nothing. -/
theorem fits_passedSession (hnone : timerWork s = []) (text : String) (answer : Compiler.Answer) :
    Fits g (compileGate verify text answer).phase
        (timerWork (passedSession now s g (compileGate verify text answer))) ∧
      ∀ w ∈ timerWork (passedSession now s g (compileGate verify text answer)), w.generation = g := by
  cases hnext : (compileGate verify text answer).next with
  | none =>
    have htimers : timerWork (passedSession now s g (compileGate verify text answer)) = [] := by
      simp only [passedSession, hnext]; exact hnone
    rw [htimers]
    exact ⟨.rest (rests_compileGate hnext), fun w hw => absurd hw List.not_mem_nil⟩
  | some t =>
    have hcompile := (List.append_eq_nil_iff.mp hnone).1
    have htimers : timerWork (passedSession now s g (compileGate verify text answer)) =
        [.verifyTimer ⟨t, g⟩] := by
      simp only [passedSession, hnext, timerWork, hcompile]; rfl
    rw [htimers, verifies_compileGate hnext]
    exact ⟨.busy _ rfl rfl, fun w hw => by rw [List.mem_singleton.mp hw]; rfl⟩

theorem Settled.compileReturn (h : Settled d) (g : Nat) (answer : Compiler.Answer) :
    Settled (d.operate verify now (.compileReturn g answer)).1 := by
  rcases compileReturn_cases verify now h.waiting g answer with
    ⟨hop, -⟩ | ⟨before, text, after, hruns, hop⟩
  · rw [hop]; exact h
  · rw [hop]
    split
    · rename_i hg
      have hnone := (h.alone hruns hg.symm).1
      refine h.answer hruns hg.symm (passedSession_generation _) ?_ ?_
      · rw [hg]; exact (fits_passedSession hnone text answer).2
      · rw [hg, passedSession_phase]; exact (fits_passedSession hnone text answer).1
    · rename_i hg
      exact h.discard hruns (Ne.symm hg)

theorem Settled.verifyReturn (h : Settled d) (g : Nat) (answer : Verifier.Answer) :
    Settled (d.operate verify now (.verifyReturn g answer)).1 := by
  rcases verifyReturn_cases verify now h.waiting g answer with
    ⟨hop, -⟩ | ⟨before, job, after, hruns, hjob, hop⟩
  · rw [hop]; exact h
  · rw [hop]
    split
    · rename_i hg
      have hnone := (h.alone hruns (hjob.trans hg.symm)).1
      refine h.answer hruns (hjob.trans hg.symm) rfl h.timers ?_
      simp only [timerWork] at hnone ⊢
      rw [hnone]
      exact .rest rfl
    · rename_i hg
      exact h.discard hruns fun heq => hg (heq.symm.trans hjob)

/-! ## Every desk that operations lead to -/

/-- **Every operation keeps a desk settled**, whenever it comes and whatever it answers. -/
theorem Settled.operate (h : Settled d) (operation : Operation) :
    Settled (d.operate verify now operation).1 := by
  cases operation with
  | edit text => exact h.edit text
  | close => exact h.close
  | compileTimer => exact h.compileTimer
  | verifyTimer => exact h.verifyTimer
  | compileReturn g answer => exact h.compileReturn g answer
  | verifyReturn g answer => exact h.verifyReturn g answer

/-- The desk after operations, each at its time. -/
def Desk.operateAll (verify : Bool) (d : Desk) (operations : List (Nat × Operation)) : Desk :=
  operations.foldl (fun d operation => (d.operate verify operation.1 operation.2).1) d

theorem Settled.operateAll (h : Settled d) (operations : List (Nat × Operation)) :
    Settled (d.operateAll verify operations) := by
  induction operations generalizing d with
  | nil => exact h
  | cons operation operations ih => exact ih (h.operate operation.2)

/-! ## What the phase tells -/

theorem compileTimer_mem_pending {n : Nat} :
    .compileTimer n ∈ d.pending ↔ ∃ t, d.session.compileTimer.waiting = some t ∧ t.job = n := by
  simp [Desk.pending, timerWork]

theorem verifyTimer_mem_pending {job : VerifyJob} :
    .verifyTimer job ∈ d.pending ↔ ∃ t, d.session.verifyTimer.waiting = some t ∧ t.job = job := by
  simp [Desk.pending, timerWork]

theorem run_mem_pending {r : Run} :
    .run r ∈ d.pending ↔ r ∈ d.runs ∧ r.generation = d.session.generation := by
  simp [Desk.pending, timerWork, Desk.currentRuns]

theorem exists_debouncing :
    (∃ w ∈ d.pending, w.phase? = some .debouncing) ↔ d.session.compileTimer.waiting.isSome := by
  rw [Option.isSome_iff_exists]
  constructor
  · rintro ⟨w, hw, hphase⟩
    rcases w with n | job | r
    · obtain ⟨t, ht, -⟩ := compileTimer_mem_pending.mp hw
      exact ⟨t, ht⟩
    · cases hphase
    · cases r <;> cases hphase
  · rintro ⟨t, ht⟩
    exact ⟨.compileTimer t.job, compileTimer_mem_pending.mpr ⟨t, ht, rfl⟩, rfl⟩

theorem exists_compilingDialect :
    (∃ w ∈ d.pending, w.phase? = some .compilingDialect) ↔
      ∃ text, .compiling d.session.generation text ∈ d.runs := by
  constructor
  · rintro ⟨w, hw, hphase⟩
    rcases w with n | job | r
    · cases hphase
    · cases hphase
    · cases r with
      | compiling n text =>
        obtain ⟨hmem, rfl : n = d.session.generation⟩ := run_mem_pending.mp hw
        exact ⟨text, hmem⟩
      | _ => cases hphase
  · rintro ⟨text, hmem⟩
    exact ⟨.run (.compiling d.session.generation text), run_mem_pending.mpr ⟨hmem, rfl⟩, rfl⟩

theorem exists_compilingHostVerify :
    (∃ w ∈ d.pending, w.phase? = some .compilingHostVerify) ↔
      d.session.verifyTimer.waiting.isSome ∨
        ∃ job, .verifying job ∈ d.runs ∧ job.generation = d.session.generation := by
  rw [Option.isSome_iff_exists]
  constructor
  · rintro ⟨w, hw, hphase⟩
    rcases w with n | job | r
    · cases hphase
    · obtain ⟨t, ht, -⟩ := verifyTimer_mem_pending.mp hw
      exact .inl ⟨t, ht⟩
    · cases r with
      | verifying job => exact .inr ⟨job, run_mem_pending.mp hw⟩
      | _ => cases hphase
  · rintro (⟨t, ht⟩ | ⟨job, hmem⟩)
    · exact ⟨.verifyTimer t.job, verifyTimer_mem_pending.mpr ⟨t, ht, rfl⟩, rfl⟩
    · exact ⟨.run (.verifying job), run_mem_pending.mpr hmem, rfl⟩

theorem pending_eq_nil (hcompile : d.session.compileTimer.waiting = none)
    (hverify : d.session.verifyTimer.waiting = none)
    (hruns : ∀ r ∈ d.runs, r.generation ≠ d.session.generation) : d.pending = [] := by
  rw [List.eq_nil_iff_forall_not_mem]
  rintro (n | job | r) hw
  · obtain ⟨t, ht, -⟩ := compileTimer_mem_pending.mp hw
    rw [hcompile] at ht
    cases ht
  · obtain ⟨t, ht, -⟩ := verifyTimer_mem_pending.mp hw
    rw [hverify] at ht
    cases ht
  · obtain ⟨hmem, hcur⟩ := run_mem_pending.mp hw
    exact hruns r hmem hcur

/-- **No phase is stuck.**  Whatever operations have come, at whatever times and with whatever
answers, an armed timer holds a job of the current generation; the document is debouncing exactly
while a compilation waits for its timer, compiling while a compilation of the current generation is
under way, and verifying while a verification waits for its timer or one of the current generation
is under way.  With nothing pending it is idle, failed or published. -/
theorem phase_iff_pending (verify : Bool) (compileDelay verifyDelay : Nat)
    (operations : List (Nat × Operation)) :
    let d := (Desk.fresh compileDelay verifyDelay).operateAll verify operations
    (∀ t ∈ d.session.compileTimer.waiting, t.job = d.session.generation) ∧
    (∀ t ∈ d.session.verifyTimer.waiting, t.job.generation = d.session.generation) ∧
    (d.session.phase = .debouncing ↔ d.session.compileTimer.waiting.isSome) ∧
    (d.session.phase = .compilingDialect ↔
      ∃ text, .compiling d.session.generation text ∈ d.runs) ∧
    (d.session.phase = .compilingHostVerify ↔
      d.session.verifyTimer.waiting.isSome ∨
        ∃ job, .verifying job ∈ d.runs ∧ job.generation = d.session.generation) ∧
    (d.session.compileTimer.waiting = none → d.session.verifyTimer.waiting = none →
      (∀ r ∈ d.runs, r.generation ≠ d.session.generation) →
      d.session.phase = .idle ∨ d.session.phase = .failedDialect ∨ d.session.phase = .published) := by
  intro d
  have h : Settled d := (Settled.fresh compileDelay verifyDelay).operateAll operations
  refine ⟨fun t ht => ?_, fun t ht => ?_, ?_, ?_, ?_, fun hcompile hverify hruns => ?_⟩
  · exact h.timers (.compileTimer t.job) (by simp [timerWork, Option.mem_def.mp ht])
  · exact h.timers (.verifyTimer t.job) (by simp [timerWork, Option.mem_def.mp ht])
  · rw [h.fits.phase_iff rfl, exists_debouncing]
  · rw [h.fits.phase_iff rfl, exists_compilingDialect]
  · rw [h.fits.phase_iff rfl, exists_compilingHostVerify]
  · have hfits := h.fits
    rw [pending_eq_nil hcompile hverify hruns] at hfits
    have hrest := hfits.rests
    cases hphase : d.session.phase <;> simp [hphase, rests] at hrest ⊢

/-- An edit overtakes a compilation, whose answer comes late; the next one goes all the way. -/
def overtaken : List (Nat × Operation) :=
  [(0, .edit "a"), (40, .compileTimer), (50, .edit "b"), (90, .compileTimer),
    (95, .compileReturn 1 (.error .notUtf8)), (99, .compileReturn 2 (.ok (.compiled "h" ⟨[]⟩))),
    (199, .verifyTimer), (250, .verifyReturn 2 (.ok []))]

theorem phase_iff_pending_overtaken :
    ((Desk.fresh 40 100).operateAll true (overtaken.take 3)).session.compileTimer.waiting =
        some ⟨90, 2⟩ ∧
      2 = ((Desk.fresh 40 100).operateAll true (overtaken.take 3)).session.generation ∧
    ((Desk.fresh 40 100).operateAll true (overtaken.take 6)).session.verifyTimer.waiting =
        some ⟨199, ⟨"b", "h", ⟨[]⟩⟩, 2⟩ ∧
      2 = ((Desk.fresh 40 100).operateAll true (overtaken.take 6)).session.generation ∧
    let d := (Desk.fresh 40 100).operateAll true overtaken
    (d.session.compileTimer.waiting = none ∧ d.session.verifyTimer.waiting = none ∧ d.runs = []) ∧
      (d.session.phase = .idle ∨ d.session.phase = .failedDialect ∨ d.session.phase = .published) :=
  ⟨rfl, (phase_iff_pending true 40 100 (overtaken.take 3)).1 _ rfl,
    rfl, (phase_iff_pending true 40 100 (overtaken.take 6)).2.1 _ rfl,
    ⟨rfl, rfl, rfl⟩,
    (phase_iff_pending true 40 100 overtaken).2.2.2.2.2 rfl rfl fun r hr => by cases hr⟩

end DialectBridge.Pipeline
