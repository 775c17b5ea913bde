import DialectBridge.Proofs.Engine.Desks
import DialectBridge.Proofs.Pipeline.Forecast
import DialectBridge.Proofs.Timing.Guarded

/-!
# An engine with programs that answer at once

Let the compiler and the verifier be functions of their text that take no time.  Then no call is ever
under way, every result that is found in a cache is the one the program would give, and what a
document is going to tell can be read off the timers of its desk.

* `Rested` — a desk between two steps, and what it is going to tell;
* `Tended` — an engine with such desks, and caches that add nothing of their own;
* `Tended.step` — all that a step does: one desk takes its turn and tells what it was going to;
* `foreseen_foretells` — what is going to be told of a document, whatever the others do.
-/

namespace DialectBridge

/-- A compiler and a verifier that are functions of their text. -/
structure Instant where
  compile : String → Compiler.Answer
  verify : String → Verifier.Answer

namespace Instant

/-- The programs, which answer at once. -/
def tools (i : Instant) : Toolchain :=
  ⟨fun text => ⟨0, i.compile text⟩, fun host => ⟨0, i.verify host⟩⟩

/-- The host text that a text is compiled to. -/
def host? (i : Instant) (text : String) : Option String :=
  match i.compile text with
  | .ok (.compiled host _) => some host
  | _ => none

/-- The host texts that some texts are compiled to. -/
def hosts (i : Instant) (texts : List String) : List String :=
  texts.filterMap i.host?

end Instant

namespace Engine

open Pipeline

/-- What a verification at a time tells. -/
def verifyTells (i : Instant) (time : Nat) (t : Translation) : List (Nat × Announcement) :=
  match i.verify t.host with
  | .error _ => []
  | .ok found => [(time, .publish (Finding.placeAll t.map found t.text.toList))]

/-- What a compilation at a time tells, and what follows from it. -/
def compileTells (i : Instant) (settings : Settings) (time : Nat) (text : String) :
    List (Nat × Announcement) :=
  let gate := compileGate settings.verify text (i.compile text)
  (time, gate.what) ::
    gate.next.toList.flatMap (verifyTells i (time + settings.verifyDebounceMs))

/-- What a session without runs waits for, and what it is going to tell. -/
inductive Awaits (i : Instant) (settings : Settings) (texts : List String) (s : DocumentSession) :
    List (Nat × Announcement) → Prop
  | rest (hcompile : s.compileTimer.waiting = none) (hverify : s.verifyTimer.waiting = none) :
      Awaits i settings texts s []
  | armed {due : Nat} (hcompile : s.compileTimer.waiting = some ⟨due, s.generation⟩)
      (hverify : s.verifyTimer.waiting = none) (htext : s.text ∈ texts) :
      Awaits i settings texts s (compileTells i settings due s.text)
  | settling {due : Nat} {job : VerifyJob} (hjob : s.generation = job.generation)
      (hcompile : s.compileTimer.waiting = none) (hverify : s.verifyTimer.waiting = some ⟨due, job⟩)
      (hhost : job.host ∈ i.hosts texts) :
      Awaits i settings texts s (verifyTells i due job.toTranslation)

/-- **A desk between two steps**, and what it is going to tell. -/
structure Rested (i : Instant) (settings : Settings) (texts : List String) (d : Desk)
    (ahead : List (Nat × Announcement)) : Prop where
  runs : d.runs = []
  delays : Delays settings.compileDebounceMs settings.verifyDebounceMs d.session
  awaits : Awaits i settings texts d.session ahead

/-- **An engine between two steps.** -/
structure Tended (i : Instant) (settings : Settings) (texts : List String) (e : Engine) : Prop where
  settings_eq : e.settings = settings
  calls : e.calls = []
  keyed : Keyed e.desks
  desks : ∀ entry ∈ e.desks, ∃ ahead, Rested i settings texts entry.2 ahead
  compiled : e.compiled.Serves settings.cacheTtlMs (fun text => (i.compile text).toOption) texts
  verified : e.verified.Serves settings.cacheTtlMs (fun host => (i.verify host).toOption)
    (i.hosts texts)

variable {i : Instant} {settings : Settings} {texts : List String} {e : Engine}
  {sid document : SessionId}
  {d : Desk} {s : DocumentSession} {ahead later : List (Nat × Announcement)} {now g : Nat}
  {text : String} {job : VerifyJob}

/-! ## Desks -/

theorem Awaits.unique (h : Awaits i settings texts s ahead) (h' : Awaits i settings texts s later) :
    ahead = later := by
  cases h <;> cases h' <;> simp_all

theorem eq_of_mem_verifyTells {time : Nat} {t : Translation} {seen : Nat × Announcement}
    (h : seen ∈ verifyTells i time t) : seen.1 = time := by
  unfold verifyTells at h
  split at h
  · cases h
  · rw [List.mem_singleton.mp h]

theorem le_of_mem_compileTells {time : Nat} {seen : Nat × Announcement}
    (h : seen ∈ compileTells i settings time text) : time ≤ seen.1 := by
  rcases List.mem_cons.mp h with rfl | h
  · exact Nat.le_refl _
  · obtain ⟨t, -, h⟩ := List.mem_flatMap.mp h
    rw [eq_of_mem_verifyTells h]
    exact Nat.le_add_right _ _

theorem Awaits.sorted (h : Awaits i settings texts s ahead) :
    ahead.Pairwise fun a b => a.1 ≤ b.1 := by
  have hverify : ∀ time t, (verifyTells i time t).Pairwise fun a b => a.1 ≤ b.1 := by
    intro time t
    unfold verifyTells
    split <;> simp
  cases h with
  | rest _ _ => exact List.Pairwise.nil
  | settling _ _ _ _ => exact hverify _ _
  | armed _ _ _ =>
    refine List.pairwise_cons.mpr ⟨fun seen hseen => ?_, ?_⟩
    · exact le_of_mem_compileTells (List.mem_cons_of_mem _ hseen)
    · cases (compileGate settings.verify s.text (i.compile s.text)).next with
      | none => exact List.Pairwise.nil
      | some t => simpa using hverify _ t

theorem host_mem (htext : text ∈ texts) {t : Translation}
    (ht : (compileGate settings.verify text (i.compile text)).next = some t) :
    t.host ∈ i.hosts texts := by
  refine List.mem_filterMap.mpr ⟨text, htext, ?_⟩
  unfold Instant.host?
  rcases hanswer : i.compile text with fault | ⟨host, map⟩ | diagnostics
  · rw [hanswer] at ht
    cases ht
  · rw [hanswer, compileGate] at ht
    split at ht
    · obtain rfl := Option.some.inj ht
      rfl
    · cases ht
  · rw [hanswer] at ht
    cases ht

/-- What a step of a desk comes to: the desk rests again, and tells the next part of what it was
going to. -/
structure Turned (i : Instant) (settings : Settings) (texts : List String) (now : Nat)
    (ahead : List (Nat × Announcement)) (before after : Desk) (told : List Announcement) : Prop where
  rested : ∃ later, Rested i settings texts after later ∧ ahead = told.map (now, ·) ++ later
  less : deskSteps after < deskSteps before

theorem waiting_singleton {run : Run} (h : run.waits = true) : Desk.Waiting ⟨s, [run]⟩ := by
  intro other hother
  rwa [List.mem_singleton.mp hother]

theorem only_run {run other : Run} {before after : List Run}
    (h : [run] = before ++ other :: after) : before = [] ∧ other = run ∧ after = [] := by
  cases before with
  | nil =>
    obtain ⟨hrun, hafter⟩ := List.cons.inj h
    exact ⟨rfl, hrun.symm, hafter.symm⟩
  | cons first before => simp at h

/-- The compiler answers the one run of a desk. -/
theorem operate_compiling (verify : Bool) (now : Nat) (hg : s.generation = g)
    (answer : Compiler.Answer) :
    Desk.operate verify now ⟨s, [.compiling g text]⟩ (.compileReturn g answer) =
      (⟨passedSession now s g (compileGate verify text answer), []⟩,
        [.tell g (compileGate verify text answer).what]) := by
  rcases compileReturn_cases (d := ⟨s, [.compiling g text]⟩) verify now (waiting_singleton rfl) g
    answer with ⟨-, hnone⟩ | ⟨before, text', after, hruns, hop⟩
  · exact absurd (List.mem_singleton_self _) (hnone text)
  · obtain ⟨rfl, hrun, rfl⟩ := only_run hruns
    obtain rfl := (Run.compiling.inj hrun).2
    rw [hop]
    exact if_pos hg

/-- The verifier answers the one run of a desk. -/
theorem operate_verifying (verify : Bool) (now : Nat) (hjob : s.generation = job.generation)
    (answer : Verifier.Answer) :
    Desk.operate verify now ⟨s, [.verifying job]⟩ (.verifyReturn job.generation answer) =
      (⟨{ s with phase := .published }, []⟩, foundOutput job answer) := by
  rcases verifyReturn_cases (d := ⟨s, [.verifying job]⟩) verify now (waiting_singleton rfl)
    job.generation answer with ⟨-, hnone⟩ | ⟨before, job', after, hruns, -, hop⟩
  · exact absurd (List.mem_singleton_self _) (hnone job rfl)
  · obtain ⟨rfl, hrun, rfl⟩ := only_run hruns
    obtain rfl := Run.verifying.inj hrun
    rw [hop]
    exact if_pos hjob

theorem waiting_nil : Desk.Waiting ⟨s, []⟩ := by
  intro run hrun
  cases hrun

/-- Behind the gate, a session waits for nothing but a verification. -/
theorem rested_passed (now : Nat) (hcompile : s.compileTimer.waiting = none)
    (hverify : s.verifyTimer.waiting = none)
    (hdelays : Delays settings.compileDebounceMs settings.verifyDebounceMs s)
    {gate : Passage} (hgate : ∀ t, gate.next = some t → t.host ∈ i.hosts texts) :
    Rested i settings texts ⟨passedSession now s s.generation gate, []⟩
        (gate.next.toList.flatMap (verifyTells i (now + settings.verifyDebounceMs))) ∧
      deskSteps ⟨passedSession now s s.generation gate, []⟩ < 4 := by
  unfold passedSession
  cases hnext : gate.next with
  | none =>
    refine ⟨⟨rfl, hdelays, .rest hcompile hverify⟩, ?_⟩
    simp [deskSteps, hcompile, hverify]
  | some t =>
    have hdelay : s.verifyTimer.delay = settings.verifyDebounceMs := hdelays.2
    rw [Option.toList_some, List.flatMap_singleton, ← hdelay]
    refine ⟨⟨rfl, hdelays, ?_⟩, ?_⟩
    · show Awaits i settings texts _ (verifyTells i _ (⟨t, s.generation⟩ : VerifyJob).toTranslation)
      exact .settling rfl hcompile rfl (hgate t hnext)
    · simp [deskSteps, hcompile, Debouncer.schedule]

/-- The compile timer of a desk fires, and the compiler answers at once. -/
theorem Rested.compileTimer (h : Rested i settings texts ⟨s, []⟩ ahead)
    (hcompile : s.compileTimer.waiting = some ⟨now, g⟩) :
    s.text ∈ texts ∧ ∃ busy done what,
      Desk.operate settings.verify now ⟨s, []⟩ .compileTimer = (busy, [.compile g s.text]) ∧
      busy.operate settings.verify now (.compileReturn g (i.compile s.text)) =
        (done, [.tell g what]) ∧
      Turned i settings texts now ahead ⟨s, []⟩ done [what] := by
  obtain ⟨-, hdelays, hawaits⟩ := h
  cases hawaits with
  | rest hnone _ => exact absurd (hcompile.symm.trans hnone) (by simp)
  | settling _ hnone _ _ => exact absurd (hcompile.symm.trans hnone) (by simp)
  | @armed due harmed hverify htext =>
    obtain ⟨rfl, rfl⟩ : due = now ∧ s.generation = g := by
      simpa using harmed.symm.trans hcompile
    have hstart : Desk.operate settings.verify due ⟨s, []⟩ .compileTimer = _ :=
      operate_compileTimer waiting_nil harmed rfl
    obtain ⟨hrested, hless⟩ := rested_passed
      (s := { s with compileTimer := s.compileTimer.fire.1, phase := .compilingDialect }) due
      rfl hverify hdelays fun t ht => host_mem htext ht
    refine ⟨htext, _, _, _, hstart, operate_compiling _ _ (by rfl) _, ⟨_, hrested, rfl⟩, ?_⟩
    refine Nat.lt_of_lt_of_le hless ?_
    simp [deskSteps, hcompile]

/-- The verify timer of a desk fires, and the verifier answers at once. -/
theorem Rested.verifyTimer (h : Rested i settings texts ⟨s, []⟩ ahead)
    (hverify : s.verifyTimer.waiting = some ⟨now, job⟩) :
    job.host ∈ i.hosts texts ∧ ∃ busy done,
      Desk.operate settings.verify now ⟨s, []⟩ .verifyTimer = (busy, [.verify job]) ∧
      busy.operate settings.verify now (.verifyReturn job.generation (i.verify job.host)) =
        (done, foundOutput job (i.verify job.host)) ∧
      Turned i settings texts now ahead ⟨s, []⟩ done
        ((verifyTells i now job.toTranslation).map (·.2)) := by
  obtain ⟨-, hdelays, hawaits⟩ := h
  cases hawaits with
  | rest _ hnone => exact absurd (hverify.symm.trans hnone) (by simp)
  | armed _ hnone _ => exact absurd (hverify.symm.trans hnone) (by simp)
  | @settling due job' hjob hnone hsettling hhost =>
    obtain ⟨rfl, rfl⟩ : due = now ∧ job' = job := by
      simpa using hsettling.symm.trans hverify
    have hstart : Desk.operate settings.verify due ⟨s, []⟩ .verifyTimer = _ :=
      operate_verifyTimer waiting_nil hsettling hjob
    have hanswer := operate_verifying (s := { s with verifyTimer := s.verifyTimer.fire.1 })
      settings.verify due hjob (i.verify job'.host)
    refine ⟨hhost, _, _, hstart, hanswer, ?_, ?_⟩
    · refine ⟨[], ⟨rfl, hdelays, .rest hnone rfl⟩, ?_⟩
      unfold verifyTells
      split <;> simp
    · have hnone : s.compileTimer.waiting = none := hnone
      simp [deskSteps, hnone, hverify, Debouncer.fire]

/-! ## Caches -/

/-- Something is told of a document. -/
def Event.tells (sid : SessionId) : Event → Bool
  | .tell other _ => other = sid
  | _ => false

theorem ok_of_toOption {ε α : Type} {answer : Except ε α} {value : α}
    (h : answer.toOption = some value) : answer = .ok value := by
  cases answer with
  | error fault => cases h
  | ok found => rw [Option.some.inj h]

/-- An answer of the compiler is kept, if at all, as it is. -/
theorem keepCompiled_eq
    (h : e.compiled.Serves settings.cacheTtlMs (fun text => (i.compile text).toOption) texts)
    (htext : text ∈ texts) (hroom : e.now + settings.cacheTtlMs < timeBound) :
    ∃ compiled,
      compiled.Serves settings.cacheTtlMs (fun text => (i.compile text).toOption) texts ∧
      e.keepCompiled text (i.compile text) = ({ e with compiled }, some (i.compile text)) := by
  cases hanswer : i.compile text with
  | error fault => exact ⟨e.compiled, h, rfl⟩
  | ok outcome =>
    have hvalue : (i.compile text).toOption = some outcome := by rw [hanswer]; rfl
    refine ⟨_, h.put htext hvalue hroom, ?_⟩
    simp only [keepCompiled, h.put_eq htext hvalue hroom, Option.map_some]

/-- Findings of the verifier are kept, if at all, as they are. -/
theorem keepVerified_eq {host : String}
    (h : e.verified.Serves settings.cacheTtlMs (fun host => (i.verify host).toOption) (i.hosts texts))
    (hhost : host ∈ i.hosts texts) (hroom : e.now + settings.cacheTtlMs < timeBound) :
    ∃ verified,
      verified.Serves settings.cacheTtlMs (fun host => (i.verify host).toOption) (i.hosts texts) ∧
      e.keepVerified host (i.verify host) = ({ e with verified }, some (i.verify host)) := by
  cases hanswer : i.verify host with
  | error failure => exact ⟨e.verified, h, rfl⟩
  | ok found =>
    have hvalue : (i.verify host).toOption = some found := by rw [hanswer]; rfl
    refine ⟨_, h.put hhost hvalue hroom, ?_⟩
    simp only [keepVerified, h.put_eq hhost hvalue hroom, Option.map_some]

/-- A compilation is served at once, from the cache or not. -/
theorem serve_compile
    (h : e.compiled.Serves settings.cacheTtlMs (fun text => (i.compile text).toOption) texts)
    (htext : text ∈ texts) (hroom : e.now + settings.cacheTtlMs < timeBound) (sid : SessionId)
    (g : Nat) :
    ∃ compiled shown,
      compiled.Serves settings.cacheTtlMs (fun text => (i.compile text).toOption) texts ∧
      (∀ document, shown.filter (Event.tells document) = []) ∧
      e.serve i.tools sid (.compile g text) =
        ((settleCompile { e with compiled } sid g (i.compile text)).1,
          shown ++ (settleCompile { e with compiled } sid g (i.compile text)).2) := by
  have hserves := h.get e.now text
  unfold serve
  rcases hget : e.compiled.get e.now text with ⟨hit | _ | _, compiled⟩
  · have hanswer : i.compile text = .ok hit :=
      ok_of_toOption (h.get_eq htext (congrArg Prod.fst hget))
    rw [hget] at hserves
    refine ⟨compiled, [], hserves, fun _ => rfl, ?_⟩
    simp only [hget, hanswer, List.nil_append]
  · rw [hget] at hserves
    obtain ⟨kept, hkept, hkeep⟩ := keepCompiled_eq (e := { e with compiled }) hserves htext hroom
    refine ⟨kept, [.compile text], hkept, fun _ => rfl, ?_⟩
    simp only [hget, Instant.tools, dispatch, if_true, land, landCompile, hkeep]
    rfl
  · exact absurd (congrArg Prod.fst hget) (Guarded.get_ne_failed h.whole)

/-- A verification is served at once, from the cache or not. -/
theorem serve_verify
    (h : e.verified.Serves settings.cacheTtlMs (fun host => (i.verify host).toOption) (i.hosts texts))
    (hhost : job.host ∈ i.hosts texts) (hroom : e.now + settings.cacheTtlMs < timeBound)
    (sid : SessionId) :
    ∃ verified shown,
      verified.Serves settings.cacheTtlMs (fun host => (i.verify host).toOption) (i.hosts texts) ∧
      (∀ document, shown.filter (Event.tells document) = []) ∧
      e.serve i.tools sid (.verify job) =
        ((settleVerify { e with verified } sid job.generation (i.verify job.host)).1,
          shown ++ (settleVerify { e with verified } sid job.generation (i.verify job.host)).2) := by
  have hserves := h.get e.now job.host
  unfold serve
  rcases hget : e.verified.get e.now job.host with ⟨hit | _ | _, verified⟩
  · have hanswer : i.verify job.host = .ok hit :=
      ok_of_toOption (h.get_eq hhost (congrArg Prod.fst hget))
    rw [hget] at hserves
    refine ⟨verified, [], hserves, fun _ => rfl, ?_⟩
    simp only [hget, hanswer, List.nil_append]
  · rw [hget] at hserves
    obtain ⟨kept, hkept, hkeep⟩ := keepVerified_eq (e := { e with verified }) hserves hhost hroom
    refine ⟨kept, [.verify job.host], hkept, fun _ => rfl, ?_⟩
    simp only [hget, Instant.tools, dispatch, if_true, land, landVerify, hkeep]
    rfl
  · exact absurd (congrArg Prod.fst hget) (Guarded.get_ne_failed h.whole)

/-! ## One step of the clock -/

theorem serveAll_singleton (tools : Toolchain) (sid : SessionId) (e : Engine) (output : Output) :
    e.serveAll tools sid [output] = e.serve tools sid output := by
  simp [serveAll]

/-- What a step of the engine comes to: one desk takes its turn and tells what it was going to. -/
structure Stepped (i : Instant) (settings : Settings) (texts : List String) (due : Nat)
    (before after : Engine) (seen : List Event) (sid : SessionId) : Prop where
  mem : (sid, before.desk sid) ∈ before.desks
  turned : ∃ ahead d told, Rested i settings texts (before.desk sid) ahead ∧
    Turned i settings texts due ahead (before.desk sid) d told ∧
    (∃ compiled verified, after = Engine.put { before with now := due, compiled, verified } sid d ∧
      compiled.Serves settings.cacheTtlMs (fun text => (i.compile text).toOption) texts ∧
      verified.Serves settings.cacheTtlMs (fun host => (i.verify host).toOption) (i.hosts texts)) ∧
    ∃ shown, (∀ document, shown.filter (Event.tells document) = []) ∧
      seen = shown ++ told.map (.tell sid)

/-- An operation on a document, and what it asks for. -/
def fire (tools : Toolchain) (e : Engine) (sid : SessionId) (operation : Operation) :
    Engine × List Event :=
  (e.operate sid operation).1.serveAll tools sid (e.operate sid operation).2

theorem fire_eq {tools : Toolchain} {operation : Operation} {output : Output} {busy : Desk}
    (h : (e.desk sid).operate e.settings.verify e.now operation = (busy, [output])) :
    fire tools e sid operation = (e.put sid busy).serve tools sid output := by
  rw [fire, operate_eq h, serveAll_singleton]

theorem Tended.compileTimer (h : Tended i settings texts e) (huri : (sid, ⟨s, []⟩) ∈ e.desks)
    (hcompile : s.compileTimer.waiting = some ⟨now, g⟩)
    (hroom : now + settings.cacheTtlMs < timeBound) :
    Stepped i settings texts now e (fire i.tools { e with now } sid .compileTimer).1
      (fire i.tools { e with now } sid .compileTimer).2 sid := by
  have hdesk : e.desk sid = ⟨s, []⟩ := h.keyed.desk_eq huri
  obtain ⟨ahead, hrested⟩ := h.desks _ huri
  obtain ⟨htext, busy, done, what, hstart, hanswer, hturned⟩ := hrested.compileTimer hcompile
  rw [← hdesk, ← h.settings_eq] at hstart
  rw [← h.settings_eq] at hanswer
  obtain ⟨compiled, shown, hserves, hshown, hserve⟩ :=
    serve_compile (e := Engine.put { e with now } sid busy) h.compiled htext hroom sid g
  have hsettle : settleCompile (Engine.put { e with now, compiled } sid busy) sid g
      (i.compile s.text) = (Engine.put { e with now, compiled } sid done, [.tell sid what]) := by
    have hreturn : ((Engine.put { e with now, compiled } sid busy).desk sid).operate
        e.settings.verify now (.compileReturn g (i.compile s.text)) = (done, [.tell g what]) := by
      rw [desk_put]
      exact hanswer
    rw [settleCompile, operate_eq hreturn, put_put]
    rfl
  rw [fire_eq hstart, hserve]
  refine ⟨hdesk ▸ huri, ahead, done, [what], hdesk ▸ hrested, hdesk ▸ hturned,
    ⟨compiled, e.verified, congrArg Prod.fst hsettle, hserves, h.verified⟩, shown, hshown, ?_⟩
  exact congrArg (shown ++ ·) (congrArg Prod.snd hsettle)

theorem tellings_foundOutput (sid : SessionId) (time : Nat) (job : VerifyJob) :
    tellings sid (foundOutput job (i.verify job.host)) =
      ((verifyTells i time job.toTranslation).map (·.2)).map (.tell sid) := by
  unfold foundOutput verifyTells
  cases i.verify job.host <;> rfl

theorem Tended.verifyTimer (h : Tended i settings texts e) (huri : (sid, ⟨s, []⟩) ∈ e.desks)
    (hverify : s.verifyTimer.waiting = some ⟨now, job⟩)
    (hroom : now + settings.cacheTtlMs < timeBound) :
    Stepped i settings texts now e (fire i.tools { e with now } sid .verifyTimer).1
      (fire i.tools { e with now } sid .verifyTimer).2 sid := by
  have hdesk : e.desk sid = ⟨s, []⟩ := h.keyed.desk_eq huri
  obtain ⟨ahead, hrested⟩ := h.desks _ huri
  obtain ⟨hhost, busy, done, hstart, hanswer, hturned⟩ := hrested.verifyTimer hverify
  rw [← hdesk, ← h.settings_eq] at hstart
  rw [← h.settings_eq] at hanswer
  obtain ⟨verified, shown, hserves, hshown, hserve⟩ :=
    serve_verify (e := Engine.put { e with now } sid busy) h.verified hhost hroom sid
  have hsettle : settleVerify (Engine.put { e with now, verified } sid busy) sid job.generation
      (i.verify job.host) = (Engine.put { e with now, verified } sid done,
        ((verifyTells i now job.toTranslation).map (·.2)).map (.tell sid)) := by
    have hreturn : ((Engine.put { e with now, verified } sid busy).desk sid).operate
        e.settings.verify now (.verifyReturn job.generation (i.verify job.host)) =
          (done, foundOutput job (i.verify job.host)) := by
      rw [desk_put]
      exact hanswer
    rw [settleVerify, operate_eq hreturn, put_put, ← tellings_foundOutput]
  rw [fire_eq hstart, hserve]
  refine ⟨hdesk ▸ huri, ahead, done, _, hdesk ▸ hrested, hdesk ▸ hturned,
    ⟨e.compiled, verified, congrArg Prod.fst hsettle, h.compiled, hserves⟩, shown, hshown, ?_⟩
  exact congrArg (shown ++ ·) (congrArg Prod.snd hsettle)

/-- **All that a step of the engine does.** -/
theorem Tended.step {due : Nat} (h : Tended i settings texts e)
    (hdue : (clockwork i.tools).due? e = some due)
    (hroom : due + settings.cacheTtlMs < timeBound) :
    ∃ sid, Stepped i settings texts due e (e.step i.tools).1 (e.step i.tools).2 sid := by
  obtain ⟨first, hfirst, rfl⟩ := Option.map_eq_some_iff.mp hdue
  have hmem := (earliest?_eq_some hfirst).1
  rw [dues_of_no_calls h.calls] at hmem
  obtain ⟨⟨sid, d⟩, hentry, hmem⟩ := List.mem_flatMap.mp hmem
  obtain ⟨ahead, hrested⟩ := h.desks _ hentry
  obtain ⟨s, runs⟩ := d
  obtain rfl : runs = [] := hrested.runs
  refine ⟨sid, ?_⟩
  unfold Engine.step
  rw [hfirst]
  rcases mem_deskDues.mp hmem with ⟨t, hcompile, rfl⟩ | ⟨t, hverify, rfl⟩
  · exact h.compileTimer hentry hcompile hroom
  · exact h.verifyTimer hentry hverify hroom

/-! ## What is going to be told of a document -/

/-- Putting a rested desk in its place. -/
theorem Tended.put (h : Tended i settings texts e) (hd : Rested i settings texts d ahead) :
    Tended i settings texts (e.put sid d) where
  settings_eq := h.settings_eq
  calls := h.calls
  keyed := h.keyed.putDesk sid d
  desks := by
    intro entry hentry
    rcases mem_putDesk hentry with rfl | hentry
    · exact ⟨ahead, hd⟩
    · exact h.desks entry hentry
  compiled := h.compiled
  verified := h.verified

theorem Tended.rested (h : Tended i settings texts e) (sid : SessionId) :
    ∃ ahead, Rested i settings texts (e.desk sid) ahead := by
  rcases desk_cases e sid with hmem | hfresh
  · exact h.desks _ hmem
  · rw [hfresh, h.settings_eq]
    exact ⟨[], rfl, ⟨rfl, rfl⟩, .rest rfl rfl⟩

/-- What is told of a document at its times. -/
def tellsOf (document : SessionId) (told : List (Nat × Announcement)) : List (Nat × Event) :=
  told.map fun seen => (seen.1, .tell document seen.2)

/-- What is going to be told of a document. -/
def Foreseen (i : Instant) (settings : Settings) (texts : List String) (document : SessionId)
    (e : Engine) (ahead : List (Nat × Event)) : Prop :=
  Tended i settings texts e ∧
    ∃ told, Rested i settings texts (e.desk document) told ∧ ahead = tellsOf document told

theorem filter_tell (sid document : SessionId) (told : List Announcement) :
    (told.map (Event.tell sid)).filter (Event.tells document) =
      if sid = document then told.map (.tell sid) else [] := by
  split
  · rename_i h
    refine List.filter_eq_self.mpr fun event hevent => ?_
    obtain ⟨what, -, rfl⟩ := List.mem_map.mp hevent
    simpa [Event.tells] using h
  · rename_i h
    refine List.filter_eq_nil_iff.mpr fun event hevent => ?_
    obtain ⟨what, -, rfl⟩ := List.mem_map.mp hevent
    simpa [Event.tells] using h

theorem Stepped.tended {due : Nat} {after : Engine} {seen : List Event}
    (h : Stepped i settings texts due e after seen sid) (he : Tended i settings texts e) :
    Tended i settings texts after := by
  obtain ⟨-, ahead, d, told, -, hturned, ⟨compiled, verified, rfl, hcompiled, hverified⟩, -⟩ := h
  obtain ⟨later, hlater, -⟩ := hturned.rested
  have hcaches : Tended i settings texts { e with now := due, compiled, verified } :=
    ⟨he.settings_eq, he.calls, he.keyed, he.desks, hcompiled, hverified⟩
  exact hcaches.put hlater

/-- A step tells the next part of what is going to be told of a document. -/
theorem Stepped.foreseen {due : Nat} {after : Engine} {seen : List Event} {ahead : List (Nat × Event)}
    (h : Stepped i settings texts due e after seen sid)
    (hforeseen : Foreseen i settings texts document e ahead) :
    ∃ later, Foreseen i settings texts document after later ∧
      ahead = (seen.filter (Event.tells document)).map (due, ·) ++ later := by
  have htended := h.tended hforeseen.1
  obtain ⟨-, ahead', d, told, hrested, hturned, ⟨compiled, verified, rfl, -⟩, shown, hshown, rfl⟩ := h
  obtain ⟨-, told', hrested', rfl⟩ := hforeseen
  rw [List.filter_append, hshown, List.nil_append, filter_tell]
  by_cases huri : sid = document
  · -- the document's own desk takes its turn
    subst huri
    obtain ⟨later, hlater, rfl⟩ := hturned.rested
    obtain rfl := hrested'.awaits.unique hrested.awaits
    refine ⟨tellsOf sid later, ⟨htended, later, ?_, rfl⟩, ?_⟩
    · rwa [desk_put]
    · rw [if_pos rfl]
      simp [tellsOf, Function.comp_def]
  · refine ⟨tellsOf document told', ⟨htended, told', ?_, rfl⟩, ?_⟩
    · rw [desk_put_of_ne (Ne.symm huri)]
      exact hrested'
    · rw [if_neg huri]
      rfl

theorem Stepped.less {due : Nat} {after : Engine} {seen : List Event}
    (h : Stepped i settings texts due e after seen sid) (he : Tended i settings texts e) :
    (clockwork i.tools).remaining after < (clockwork i.tools).remaining e := by
  obtain ⟨hmem, ahead, d, told, -, hturned, ⟨compiled, verified, rfl, -⟩, -⟩ := h
  have hsteps : steps (putDesk sid d e.desks) + deskSteps (e.desk sid) =
      steps e.desks + deskSteps d := steps_putDesk (he.keyed.find? hmem)
  have hless := hturned.less
  show steps (putDesk sid d e.desks) + e.calls.foldr _ 0 < steps e.desks + e.calls.foldr _ 0
  omega

/-- Nothing is told before a timer fires. -/
theorem Awaits.due_le (h : Awaits i settings texts s ahead) (sid : SessionId)
    {seen : Nat × Announcement} (hseen : seen ∈ ahead) :
    ∃ timer ∈ deskDues (sid, ⟨s, []⟩), timer.due ≤ seen.1 := by
  cases h with
  | rest _ _ => cases hseen
  | @armed due hcompile _ htext =>
    refine ⟨⟨due, .compileTimer sid⟩, mem_deskDues.mpr (.inl ⟨_, hcompile, rfl⟩), ?_⟩
    exact le_of_mem_compileTells hseen
  | @settling due job _ _ hverify _ =>
    refine ⟨⟨due, .verifyTimer sid⟩, mem_deskDues.mpr (.inr ⟨_, hverify, rfl⟩), ?_⟩
    exact Nat.le_of_eq (eq_of_mem_verifyTells hseen).symm

theorem Foreseen.wait {ahead : List (Nat × Event)} (h : Foreseen i settings texts document e ahead) :
    ∀ seen ∈ ahead, ∃ due, (clockwork i.tools).due? e = some due ∧ due ≤ seen.1 := by
  obtain ⟨htended, told, hrested, rfl⟩ := h
  intro seen hseen
  obtain ⟨what, hwhat, rfl⟩ := List.mem_map.mp hseen
  rcases desk_cases e document with hmem | hfresh
  · -- the desk's timer is one of those the clock waits for
    generalize hdesk : e.desk document = d at hmem hrested
    obtain ⟨s, runs⟩ := d
    obtain rfl : runs = [] := hrested.runs
    obtain ⟨timer, htimer, hle⟩ := hrested.awaits.due_le document hwhat
    have hdues : timer ∈ e.dues := by
      rw [dues_of_no_calls htended.calls]
      exact List.mem_flatMap.mpr ⟨_, hmem, htimer⟩
    cases hfirst : earliest? e.dues with
    | none =>
      rw [earliest?_eq_none.mp hfirst] at hdues
      cases hdues
    | some first =>
      refine ⟨first.due, congrArg (Option.map Timer.due) hfirst, ?_⟩
      exact Nat.le_trans ((earliest?_eq_some hfirst).2 timer hdues) hle
  · -- a fresh desk has nothing to tell
    have hrest : Awaits i settings texts (e.desk document).session [] := by
      rw [hfresh]
      exact .rest rfl rfl
    rw [hrested.awaits.unique hrest] at hwhat
    cases hwhat

/-- **What is going to be told of a document** is told, whatever the other documents do. -/
theorem foreseen_foretells (i : Instant) (settings : Settings) (texts : List String)
    (document : SessionId) {limit : Nat} (hroom : limit + settings.cacheTtlMs < timeBound) :
    (clockwork i.tools).Foretells limit (Event.tells document)
      (Foreseen i settings texts document) where
  wait h := h.wait
  step h hdue hle := by
    obtain ⟨sid, hstepped⟩ := h.1.step hdue (by omega)
    exact hstepped.foreseen h
  ends h hdue hle := by
    obtain ⟨sid, hstepped⟩ := h.1.step hdue (by omega)
    exact hstepped.less h.1

end Engine

end DialectBridge
