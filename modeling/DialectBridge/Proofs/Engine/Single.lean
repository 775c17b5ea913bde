import DialectBridge.Proofs.Engine.Instant

/-!
# A single edit, left alone

A new engine takes one edit of one document, and then only time passes.  Compiler and verifier may
take as long as they like.  The document goes through its stages one after the other: the quiet time
after the edit, the compilation, the quiet time after it, the verification.

* `compileCourse` — all that is seen of the engine from the end of the quiet time on;
* `EditStage` — where the work on the document stands, and what is still to be seen;
* `EditStage.step` — a step shows the next part of it and leads to a later stage;
* `course_of_settled`, `settled_of_le` — what is seen of an engine that has settled, and when it has.
-/

namespace DialectBridge

namespace Guarded

variable {ν : Type} {g : Guarded ν} {lifetime now : Nat}

/-- Nothing has been put in the cache. -/
structure Blank (lifetime : Nat) (g : Guarded ν) : Prop where
  entries : g.store.entries = []
  lifetime_eq : g.store.lifetime = lifetime
  whole : g.poisoned = false

theorem blank_empty (space : String) (lifetime : Nat) :
    (empty space lifetime : Guarded ν).Blank lifetime :=
  ⟨rfl, rfl, rfl⟩

theorem Blank.get (h : g.Blank lifetime) (now : Nat) (text : String) :
    g.get now text = (.miss, g) := by
  have hlook : g.toCache.get now text = (none, g.toCache) := by
    simp [Cache.get, Store.get, Store.find?, h.entries]
  rw [get_of_whole h.whole, hlook]
  refine congrArg (Prod.mk _) ?_
  rw [← h.whole]

theorem Blank.put_fst (h : g.Blank lifetime) (now : Nat) (text : String) (value : ν) :
    (g.put now text value).1 = (timeAfter? now lifetime).map fun _ => value := by
  have hlive : g.store.live? now (g.key text) = none := by
    simp [Store.live?, h.entries]
  rw [put_of_whole h.whole]
  refine (Store.put_fst _ _ _ _).trans ?_
  rw [hlive, h.lifetime_eq]
  rfl

/-- A value is kept as it is, if it can be stored. -/
theorem Blank.put (h : g.Blank lifetime) (text : String) (value : ν)
    (hroom : now + lifetime < timeBound) : (g.put now text value).1 = some value := by
  rw [h.put_fst, Store.timeAfter?_of_lt hroom]
  rfl

/-- A value that would expire too late is not kept. -/
theorem Blank.put_late (h : g.Blank lifetime) (text : String) (value : ν)
    (hlate : timeBound ≤ now + lifetime) : (g.put now text value).1 = none := by
  rw [h.put_fst, Store.timeAfter?_of_ge hlate]
  rfl

end Guarded

namespace Engine

open Pipeline

/-- What a verification that comes back at a time shows. -/
def foundCourse (tools : Toolchain) (sid : SessionId) (time : Nat) (t : Translation) :
    List (Nat × Event) :=
  match (tools.verify t.host).value with
  | .error _ => []
  | .ok found => [(time, .tell sid (.publish (Finding.placeAll t.map found t.text.toList)))]

/-- What a verification that starts at a time shows. -/
def verifyCourse (tools : Toolchain) (sid : SessionId) (time : Nat) (t : Translation) :
    List (Nat × Event) :=
  (time, .verify t.host) :: foundCourse tools sid (time + (tools.verify t.host).delay) t

/-- What a compilation that comes back at a time shows, and what follows from it. -/
def gateCourse (tools : Toolchain) (settings : Settings) (sid : SessionId) (time : Nat)
    (text : String) : List (Nat × Event) :=
  let gate := compileGate settings.verify text (tools.compile text).value
  (time, .tell sid gate.what) ::
    gate.next.toList.flatMap (verifyCourse tools sid (time + settings.verifyDebounceMs))

/-- What a compilation that starts at a time shows, and what follows from it. -/
def compileCourse (tools : Toolchain) (settings : Settings) (sid : SessionId) (time : Nat)
    (text : String) : List (Nat × Event) :=
  (time, .compile text) ::
    gateCourse tools settings sid (time + (tools.compile text).delay) text

/-- The time from the answer of the compiler to that of the verifier. -/
def verifySpan (tools : Toolchain) (settings : Settings) (text : String) : Nat :=
  match (compileGate settings.verify text (tools.compile text).value).next with
  | none => 0
  | some t => settings.verifyDebounceMs + (tools.verify t.host).delay

/-- The time from an edit to the last answer. -/
def settleTime (tools : Toolchain) (settings : Settings) (text : String) : Nat :=
  settings.compileDebounceMs + (tools.compile text).delay + verifySpan tools settings text

/-- An engine with a single document, and the calls under way. -/
structure Alone (settings : Settings) (sid : SessionId) (e : Engine) (d : Desk)
    (calls : List (Timer Call)) : Prop where
  settings_eq : e.settings = settings
  desks_eq : e.desks = [(sid, d)]
  calls_eq : e.calls = calls

/-- **Where the work on an edit stands**, and what is still to be seen, all of it by `horizon`. -/
inductive EditStage (tools : Toolchain) (settings : Settings) (sid : SessionId) (horizon : Nat) :
    Engine → List (Nat × Event) → Prop
  | armed {e : Engine} {s : DocumentSession} {due : Nat}
      (halone : Alone settings sid e ⟨s, []⟩ [])
      (hcompile : s.compileTimer.waiting = some ⟨due, s.generation⟩)
      (hverify : s.verifyTimer.waiting = none)
      (hdelay : s.verifyTimer.delay = settings.verifyDebounceMs)
      (hcompiled : e.compiled.Blank settings.cacheTtlMs)
      (hverified : e.verified.Blank settings.cacheTtlMs)
      (htime : due + (tools.compile s.text).delay + verifySpan tools settings s.text ≤ horizon) :
      EditStage tools settings sid horizon e (compileCourse tools settings sid due s.text)
  | compiling {e : Engine} {s : DocumentSession} {due : Nat} {text : String}
      (halone : Alone settings sid e ⟨s, [.compiling s.generation text]⟩
        [⟨due, .compile sid s.generation text (tools.compile text).value⟩])
      (hcompile : s.compileTimer.waiting = none) (hverify : s.verifyTimer.waiting = none)
      (hdelay : s.verifyTimer.delay = settings.verifyDebounceMs)
      (hcompiled : e.compiled.Blank settings.cacheTtlMs)
      (hverified : e.verified.Blank settings.cacheTtlMs)
      (htime : due + verifySpan tools settings text ≤ horizon) :
      EditStage tools settings sid horizon e (gateCourse tools settings sid due text)
  | settling {e : Engine} {s : DocumentSession} {due : Nat} {job : VerifyJob}
      (halone : Alone settings sid e ⟨s, []⟩ []) (hjob : s.generation = job.generation)
      (hcompile : s.compileTimer.waiting = none)
      (hverify : s.verifyTimer.waiting = some ⟨due, job⟩)
      (hverified : e.verified.Blank settings.cacheTtlMs)
      (htime : due + (tools.verify job.host).delay ≤ horizon) :
      EditStage tools settings sid horizon e (verifyCourse tools sid due job.toTranslation)
  | verifying {e : Engine} {s : DocumentSession} {due : Nat} {job : VerifyJob}
      (halone : Alone settings sid e ⟨s, [.verifying job]⟩
        [⟨due, .verify sid job (tools.verify job.host).value⟩])
      (hjob : s.generation = job.generation) (hcompile : s.compileTimer.waiting = none)
      (hverify : s.verifyTimer.waiting = none) (hverified : e.verified.Blank settings.cacheTtlMs)
      (htime : due ≤ horizon) :
      EditStage tools settings sid horizon e (foundCourse tools sid due job.toTranslation)
  | rest {e : Engine} {s : DocumentSession} (halone : Alone settings sid e ⟨s, []⟩ [])
      (hcompile : s.compileTimer.waiting = none) (hverify : s.verifyTimer.waiting = none) :
      EditStage tools settings sid horizon e []

/-- What a step at a time leads to: a later stage, with the next part of what was to be seen. -/
structure Leads (tools : Toolchain) (settings : Settings) (sid : SessionId) (horizon now : Nat)
    (ahead : List (Nat × Event)) (steps : Nat) (after : Engine × List Event) : Prop where
  stage : ∃ later, EditStage tools settings sid horizon after.1 later ∧
    ahead = after.2.map (now, ·) ++ later
  less : (clockwork tools).remaining after.1 < steps

variable {tools : Toolchain} {settings : Settings} {sid : SessionId} {horizon due now lifetime : Nat}
  {e : Engine} {s : DocumentSession} {d : Desk} {calls : List (Timer Call)} {job : VerifyJob}
  {text : String} {ahead : List (Nat × Event)}

/-! ## A single desk -/

theorem Alone.desk_eq (h : Alone settings sid e d calls) : e.desk sid = d := by
  simp [desk, h.desks_eq]

theorem Alone.put (h : Alone settings sid e d calls) (d' : Desk) :
    Alone settings sid (e.put sid d') d' calls where
  settings_eq := h.settings_eq
  desks_eq := by simp [Engine.put, h.desks_eq, putDesk]
  calls_eq := h.calls_eq

theorem Alone.at (h : Alone settings sid e d calls) (now : Nat) :
    Alone settings sid { e with now } d calls :=
  ⟨h.settings_eq, h.desks_eq, h.calls_eq⟩

theorem Alone.call (h : Alone settings sid e d []) (call : Timer Call) :
    Alone settings sid { e with calls := e.calls ++ [call] } d [call] where
  settings_eq := h.settings_eq
  desks_eq := h.desks_eq
  calls_eq := by rw [h.calls_eq, List.nil_append]

theorem Alone.dues (h : Alone settings sid e d calls) :
    e.dues = calls.mapIdx (fun index call => ⟨call.due, .call index⟩) ++ deskDues (sid, d) := by
  simp [Engine.dues, h.desks_eq, h.calls_eq]

theorem Alone.remaining (h : Alone settings sid e d calls) :
    (clockwork tools).remaining e =
      deskSteps d + calls.foldr (fun c n => callSteps c.job + n) 0 := by
  simp [clockwork, h.desks_eq, h.calls_eq]

/-- After the edit there is the compile timer to wait for. -/
theorem Alone.dues_compile {g : Nat} (h : Alone settings sid e ⟨s, []⟩ [])
    (hcompile : s.compileTimer.waiting = some ⟨due, g⟩) (hverify : s.verifyTimer.waiting = none) :
    e.dues = [⟨due, .compileTimer sid⟩] := by
  simp [h.dues, deskDues, Debouncer.due?, hcompile, hverify]

/-- After the compilation there is the verify timer to wait for. -/
theorem Alone.dues_verify (h : Alone settings sid e ⟨s, []⟩ [])
    (hcompile : s.compileTimer.waiting = none)
    (hverify : s.verifyTimer.waiting = some ⟨due, job⟩) : e.dues = [⟨due, .verifyTimer sid⟩] := by
  simp [h.dues, deskDues, Debouncer.due?, hcompile, hverify]

/-- Without timers there are the calls to wait for. -/
theorem Alone.dues_calls {runs : List Run} (h : Alone settings sid e ⟨s, runs⟩ calls)
    (hcompile : s.compileTimer.waiting = none) (hverify : s.verifyTimer.waiting = none) :
    e.dues = calls.mapIdx fun index call => ⟨call.due, .call index⟩ := by
  simp [h.dues, deskDues, Debouncer.due?, hcompile, hverify]

/-! ## Answers -/

/-- An answer of the compiler enters a blank cache, if at all, as it is. -/
theorem keepCompiled_blank (h : e.compiled.Blank lifetime) (hroom : e.now + lifetime < timeBound)
    (text : String) (answer : Compiler.Answer) :
    ∃ compiled, e.keepCompiled text answer = ({ e with compiled }, some answer) := by
  cases answer with
  | error fault => exact ⟨e.compiled, rfl⟩
  | ok outcome =>
    refine ⟨(e.compiled.put e.now text outcome).2, ?_⟩
    simp only [keepCompiled, h.put text outcome hroom, Option.map_some]

/-- Findings of the verifier enter a blank cache, if at all, as they are. -/
theorem keepVerified_blank (h : e.verified.Blank lifetime) (hroom : e.now + lifetime < timeBound)
    (host : String) (answer : Verifier.Answer) :
    ∃ verified, e.keepVerified host answer = ({ e with verified }, some answer) := by
  cases answer with
  | error failure => exact ⟨e.verified, rfl⟩
  | ok found =>
    refine ⟨(e.verified.put e.now host found).2, ?_⟩
    simp only [keepVerified, h.put host found hroom, Option.map_some]

theorem Alone.settleCompile
    (h : Alone settings sid e ⟨s, [.compiling s.generation text]⟩ calls) (answer : Compiler.Answer) :
    e.settleCompile sid s.generation answer =
      (e.put sid
          ⟨passedSession e.now s s.generation (compileGate settings.verify text answer), []⟩,
        [.tell sid (compileGate settings.verify text answer).what]) := by
  have hreturn : Desk.operate settings.verify e.now ⟨s, [.compiling s.generation text]⟩
      (.compileReturn s.generation answer) = _ :=
    operate_compiling _ _ rfl answer
  rw [← h.desk_eq, ← h.settings_eq] at hreturn
  rw [Engine.settleCompile, operate_eq hreturn, h.settings_eq]
  rfl

theorem Alone.settleVerify (h : Alone settings sid e ⟨s, [.verifying job]⟩ calls)
    (hjob : s.generation = job.generation) (answer : Verifier.Answer) :
    e.settleVerify sid job.generation answer =
      (e.put sid ⟨{ s with phase := .published }, []⟩, tellings sid (foundOutput job answer)) := by
  have hreturn := operate_verifying e.settings.verify e.now hjob answer
  rw [← h.desk_eq] at hreturn
  rw [Engine.settleVerify, operate_eq hreturn]

/-- Behind the gate a document rests or waits for its verification. -/
theorem stage_passed (tools : Toolchain) {gate : Passage}
    (halone : Alone settings sid e ⟨passedSession now s s.generation gate, []⟩ [])
    (hcompile : s.compileTimer.waiting = none) (hverify : s.verifyTimer.waiting = none)
    (hdelay : s.verifyTimer.delay = settings.verifyDebounceMs)
    (hverified : e.verified.Blank settings.cacheTtlMs)
    (htime : ∀ t, gate.next = some t →
      now + (settings.verifyDebounceMs + (tools.verify t.host).delay) ≤ horizon) :
    EditStage tools settings sid horizon e
        (gate.next.toList.flatMap (verifyCourse tools sid (now + settings.verifyDebounceMs))) ∧
      (clockwork tools).remaining e < 3 := by
  rw [halone.remaining]
  unfold passedSession at halone ⊢
  cases hnext : gate.next with
  | none =>
    rw [hnext] at halone
    exact ⟨.rest halone hcompile hverify, by simp [deskSteps, hcompile, hverify]⟩
  | some t =>
    have htime := htime t hnext
    rw [hnext] at halone
    rw [Option.toList_some, List.flatMap_singleton, ← hdelay]
    refine ⟨?_, by simp [deskSteps, hcompile, Debouncer.schedule]⟩
    show EditStage tools settings sid horizon e
      (verifyCourse tools sid _ (⟨t, s.generation⟩ : VerifyJob).toTranslation)
    refine .settling halone rfl hcompile rfl hverified ?_
    rwa [hdelay, Nat.add_assoc]

/-- The compiler's answer arrives. -/
theorem leads_landCompile (halone : Alone settings sid e ⟨s, [.compiling s.generation text]⟩ [])
    (hcompile : s.compileTimer.waiting = none) (hverify : s.verifyTimer.waiting = none)
    (hdelay : s.verifyTimer.delay = settings.verifyDebounceMs)
    (hcompiled : e.compiled.Blank settings.cacheTtlMs)
    (hverified : e.verified.Blank settings.cacheTtlMs)
    (hroom : horizon + settings.cacheTtlMs < timeBound)
    (htime : e.now + verifySpan tools settings text ≤ horizon) :
    Leads tools settings sid horizon e.now (gateCourse tools settings sid e.now text) 3
      (e.landCompile sid s.generation text (tools.compile text).value) := by
  obtain ⟨compiled, hkeep⟩ :=
    keepCompiled_blank hcompiled (by omega) text (tools.compile text).value
  have hkept : Alone settings sid { e with compiled } ⟨s, [.compiling s.generation text]⟩ [] :=
    ⟨halone.settings_eq, halone.desks_eq, halone.calls_eq⟩
  have hspan : ∀ t, (compileGate settings.verify text (tools.compile text).value).next = some t →
      e.now + (settings.verifyDebounceMs + (tools.verify t.host).delay) ≤ horizon := by
    intro t ht
    rwa [verifySpan, ht] at htime
  obtain ⟨hstage, hless⟩ :=
    stage_passed tools (hkept.put _) hcompile hverify hdelay hverified hspan
  simp only [landCompile, hkeep, hkept.settleCompile]
  exact ⟨⟨_, hstage, rfl⟩, hless⟩

/-- The verifier's answer arrives. -/
theorem leads_landVerify (tools : Toolchain)
    (halone : Alone settings sid e ⟨s, [.verifying job]⟩ [])
    (hjob : s.generation = job.generation) (hcompile : s.compileTimer.waiting = none)
    (hverify : s.verifyTimer.waiting = none) (hverified : e.verified.Blank settings.cacheTtlMs)
    (hroom : horizon + settings.cacheTtlMs < timeBound) (htime : e.now ≤ horizon) :
    Leads tools settings sid horizon e.now (foundCourse tools sid e.now job.toTranslation) 1
      (e.landVerify sid job (tools.verify job.host).value) := by
  obtain ⟨verified, hkeep⟩ :=
    keepVerified_blank hverified (by omega) job.host (tools.verify job.host).value
  have hkept : Alone settings sid { e with verified } ⟨s, [.verifying job]⟩ [] :=
    ⟨halone.settings_eq, halone.desks_eq, halone.calls_eq⟩
  have hdone := hkept.put ⟨{ s with phase := .published }, []⟩
  simp only [landVerify, hkeep, hkept.settleVerify hjob]
  refine ⟨⟨[], .rest hdone hcompile hverify, ?_⟩, ?_⟩
  · unfold foundCourse foundOutput
    cases (tools.verify job.host).value <;> rfl
  · rw [hdone.remaining]
    simp [deskSteps, hcompile, hverify]

/-! ## Calls -/

/-- The compiler is called. -/
theorem leads_compile (now : Nat) (hnow : e.now = now)
    (halone : Alone settings sid e ⟨s, [.compiling s.generation text]⟩ [])
    (hcompile : s.compileTimer.waiting = none) (hverify : s.verifyTimer.waiting = none)
    (hdelay : s.verifyTimer.delay = settings.verifyDebounceMs)
    (hcompiled : e.compiled.Blank settings.cacheTtlMs)
    (hverified : e.verified.Blank settings.cacheTtlMs)
    (hroom : horizon + settings.cacheTtlMs < timeBound)
    (htime : now + (tools.compile text).delay + verifySpan tools settings text ≤ horizon) :
    Leads tools settings sid horizon now (compileCourse tools settings sid now text) 4
      (e.serve tools sid (.compile s.generation text)) := by
  subst hnow
  simp only [serve, hcompiled.get]
  by_cases hzero : (tools.compile text).delay = 0
  · -- an answer at once
    rw [hzero, Nat.add_zero] at htime
    have hland := leads_landCompile halone hcompile hverify hdelay hcompiled hverified hroom htime
    obtain ⟨later, hlater, hseen⟩ := hland.stage
    rw [dispatch, if_pos hzero]
    refine ⟨⟨later, hlater, ?_⟩, Nat.lt_succ_of_lt hland.less⟩
    rw [compileCourse, hzero, Nat.add_zero, hseen]
    rfl
  · rw [dispatch, if_neg hzero]
    have hcalling := halone.call ⟨e.now + (tools.compile text).delay,
      .compile sid s.generation text (tools.compile text).value⟩
    refine ⟨⟨_, .compiling hcalling hcompile hverify hdelay hcompiled hverified htime, rfl⟩, ?_⟩
    rw [hcalling.remaining]
    simp [deskSteps, hcompile, hverify, callSteps]

/-- The verifier is called. -/
theorem leads_verify (now : Nat) (hnow : e.now = now)
    (halone : Alone settings sid e ⟨s, [.verifying job]⟩ [])
    (hjob : s.generation = job.generation) (hcompile : s.compileTimer.waiting = none)
    (hverify : s.verifyTimer.waiting = none) (hverified : e.verified.Blank settings.cacheTtlMs)
    (hroom : horizon + settings.cacheTtlMs < timeBound)
    (htime : now + (tools.verify job.host).delay ≤ horizon) :
    Leads tools settings sid horizon now (verifyCourse tools sid now job.toTranslation) 2
      (e.serve tools sid (.verify job)) := by
  subst hnow
  simp only [serve, hverified.get]
  by_cases hzero : (tools.verify job.host).delay = 0
  · -- an answer at once
    have hland := leads_landVerify tools halone hjob hcompile hverify hverified hroom (by omega)
    obtain ⟨later, hlater, hseen⟩ := hland.stage
    rw [dispatch, if_pos hzero]
    refine ⟨⟨later, hlater, ?_⟩, Nat.lt_succ_of_lt hland.less⟩
    rw [verifyCourse, hzero, Nat.add_zero, hseen]
    rfl
  · rw [dispatch, if_neg hzero]
    have hcalling := halone.call ⟨e.now + (tools.verify job.host).delay,
      .verify sid job (tools.verify job.host).value⟩
    refine ⟨⟨_, .verifying hcalling hjob hcompile hverify hverified htime, rfl⟩, ?_⟩
    rw [hcalling.remaining]
    simp [deskSteps, hcompile, hverify, callSteps]

/-! ## Steps -/

theorem due?_of_dues {job : Due} (h : e.dues = [⟨due, job⟩]) :
    (clockwork tools).due? e = some due := by
  simp [clockwork, h, earliest?]

theorem step_compileTimer (h : e.dues = [⟨due, .compileTimer sid⟩]) :
    e.step tools = fire tools { e with now := due } sid .compileTimer := by
  rw [step, h]
  rfl

theorem step_verifyTimer (h : e.dues = [⟨due, .verifyTimer sid⟩]) :
    e.step tools = fire tools { e with now := due } sid .verifyTimer := by
  rw [step, h]
  rfl

theorem step_call {call : Timer Call} (h : e.dues = [⟨due, .call 0⟩]) (hcalls : e.calls = [call]) :
    e.step tools = land { e with now := due, calls := [] } call.job := by
  rw [step, h]
  simp [earliest?, hcalls]

/-- The quiet time after the edit is over. -/
theorem Alone.fire_compileTimer (h : Alone settings sid e ⟨s, []⟩ calls)
    (hcompile : s.compileTimer.waiting = some ⟨due, s.generation⟩) :
    fire tools e sid .compileTimer =
      (e.put sid ⟨{ s with compileTimer := s.compileTimer.fire.1, phase := .compilingDialect },
        [.compiling s.generation s.text]⟩).serve tools sid (.compile s.generation s.text) := by
  refine fire_eq ?_
  rw [h.desk_eq]
  exact operate_compileTimer waiting_nil hcompile rfl

/-- The quiet time after the compilation is over. -/
theorem Alone.fire_verifyTimer (h : Alone settings sid e ⟨s, []⟩ calls)
    (hverify : s.verifyTimer.waiting = some ⟨due, job⟩) (hjob : s.generation = job.generation) :
    fire tools e sid .verifyTimer =
      (e.put sid ⟨{ s with verifyTimer := s.verifyTimer.fire.1 }, [.verifying job]⟩).serve tools sid
        (.verify job) := by
  refine fire_eq ?_
  rw [h.desk_eq]
  exact operate_verifyTimer waiting_nil hverify hjob

/-- **A step shows the next part of what is to be seen**, and leads to a later stage. -/
theorem EditStage.step (h : EditStage tools settings sid horizon e ahead)
    (hroom : horizon + settings.cacheTtlMs < timeBound) (hdue : (clockwork tools).due? e = some due) :
    due ≤ horizon ∧
      Leads tools settings sid horizon due ahead ((clockwork tools).remaining e) (e.step tools) := by
  cases h with
  | @armed s time halone hcompile hverify hdelay hcompiled hverified htime =>
    have hdues := halone.dues_compile hcompile hverify
    obtain rfl : time = due := Option.some.inj ((due?_of_dues hdues).symm.trans hdue)
    refine ⟨by omega, ?_⟩
    rw [step_compileTimer hdues, (halone.at time).fire_compileTimer hcompile]
    have hcall := leads_compile time rfl ((halone.at time).put
      ⟨{ s with compileTimer := s.compileTimer.fire.1, phase := .compilingDialect },
        [.compiling s.generation s.text]⟩) rfl hverify hdelay hcompiled hverified hroom htime
    refine ⟨hcall.stage, Nat.lt_of_lt_of_le hcall.less ?_⟩
    rw [halone.remaining]
    simp [deskSteps, hcompile]
  | @compiling s time text halone hcompile hverify hdelay hcompiled hverified htime =>
    have hdues : e.dues = [⟨time, .call 0⟩] := halone.dues_calls hcompile hverify
    obtain rfl : time = due := Option.some.inj ((due?_of_dues hdues).symm.trans hdue)
    refine ⟨by omega, ?_⟩
    rw [step_call hdues halone.calls_eq, halone.remaining]
    have hland := leads_landCompile (e := { e with now := time, calls := [] })
      ⟨halone.settings_eq, halone.desks_eq, rfl⟩ hcompile hverify hdelay hcompiled hverified hroom
      htime
    exact ⟨hland.stage, Nat.lt_of_lt_of_le hland.less (Nat.le_add_left _ _)⟩
  | @settling s time job halone hjob hcompile hverify hverified htime =>
    have hdues := halone.dues_verify hcompile hverify
    obtain rfl : time = due := Option.some.inj ((due?_of_dues hdues).symm.trans hdue)
    refine ⟨by omega, ?_⟩
    rw [step_verifyTimer hdues, (halone.at time).fire_verifyTimer hverify hjob]
    have hcall := leads_verify time rfl ((halone.at time).put
      ⟨{ s with verifyTimer := s.verifyTimer.fire.1 }, [.verifying job]⟩) hjob hcompile rfl hverified
      hroom htime
    refine ⟨hcall.stage, Nat.lt_of_lt_of_le hcall.less ?_⟩
    rw [halone.remaining]
    simp [deskSteps, hverify]
  | @verifying s time job halone hjob hcompile hverify hverified htime =>
    have hdues : e.dues = [⟨time, .call 0⟩] := halone.dues_calls hcompile hverify
    obtain rfl : time = due := Option.some.inj ((due?_of_dues hdues).symm.trans hdue)
    refine ⟨htime, ?_⟩
    rw [step_call hdues halone.calls_eq, halone.remaining]
    have hland := leads_landVerify tools
      (e := { e with now := time, calls := [] }) ⟨halone.settings_eq, halone.desks_eq, rfl⟩ hjob
      hcompile hverify hverified hroom htime
    exact ⟨hland.stage, Nat.lt_of_lt_of_le hland.less (Nat.le_add_left _ _)⟩
  | rest halone hcompile hverify =>
    have hdues : e.dues = [] := halone.dues_calls hcompile hverify
    simp [clockwork, hdues, earliest?] at hdue

/-! ## Until the engine has settled -/

theorem le_of_mem_foundCourse {time : Nat} {t : Translation} {seen : Nat × Event}
    (h : seen ∈ foundCourse tools sid time t) : time ≤ seen.1 := by
  unfold foundCourse at h
  split at h
  · cases h
  · exact Nat.le_of_eq (congrArg Prod.fst (List.mem_singleton.mp h)).symm

theorem le_of_mem_verifyCourse {time : Nat} {t : Translation} {seen : Nat × Event}
    (h : seen ∈ verifyCourse tools sid time t) : time ≤ seen.1 := by
  rcases List.mem_cons.mp h with rfl | h
  · exact Nat.le_refl _
  · exact Nat.le_trans (Nat.le_add_right _ _) (le_of_mem_foundCourse h)

theorem le_of_mem_gateCourse {time : Nat} {seen : Nat × Event}
    (h : seen ∈ gateCourse tools settings sid time text) : time ≤ seen.1 := by
  rcases List.mem_cons.mp h with rfl | h
  · exact Nat.le_refl _
  · obtain ⟨t, -, h⟩ := List.mem_flatMap.mp h
    exact Nat.le_trans (Nat.le_add_right _ _) (le_of_mem_verifyCourse h)

theorem le_of_mem_compileCourse {time : Nat} {seen : Nat × Event}
    (h : seen ∈ compileCourse tools settings sid time text) : time ≤ seen.1 := by
  rcases List.mem_cons.mp h with rfl | h
  · exact Nat.le_refl _
  · exact Nat.le_trans (Nat.le_add_right _ _) (le_of_mem_gateCourse h)

/-- Nothing is to be seen before the next step. -/
theorem EditStage.wait (h : EditStage tools settings sid horizon e ahead) {seen : Nat × Event}
    (hseen : seen ∈ ahead) : ∃ due, (clockwork tools).due? e = some due ∧ due ≤ seen.1 := by
  cases h with
  | armed halone hcompile hverify _ _ _ _ =>
    exact ⟨_, due?_of_dues (halone.dues_compile hcompile hverify), le_of_mem_compileCourse hseen⟩
  | compiling halone hcompile hverify _ _ _ _ =>
    exact ⟨_, due?_of_dues (halone.dues_calls hcompile hverify), le_of_mem_gateCourse hseen⟩
  | settling halone _ hcompile hverify _ _ =>
    exact ⟨_, due?_of_dues (halone.dues_verify hcompile hverify), le_of_mem_verifyCourse hseen⟩
  | verifying halone _ hcompile hverify _ _ =>
    exact ⟨_, due?_of_dues (halone.dues_calls hcompile hverify), le_of_mem_foundCourse hseen⟩
  | rest _ _ _ => cases hseen

theorem stage_foretells (limit : Nat) (hroom : horizon + settings.cacheTtlMs < timeBound) :
    (clockwork tools).Foretells limit (fun _ => true) (EditStage tools settings sid horizon) where
  wait h _ hseen := h.wait hseen
  step h hdue _ := by
    obtain ⟨later, hlater, hseen⟩ := (h.step hroom hdue).2.stage
    exact ⟨later, hlater, by rw [List.filter_true]; exact hseen⟩
  ends h hdue _ := (h.step hroom hdue).2.less

theorem stage_start (tools : Toolchain) (settings : Settings) (sid : SessionId) (text : String) :
    EditStage tools settings sid (settleTime tools settings text) ((start settings).edit sid text)
      (compileCourse tools settings sid settings.compileDebounceMs text) := by
  let s : DocumentSession := ((Desk.fresh settings.compileDebounceMs settings.verifyDebounceMs).edit
    0 text).session
  have halone : Alone settings sid ((start settings).edit sid text) ⟨s, []⟩ [] := ⟨rfl, rfl, rfl⟩
  have hcompile : s.compileTimer.waiting = some ⟨settings.compileDebounceMs, s.generation⟩ := by
    simp [s, Desk.edit, Desk.fresh, Session.scheduleCompile, Session.edit, Session.fresh,
      Debouncer.schedule, Debouncer.idle]
  exact .armed halone hcompile rfl rfl (Guarded.blank_empty ..) (Guarded.blank_empty ..)
    (Nat.le_refl _)

/-- Only the steps depend on the time. -/
theorem EditStage.at (h : EditStage tools settings sid horizon e ahead) (now : Nat) :
    EditStage tools settings sid horizon { e with now } ahead := by
  cases h with
  | armed halone hcompile hverify hdelay hcompiled hverified htime =>
    exact .armed (halone.at now) hcompile hverify hdelay hcompiled hverified htime
  | compiling halone hcompile hverify hdelay hcompiled hverified htime =>
    exact .compiling (halone.at now) hcompile hverify hdelay hcompiled hverified htime
  | settling halone hjob hcompile hverify hverified htime =>
    exact .settling (halone.at now) hjob hcompile hverify hverified htime
  | verifying halone hjob hcompile hverify hverified htime =>
    exact .verifying (halone.at now) hjob hcompile hverify hverified htime
  | rest halone hcompile hverify => exact .rest (halone.at now) hcompile hverify

/-- What is seen of an edit in some time, and what is left to be seen then. -/
theorem stage_advance (sid : SessionId) (ms : Nat)
    (hroom : settleTime tools settings text + settings.cacheTtlMs < timeBound) :
    let after := ((start settings).edit sid text).advance tools ms
    let course := compileCourse tools settings sid settings.compileDebounceMs text
    EditStage tools settings sid (settleTime tools settings text) after.1
        (course.filter fun seen => ms < seen.1) ∧
      after.2 = (course.filter fun seen => seen.1 ≤ ms).map (·.2) ∧
      ∀ due, (clockwork tools).due? after.1 = some due → ms < due := by
  let e := (start settings).edit sid text
  have hnow : e.now + ms = ms := Nat.zero_add ms
  have hstamped := (clockwork tools).run_stamped ms ((clockwork tools).remaining e) e
  obtain ⟨hseen, hstage, hdue⟩ :=
    (stage_foretells ms hroom).run (stage_start tools settings sid text) (Nat.le_refl _)
  rw [List.filter_true] at hseen
  rw [hstamped.1] at hstage hdue
  have hadvance : e.advance tools ms =
      ({ ((clockwork tools).runTo ms e).1 with now := ms }, ((clockwork tools).runTo ms e).2) := by
    rw [advance, hnow]
  intro after course
  have hafter : after = _ := hadvance
  rw [hafter]
  refine ⟨hstage.at ms, ?_, hdue⟩
  rw [← hseen]
  exact hstamped.2.symm

/-- **All that is seen of an engine that has settled.** -/
theorem course_of_settled {ms : Nat}
    (hroom : settleTime tools settings text + settings.cacheTtlMs < timeBound)
    (h : (((start settings).edit sid text).advance tools ms).1.dues = []) :
    (((start settings).edit sid text).advance tools ms).2 =
      (compileCourse tools settings sid settings.compileDebounceMs text).map (·.2) := by
  obtain ⟨hstage, hseen, -⟩ := stage_advance sid ms hroom
  rw [hseen]
  -- with nothing due, nothing is left to be seen
  have hnone : ∀ seen ∈ compileCourse tools settings sid settings.compileDebounceMs text,
      seen.1 ≤ ms := by
    intro seen hmem
    refine Nat.le_of_not_lt fun hlate => ?_
    obtain ⟨due, hdue, -⟩ := hstage.wait (List.mem_filter.mpr ⟨hmem, decide_eq_true hlate⟩)
    simp [clockwork, h, earliest?] at hdue
  rw [List.filter_eq_self.mpr fun seen hmem => decide_eq_true (hnone seen hmem)]

/-- **The engine settles** with the last answer at the latest. -/
theorem settled_of_le {ms : Nat}
    (hroom : settleTime tools settings text + settings.cacheTtlMs < timeBound)
    (h : settleTime tools settings text ≤ ms) :
    (((start settings).edit sid text).advance tools ms).1.dues = [] := by
  obtain ⟨hstage, -, hlate⟩ := stage_advance sid ms hroom
  refine earliest?_eq_none.mp (Option.eq_none_iff_forall_ne_some.mpr fun next hnext => ?_)
  have hdue : (clockwork tools).due? (((start settings).edit sid text).advance tools ms).1 =
      some next.due := by
    simp only [clockwork, hnext, Option.map_some]
  have htime := (hstage.step hroom hdue).1
  have := hlate _ hdue
  omega

end Engine

end DialectBridge
