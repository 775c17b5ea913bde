import DialectBridge.Engine.Basic
import DialectBridge.Proofs.Timing.Guarded

/-!
# What the engine keeps while time passes

Timers fire and calls come back while an answer is awaited.  None of this touches the virtual
documents, and every outcome that enters the cache has a source map of the size of its host text,
because the compiler's answers have.

* `Fitted` — the maps in the cache and in the calls under way have the size of their host texts;
* `Kept` — what goes on by itself leaves the documents alone and the maps fitting;
* `kept_step`, `kept_run` — one step of the clock, and all of them;
* `kept_compile` — asking for a compilation;
* `Programs.toolchain_fitted` — the compiler's answers fit, whatever programs there are.
-/

namespace DialectBridge

/-- The map of a compiled text has a line for each line of the host text. -/
def Compiler.Outcome.Fitted : Compiler.Outcome → Prop
  | .compiled host map => map.lines.length = Text.lineCount host.toList
  | .rejected _ => True

/-- If an answer is an outcome, its map fits. -/
def Compiler.Fits (answer : Compiler.Answer) : Prop :=
  ∀ outcome, answer = .ok outcome → outcome.Fitted

def Toolchain.Fitted (tools : Toolchain) : Prop :=
  ∀ text, Compiler.Fits (tools.compile text).value

namespace Engine

open Compiler Pipeline

def Call.Fitted : Call → Prop
  | .compile _ _ _ answer => Fits answer
  | .verify _ _ _ => True

/-- All maps fit: those in the cache, and those on their way to it. -/
structure Fitted (e : Engine) : Prop where
  compiled : ∀ entry ∈ e.compiled.store.entries, entry.value.Fitted
  calls : ∀ call ∈ e.calls, call.job.Fitted

/-- What goes on by itself leaves the documents alone and the maps fitting. -/
structure Kept (e e' : Engine) : Prop where
  documents : e'.documents = e.documents
  fitted : e'.Fitted

variable {tools : Toolchain} {e e' e'' : Engine} {text : String} {answer : Answer}

theorem Kept.refl (he : e.Fitted) : Kept e e := ⟨rfl, he⟩

theorem Kept.trans (h : Kept e e') (h' : Kept e' e'') : Kept e e'' :=
  ⟨h'.documents.trans h.documents, h'.fitted⟩

/-! ## Caches and desks -/

theorem kept_operate (he : e.Fitted) (sid : SessionId) (operation : Operation) :
    Kept e (e.operate sid operation).1 :=
  ⟨rfl, he.compiled, he.calls⟩

theorem kept_get (he : e.Fitted) (text : String) :
    Kept e { e with compiled := (e.compiled.get e.now text).2 } :=
  ⟨rfl, fun entry hmem => he.compiled entry (Guarded.mem_of_mem_get hmem), he.calls⟩

theorem fits_get (he : e.Fitted) {outcome : Outcome}
    (hget : (e.compiled.get e.now text).1 = .hit outcome) : outcome.Fitted := by
  obtain ⟨entry, hmem, -, rfl⟩ := Guarded.exists_mem_of_get hget
  exact he.compiled entry hmem

theorem kept_keepCompiled (he : e.Fitted) (text : String) (hfits : Fits answer) :
    Kept e (e.keepCompiled text answer).1 := by
  cases answer with
  | error fault => exact .refl he
  | ok outcome =>
    refine ⟨rfl, fun entry hmem => ?_, he.calls⟩
    obtain hold | rfl := Guarded.mem_of_mem_put hmem
    · exact he.compiled entry hold
    · exact hfits outcome rfl

theorem fits_keepCompiled (he : e.Fitted) (text : String) (hfits : Fits answer) {kept : Answer}
    (hkept : (e.keepCompiled text answer).2 = some kept) : Fits kept := by
  cases answer with
  | error fault =>
    obtain rfl := Option.some.inj hkept
    exact hfits
  | ok outcome =>
    obtain ⟨value, hput, rfl⟩ := Option.map_eq_some_iff.mp hkept
    rintro _ ⟨⟩
    obtain rfl | ⟨entry, hmem, -, rfl⟩ := Guarded.put_fst_cases hput
    · exact hfits value rfl
    · exact he.compiled entry hmem

theorem kept_keepVerified (he : e.Fitted) (host : String) (answer : Verifier.Answer) :
    Kept e (e.keepVerified host answer).1 := by
  cases answer with
  | error failure => exact .refl he
  | ok found => exact ⟨rfl, he.compiled, he.calls⟩

/-! ## Calls -/

theorem kept_settleCompile (he : e.Fitted) (sid : SessionId) (generation : Nat) (answer : Answer) :
    Kept e (e.settleCompile sid generation answer).1 :=
  kept_operate he sid (.compileReturn generation answer)

theorem kept_settleVerify (he : e.Fitted) (sid : SessionId) (generation : Nat)
    (answer : Verifier.Answer) : Kept e (e.settleVerify sid generation answer).1 :=
  kept_operate he sid (.verifyReturn generation answer)

theorem kept_landCompile (he : e.Fitted) (sid : SessionId) (generation : Nat) (text : String)
    (hfits : Fits answer) : Kept e (e.landCompile sid generation text answer).1 := by
  have hkept := kept_keepCompiled he text hfits
  rcases hkeep : e.keepCompiled text answer with ⟨e', _ | kept⟩ <;> rw [hkeep] at hkept <;>
    simp only [landCompile, hkeep]
  · exact hkept
  · exact hkept.trans (kept_settleCompile hkept.fitted sid generation kept)

theorem kept_landVerify (he : e.Fitted) (sid : SessionId) (job : VerifyJob)
    (answer : Verifier.Answer) : Kept e (e.landVerify sid job answer).1 := by
  have hkept := kept_keepVerified he job.host answer
  rcases hkeep : e.keepVerified job.host answer with ⟨e', _ | kept⟩ <;> rw [hkeep] at hkept <;>
    simp only [landVerify, hkeep]
  · exact hkept
  · exact hkept.trans (kept_settleVerify hkept.fitted sid job.generation kept)

/-- A call that comes back. -/
theorem kept_land (he : e.Fitted) (call : Call) (hcall : call.Fitted) : Kept e (e.land call).1 := by
  cases call with
  | compile sid generation text answer => exact kept_landCompile he sid generation text hcall
  | verify sid job answer => exact kept_landVerify he sid job answer

theorem kept_dispatch (he : e.Fitted) (delay : Nat) (call : Call) (hcall : call.Fitted) :
    Kept e (e.dispatch delay call).1 := by
  unfold dispatch
  split
  · exact kept_land he call hcall
  · refine ⟨rfl, he.compiled, fun other hother => ?_⟩
    obtain hother | hother := List.mem_append.mp hother
    · exact he.calls other hother
    · rw [List.mem_singleton.mp hother]
      exact hcall

/-- What a desk asks for is found in a cache, or becomes a call. -/
theorem kept_serve (htools : tools.Fitted) (he : e.Fitted) (sid : SessionId) (output : Output) :
    Kept e (e.serve tools sid output).1 := by
  cases output with
  | tell generation what => exact .refl he
  | compile generation text =>
    have hget := kept_get he text
    rcases hfound : e.compiled.get e.now text with ⟨outcome | _ | _, compiled⟩ <;>
      rw [hfound] at hget <;> simp only [serve, hfound]
    · exact hget.trans (kept_settleCompile hget.fitted sid generation _)
    · exact hget.trans (kept_dispatch hget.fitted _ (.compile sid generation text _) (htools text))
    · exact hget
  | verify job =>
    rcases hfound : e.verified.get e.now job.host with ⟨found | _ | _, verified⟩ <;>
      simp only [serve, hfound]
    · exact ⟨rfl, he.compiled, he.calls⟩
    · have hget : Kept e { e with verified } := ⟨rfl, he.compiled, he.calls⟩
      exact hget.trans (kept_dispatch hget.fitted _ (.verify sid job _) trivial)
    · exact ⟨rfl, he.compiled, he.calls⟩

theorem kept_serveAll (htools : tools.Fitted) (he : e.Fitted) (sid : SessionId)
    (outputs : List Output) : Kept e (e.serveAll tools sid outputs).1 := by
  induction outputs generalizing e with
  | nil => exact .refl he
  | cons output rest ih =>
    have hserve := kept_serve htools he sid output
    exact hserve.trans (ih hserve.fitted)

/-! ## The clock -/

/-- One thing that is due. -/
theorem kept_step (htools : tools.Fitted) (he : e.Fitted) : Kept e (e.step tools).1 := by
  unfold step
  cases earliest? e.dues with
  | none => exact .refl he
  | some next =>
    obtain ⟨due, job⟩ := next
    have hnow : Kept e { e with now := due } := ⟨rfl, he.compiled, he.calls⟩
    cases job with
    | compileTimer sid =>
      have hoperate := hnow.trans (kept_operate hnow.fitted sid .compileTimer)
      exact hoperate.trans (kept_serveAll htools hoperate.fitted sid _)
    | verifyTimer sid =>
      have hoperate := hnow.trans (kept_operate hnow.fitted sid .verifyTimer)
      exact hoperate.trans (kept_serveAll htools hoperate.fitted sid _)
    | call index =>
      simp only []
      cases hcall : e.calls[index]? with
      | none => exact hnow
      | some call =>
        have herase : Kept e { e with now := due, calls := e.calls.eraseIdx index } :=
          ⟨rfl, he.compiled, fun other hother => he.calls other (List.mem_of_mem_eraseIdx hother)⟩
        exact herase.trans (kept_land herase.fitted _ (he.calls call (List.mem_of_getElem? hcall)))

/-- **All that is due**, however much there is. -/
theorem kept_run (htools : tools.Fitted) (he : e.Fitted) (limit fuel : Nat) :
    Kept e ((clockwork tools).run limit fuel e).1 := by
  induction fuel generalizing e with
  | zero => exact .refl he
  | succ fuel ih =>
    -- the clock stops where nothing is due any more, or nothing in time
    unfold Clockwork.run
    split
    · exact .refl he
    · split
      · have hstep := kept_step htools he
        exact hstep.trans (ih hstep.fitted)
      · exact .refl he

theorem kept_advance (htools : tools.Fitted) (he : e.Fitted) (ms : Nat) :
    Kept e (e.advance tools ms).1 := by
  have hrun := kept_run htools he (e.now + ms) ((clockwork tools).remaining e)
  exact ⟨hrun.documents, hrun.fitted.compiled, hrun.fitted.calls⟩

theorem kept_await (htools : tools.Fitted) (he : e.Fitted) (ms : Nat) :
    Kept e (e.await tools ms).1 := by
  unfold await
  split
  · exact .refl he
  · exact kept_advance htools he ms

/-! ## A compilation -/

theorem kept_compile (htools : tools.Fitted) (he : e.Fitted) (text : String) :
    Kept e (e.compile tools text).1 ∧
      ∀ answer, (e.compile tools text).2.2 = some answer → Fits answer := by
  have hget := kept_get he text
  rcases hfound : e.compiled.get e.now text with ⟨outcome | _ | _, compiled⟩ <;>
    rw [hfound] at hget <;> simp only [compile, hfound]
  · refine ⟨hget, ?_⟩
    rintro _ ⟨⟩ _ ⟨⟩
    exact fits_get he (congrArg Prod.fst hfound)
  · have hawait := hget.trans (kept_await htools hget.fitted (tools.compile text).delay)
    exact ⟨hawait.trans (kept_keepCompiled hawait.fitted text (htools text)),
      fun _ hkept => fits_keepCompiled hawait.fitted text (htools text) hkept⟩
  · exact ⟨hget, fun _ hnone => (by cases hnone)⟩

theorem start_fitted (settings : Settings) : (start settings).Fitted := ⟨nofun, nofun⟩

end Engine

/-! ## The compiler's answers -/

namespace Compiler

theorem fits_error (fault : Fault) : Fits (.error fault) := nofun

/-- The map of a compiled text is cut or filled up to fit. -/
theorem fits_readOutput (stdout : List UInt8) : Fits (readOutput stdout) := by
  unfold readOutput
  split
  · exact fits_error _
  · rename_i text _
    cases InlineMap.split text with
    | error fault => exact fits_error fault
    | ok parts =>
      obtain ⟨host, json⟩ := parts
      cases hmap : SourceMap.ofDocument json with
      | error e =>
        simp only [bind, Except.bind, hmap]
        exact fits_error _
      | ok map =>
        simp only [bind, Except.bind, hmap]
        rintro _ ⟨⟩
        exact SourceMap.length_lines_fit _ _

theorem fits_readFailure (status : ExitStatus) (stderr : List UInt8) :
    Fits (readFailure status stderr) := by
  cases hreport : SyntaxReport.diagnostic? (Text.Utf8.decodeLossy stderr) with
  | none =>
    simp only [readFailure, hreport]
    exact fits_error _
  | some diagnostic =>
    simp only [readFailure, hreport]
    rintro _ ⟨⟩
    trivial

theorem fits_answer (program : String) (run : Except OsError Run) : Fits (answer program run) := by
  cases run with
  | error cause => exact fits_error _
  | ok run =>
    show Fits (judge run)
    unfold judge
    split
    · split
      · exact fits_error _
      · exact fits_readOutput _
    · exact fits_readFailure _ _

end Compiler

/-- **The compiler's answers fit**, whatever programs there are. -/
theorem Programs.toolchain_fitted (p : Programs) (settings : Settings) :
    (p.toolchain settings).Fitted := by
  intro text
  show Compiler.Fits (p.compile settings.compiler text).value
  cases hrun : p.compiler settings.compiler text with
  | error cause =>
    simp only [Programs.compile, hrun]
    exact Compiler.fits_answer settings.compiler.program (.error cause)
  | ok run =>
    simp only [Programs.compile, hrun]
    exact Compiler.fits_answer settings.compiler.program (.ok run.value)

end DialectBridge
