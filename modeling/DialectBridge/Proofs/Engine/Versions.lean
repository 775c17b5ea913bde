import DialectBridge.Engine.Forward
import DialectBridge.Proofs.Engine.Desks
import DialectBridge.Proofs.Pipeline.Work

/-!
# The text and the generation of a document

Timers fire, calls come back and requests are forwarded, all of which work on the sessions of the
documents.  What a document says and how often it was changed stays as it is in all this: only an edit
gives it a text, and only an edit or its closing makes another generation of it.

* `Desk.version_operate` — an operation on one desk;
* `version_step`, `version_run` — one step of the clock, and all of them;
* `version_complete`, `version_definition`, `version_hover` — requests that are forwarded;
* `version_edit`, `version_close` — the two that do make a difference, to one document.
-/

namespace DialectBridge

namespace Pipeline

/-- The step comes from the editor. -/
def Action.isInput : Action → Bool
  | .edit _ => true
  | .close => true
  | _ => false

/-- The text of a document, and its generation. -/
def Desk.version (d : Desk) : String × Nat :=
  (d.session.text, d.session.generation)

variable {d : Desk} {verify : Bool} {now : Nat}

theorem Desk.version_resume (d : Desk) (g : Nat) (step : Step) :
    (d.resume verify now g step).1.version = d.version := by
  cases hresume : d.resume? verify now g step with
  | none => rw [resume_none hresume]
  | some found =>
    obtain ⟨progress, rest⟩ := found
    obtain ⟨_, run, _, -, -, -, htake⟩ := resume?_eq_some hresume
    have htakes := takes_of_take? htake
    rw [resume_some hresume]
    exact Prod.ext htakes.session_text htakes.session_generation

theorem Desk.version_act {action : Action} (h : action.isInput = false) :
    (d.act verify now action).1.version = d.version := by
  cases action with
  | edit text => cases h
  | close => cases h
  | compileTimer => rfl
  | verifyTimer => rfl
  | run generation step => exact d.version_resume generation step

theorem Desk.version_perform {actions : List Action} (h : ∀ a ∈ actions, a.isInput = false) :
    (d.perform verify now actions).1.version = d.version := by
  induction actions generalizing d with
  | nil => rfl
  | cons action rest ih =>
    have hrest := @ih (d.act verify now action).1 fun a ha => h a (List.mem_cons_of_mem _ ha)
    exact hrest.trans (version_act (h action List.mem_cons_self))

/-- The operation comes from the editor. -/
def Operation.isInput : Operation → Bool
  | .edit _ => true
  | .close => true
  | _ => false

/-- **What goes on by itself** leaves the text and the generation alone. -/
theorem Desk.version_operate {operation : Operation} (h : operation.isInput = false) :
    (d.operate verify now operation).1.version = d.version := by
  refine version_perform ?_
  cases operation with
  | edit text => cases h
  | close => cases h
  | compileTimer =>
    simp only [Operation.actions]
    cases d.session.compileTimer.waiting <;> simp [Action.isInput]
  | verifyTimer =>
    simp only [Operation.actions]
    cases d.session.verifyTimer.waiting <;> simp [Action.isInput]
  | compileReturn generation answer => simp [Operation.actions, Action.isInput]
  | verifyReturn generation answer => simp [Operation.actions, Action.isInput]

end Pipeline

namespace Engine

open Pipeline

/-- The text of a document, and its generation. -/
def version (e : Engine) (sid : SessionId) : String × Nat :=
  (e.desk sid).version

variable {tools : Toolchain} {e : Engine}

/-! ## Operations and answers -/

theorem version_put (e : Engine) (sid : SessionId) (d : Desk) (other : SessionId) :
    (e.put sid d).version other = if other = sid then d.version else e.version other := by
  unfold version
  split
  · rename_i heq
    rw [heq, desk_put]
  · rename_i hne
    rw [desk_put_of_ne hne]

theorem version_operate (e : Engine) (sid : SessionId) (operation : Operation)
    (h : operation.isInput = false) : (e.operate sid operation).1.version = e.version := by
  have hput : e.operate sid operation = (e.put sid _, _) := operate_eq rfl
  funext other
  rw [hput, version_put]
  split
  · rename_i heq
    rw [heq]
    exact Desk.version_operate h
  · rfl

theorem version_settleCompile (e : Engine) (sid : SessionId) (generation : Nat)
    (answer : Compiler.Answer) : (e.settleCompile sid generation answer).1.version = e.version :=
  version_operate e sid (.compileReturn generation answer) rfl

theorem version_settleVerify (e : Engine) (sid : SessionId) (generation : Nat)
    (answer : Verifier.Answer) : (e.settleVerify sid generation answer).1.version = e.version :=
  version_operate e sid (.verifyReturn generation answer) rfl

theorem version_keepCompiled (e : Engine) (text : String) (answer : Compiler.Answer) :
    (e.keepCompiled text answer).1.version = e.version := by
  cases answer <;> rfl

theorem version_keepVerified (e : Engine) (host : String) (answer : Verifier.Answer) :
    (e.keepVerified host answer).1.version = e.version := by
  cases answer <;> rfl

theorem version_landCompile (e : Engine) (sid : SessionId) (generation : Nat) (text : String)
    (answer : Compiler.Answer) :
    (e.landCompile sid generation text answer).1.version = e.version := by
  have hkept := version_keepCompiled e text answer
  rcases hkeep : e.keepCompiled text answer with ⟨e', _ | kept⟩ <;> rw [hkeep] at hkept <;>
    simp only [landCompile, hkeep]
  · exact hkept
  · exact (version_settleCompile e' sid generation kept).trans hkept

theorem version_landVerify (e : Engine) (sid : SessionId) (job : VerifyJob)
    (answer : Verifier.Answer) : (e.landVerify sid job answer).1.version = e.version := by
  have hkept := version_keepVerified e job.host answer
  rcases hkeep : e.keepVerified job.host answer with ⟨e', _ | kept⟩ <;> rw [hkeep] at hkept <;>
    simp only [landVerify, hkeep]
  · exact hkept
  · exact (version_settleVerify e' sid job.generation kept).trans hkept

theorem version_land (e : Engine) (call : Call) : (e.land call).1.version = e.version := by
  cases call with
  | compile sid generation text answer => exact version_landCompile e sid generation text answer
  | verify sid job answer => exact version_landVerify e sid job answer

theorem version_dispatch (e : Engine) (delay : Nat) (call : Call) :
    (e.dispatch delay call).1.version = e.version := by
  unfold dispatch
  split
  · exact version_land e call
  · rfl

theorem version_serve (e : Engine) (sid : SessionId) (output : Output) :
    (e.serve tools sid output).1.version = e.version := by
  cases output with
  | tell generation what => rfl
  | compile generation text =>
    rcases hfound : e.compiled.get e.now text with ⟨outcome | _ | _, compiled⟩ <;>
      simp only [serve, hfound]
    · exact version_settleCompile { e with compiled } _ _ _
    · exact version_dispatch { e with compiled } _ _
    · rfl
  | verify job =>
    rcases hfound : e.verified.get e.now job.host with ⟨found | _ | _, verified⟩ <;>
      simp only [serve, hfound]
    · exact version_settleVerify { e with verified } _ _ _
    · exact version_dispatch { e with verified } _ _
    · rfl

theorem version_serveAll (e : Engine) (sid : SessionId) (outputs : List Output) :
    (e.serveAll tools sid outputs).1.version = e.version := by
  induction outputs generalizing e with
  | nil => rfl
  | cons output rest ih => exact (ih _).trans (version_serve e sid output)

/-! ## The clock -/

theorem version_step (tools : Toolchain) (e : Engine) : (e.step tools).1.version = e.version := by
  unfold step
  cases earliest? e.dues with
  | none => rfl
  | some next =>
    obtain ⟨due, job⟩ := next
    cases job with
    | compileTimer sid =>
      exact (version_serveAll ..).trans (version_operate { e with now := due } sid .compileTimer rfl)
    | verifyTimer sid =>
      exact (version_serveAll ..).trans (version_operate { e with now := due } sid .verifyTimer rfl)
    | call index =>
      simp only []
      cases e.calls[index]? with
      | none => rfl
      | some call => exact version_land _ _

theorem version_run (tools : Toolchain) (limit fuel : Nat) (e : Engine) :
    ((clockwork tools).run limit fuel e).1.version = e.version := by
  induction fuel generalizing e with
  | zero => rfl
  | succ fuel ih =>
    unfold Clockwork.run
    split
    · rfl
    · split
      · exact (ih _).trans (version_step tools e)
      · rfl

theorem version_advance (tools : Toolchain) (e : Engine) (ms : Nat) :
    (e.advance tools ms).1.version = e.version :=
  version_run tools (e.now + ms) ((clockwork tools).remaining e) e

theorem version_await (tools : Toolchain) (e : Engine) (ms : Nat) :
    (e.await tools ms).1.version = e.version := by
  unfold await
  split
  · rfl
  · exact version_advance tools e ms

/-! ## Requests -/

theorem version_compile (tools : Toolchain) (e : Engine) (text : String) :
    (e.compile tools text).1.version = e.version := by
  rcases hfound : e.compiled.get e.now text with ⟨outcome | _ | _, compiled⟩ <;>
    simp only [compile, hfound]
  · rfl
  · exact (version_keepCompiled ..).trans (version_await tools { e with compiled } _)
  · rfl

theorem version_prepareCompletion (tools : Toolchain) (e : Engine) (uri : Uri) (text : String)
    (cursor : Position) (trigger : Option String) :
    (e.prepareCompletion tools uri text cursor trigger).1.version = e.version := by
  unfold prepareCompletion
  cases Probe.at? text.toList cursor with
  | none => rfl
  | some probe =>
    have hcompile := version_compile tools e probe.text
    rcases heq : e.compile tools probe.text with ⟨e', seen, _ | fault | outcome⟩ <;>
      rw [heq] at hcompile <;> simp only [heq]
    · exact hcompile
    · exact hcompile
    · cases probe.locate outcome <;> exact hcompile

variable {σ : Type}

theorem version_complete (tools : Toolchain) (host : HostService σ) (e : Engine) (h : σ) (uri : Uri)
    (text : String) (cursor : Position) (trigger : Option String) :
    (e.complete tools host h uri text cursor trigger).1.1.version = e.version := by
  have hprepare := version_prepareCompletion tools e uri text cursor trigger
  unfold complete
  rcases heq : e.prepareCompletion tools uri text cursor trigger with
    ⟨e', seen, _ | fault | _ | request⟩ <;> rw [heq] at hprepare
  · exact hprepare
  · exact hprepare
  · exact hprepare
  · exact (version_await ..).trans hprepare

theorem version_definition (tools : Toolchain) (host : HostService σ) (e : Engine) (h : σ)
    (request : PositionRequest) :
    (e.definition tools host h request).1.1.version = e.version :=
  version_await ..

theorem version_hover (tools : Toolchain) (host : HostService σ) (e : Engine) (h : σ)
    (request : PositionRequest) :
    (e.hover tools host h request).1.1.version = e.version :=
  version_await ..

/-! ## What the editor does -/

/-- An edit gives one document its text and its next generation. -/
theorem version_edit (e : Engine) (sid : SessionId) (text : String) (other : SessionId) :
    (e.edit sid text).version other =
      if other = sid then (text, (e.version sid).2 + 1) else e.version other := by
  have hput : e.edit sid text = e.put sid _ := congrArg Prod.fst (operate_eq rfl)
  rw [hput, version_put]
  rfl

/-- Closing a document leaves its text, and makes another generation of it. -/
theorem version_close (e : Engine) (sid other : SessionId) :
    (e.close sid).version other =
      if other = sid then ((e.version sid).1, (e.version sid).2 + 1) else e.version other := by
  have hput : e.close sid = e.put sid _ := congrArg Prod.fst (operate_eq rfl)
  rw [hput, version_put]
  rfl

end Engine

end DialectBridge
