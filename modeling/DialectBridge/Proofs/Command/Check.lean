import DialectBridge.Command.Run
import DialectBridge.Proofs.Engine.Single

/-!
# Checking a file and serving it

A file can be checked on the command line, or opened in an editor that the engine serves.  Both ask
the same programs the same questions, the one in a row, the other with quiet times, caches and gates
between them, and with diagnostics that are cleared before others are published.  In the end the
editor shows what the check reports.

* `inForce?` — the diagnostics that an editor shows after some events;
* `diagnose_calls`, `diagnose_ok`, `diagnose_fault` — a diagnosis, read off the course of an edit;
* `check_agrees_with_editor` — checking a file agrees with editing it.
-/

namespace DialectBridge

/-- The diagnostics that an announcement puts in force; a fault puts none. -/
def Pipeline.Announcement.diagnostics? : Pipeline.Announcement → Option (List Diagnostic)
  | .publish diagnostics => some diagnostics
  | .clear => some []
  | .fault _ => none

namespace Engine

/-- The diagnostics that an event puts in force for a document. -/
def Event.diagnostics? (uri : Uri) : Event → Option (List Diagnostic)
  | .tell sid what => if sid.uri = uri then what.diagnostics? else none
  | _ => none

/-- The diagnostics in force for a document: those that were published or cleared last. -/
def inForce? (uri : Uri) (seen : List Event) : Option (List Diagnostic) :=
  (seen.filterMap (Event.diagnostics? uri)).getLast?

end Engine

namespace CommandLine

open Engine Pipeline

/-- All that is seen of a document that is edited once, with the programs and settings of a check. -/
def editCourse (w : World) (s : Settings) (verify : Bool) (sid : SessionId) (source : String) :
    List Event :=
  (compileCourse (w.programs.toolchain s) { s with verify } sid s.compileDebounceMs source).map (·.2)

variable {w : World} {s : Settings} {noVerify : Bool} {input source : String}

/-- A diagnosis makes the calls that are seen in the course of an edit. -/
theorem diagnose_calls (w : World) (s : Settings) (verify : Bool) (sid : SessionId) (source : String) :
    (diagnose w s verify source).2 =
      (editCourse w s verify sid source).filterMap (Event.call? s) := by
  unfold diagnose editCourse compileCourse gateCourse Programs.toolchain
  rcases (w.programs.compile s.compiler source).value with fault | ⟨host, map⟩ | diagnostics
  · rfl
  · cases verify with
    | false => rfl
    | true =>
      simp only [compileGate, if_true, Option.toList_some, List.flatMap_singleton, verifyCourse,
        foundCourse]
      cases (w.programs.verify s.verifier s.verifyTimeoutMs host).value <;> rfl
  · rfl

/-- A fault of the compiler is the end of a diagnosis, and of what an editor is told. -/
theorem diagnose_fault (verify : Bool) (sid : SessionId) {fault : Compiler.Fault}
    (h : (w.programs.compile s.compiler source).value = .error fault) :
    (diagnose w s verify source).1 = .error fault ∧
      (editCourse w s verify sid source).filterMap (Event.diagnostics? sid.uri) = [] := by
  have hcompile : ((w.programs.toolchain s).compile source).value = .error fault := h
  constructor
  · rw [diagnose, h]
  · simp [editCourse, compileCourse, gateCourse, hcompile, compileGate, Event.diagnostics?,
      Announcement.diagnostics?]

/-- A diagnosis finds what is in force at the end of the course of an edit. -/
theorem diagnose_ok (verify : Bool) (sid : SessionId) {outcome : Compiler.Outcome}
    (h : (w.programs.compile s.compiler source).value = .ok outcome) :
    ∃ diagnostics, (diagnose w s verify source).1 = .ok diagnostics ∧
      inForce? sid.uri (editCourse w s verify sid source) = some diagnostics := by
  have hcompile : ((w.programs.toolchain s).compile source).value = .ok outcome := h
  unfold diagnose inForce? editCourse compileCourse gateCourse
  rw [h, hcompile]
  cases outcome with
  | rejected diagnostics =>
    refine ⟨diagnostics, rfl, ?_⟩
    simp [compileGate, Event.diagnostics?, Announcement.diagnostics?]
  | compiled host map =>
    cases verify with
    | false =>
      refine ⟨[], rfl, ?_⟩
      simp [compileGate, Event.diagnostics?, Announcement.diagnostics?]
    | true =>
      -- what was cleared stays so unless the verifier has an answer
      refine ⟨_, rfl, ?_⟩
      simp only [compileGate, if_true, Option.toList_some, List.flatMap_singleton, verifyCourse,
        foundCourse, Programs.toolchain]
      cases (w.programs.verify s.verifier s.verifyTimeoutMs host).value <;>
        simp [Event.diagnostics?, Announcement.diagnostics?, List.findSome?_cons]

/-! ## The check -/

theorem check_of_fault {fault : Compiler.Fault} (hsource : readSource w input = .ok source)
    (h : (diagnose w s (s.verify && !noVerify) source).1 = .error fault) :
    check w s input noVerify =
      (Failure.ofFault fault).result (diagnose w s (s.verify && !noVerify) source).2 := by
  unfold check
  rw [hsource]
  simp only
  rcases hdiagnose : diagnose w s (s.verify && !noVerify) source with ⟨found, calls⟩
  rw [hdiagnose] at h
  obtain rfl : found = .error fault := h
  rfl

theorem check_of_ok {diagnostics : List Diagnostic} (hsource : readSource w input = .ok source)
    (h : (diagnose w s (s.verify && !noVerify) source).1 = .ok diagnostics) :
    check w s input noVerify =
      if diagnostics = [] then
        { stderr := [s!"OK: {input}"], calls := (diagnose w s (s.verify && !noVerify) source).2 }
      else
        { exit := 1
          reports := Diagnostic.renderAll diagnostics input source.toList
          calls := (diagnose w s (s.verify && !noVerify) source).2 } := by
  unfold check
  rw [hsource]
  simp only
  rcases hdiagnose : diagnose w s (s.verify && !noVerify) source with ⟨found, calls⟩
  rw [hdiagnose] at h
  obtain rfl : found = .ok diagnostics := h
  cases diagnostics with
  | nil => rfl
  | cons first rest => rfl

/-- **Checking a file agrees with editing it.**  A new engine takes the text of the file as an edit,
verifies if the check does, and is left alone: it settles.  Once it has, the same calls have been made.
A fault of the compiler fails the check, and nothing is published or cleared.  Without one, the
diagnostics that the check finds are those in force.  It reports each of them, and that all is well if
there are none.

The engine keeps results, and the check does not; so it takes a lifetime of results that ends, until
the engine has settled, at a time that the clock can name. -/
theorem check_agrees_with_editor (w : World) (s : Settings) (input : String) (noVerify : Bool)
    (source : String) (sid : SessionId) (hsource : readSource w input = .ok source) :
    let settings := { s with verify := s.verify && !noVerify }
    let tools := w.programs.toolchain settings
    let wait (ms : Nat) := ((Engine.start settings).edit sid source).advance tools ms
    settleTime tools settings source + s.cacheTtlMs < timeBound →
    (∀ ms, settleTime tools settings source ≤ ms → (wait ms).1.dues = []) ∧
    ∀ ms, (wait ms).1.dues = [] →
      ∃ calls, calls = (wait ms).2.filterMap (Event.call? settings) ∧
        (∀ fault, (w.programs.compile s.compiler source).value = .error fault →
          check w s input noVerify = (Failure.ofFault fault).result calls ∧
            (wait ms).2.filterMap (Event.diagnostics? sid.uri) = []) ∧
        ∀ outcome, (w.programs.compile s.compiler source).value = .ok outcome →
          ∃ diagnostics, inForce? sid.uri (wait ms).2 = some diagnostics ∧
            (diagnose w s settings.verify source).1 = .ok diagnostics ∧
            check w s input noVerify =
              if diagnostics = [] then { stderr := [s!"OK: {input}"], calls }
              else
                { exit := 1
                  reports := Diagnostic.renderAll diagnostics input source.toList
                  calls } := by
  intro settings tools wait hroom
  refine ⟨fun ms hms => settled_of_le hroom hms, fun ms hsettled => ?_⟩
  have hseen : (wait ms).2 = editCourse w s (s.verify && !noVerify) sid source :=
    course_of_settled hroom hsettled
  rw [hseen]
  refine ⟨_, (diagnose_calls w s (s.verify && !noVerify) sid source), fun fault hfault => ?_,
    fun outcome houtcome => ?_⟩
  · obtain ⟨herror, hnothing⟩ := diagnose_fault (s.verify && !noVerify) sid hfault
    exact ⟨check_of_fault hsource herror, hnothing⟩
  · obtain ⟨diagnostics, hok, hforce⟩ := diagnose_ok (s.verify && !noVerify) sid houtcome
    exact ⟨diagnostics, hforce, hok, check_of_ok hsource hok⟩

/-- A text that is compiled and then found wrong by the verifier, with programs that take their
time. -/
theorem check_agrees_with_editor_unknownName :
    let host := Text.Utf8.bytesOf <| "x = z;\n//# sourceMappingURL=data:application/json;base64," ++
      "eyJ2ZXJzaW9uIjozLCJzb3VyY2VzIjpbIiJdLCJtYXBwaW5ncyI6IkFBQUEifQ==\n"
    let report := Text.Utf8.bytesOf "brewline-verify.ts(1,5): error TS2304: no z\n"
    let programs : Programs :=
      ⟨fun _ _ => .ok ⟨20, ⟨.code 0, host, []⟩, none⟩, fun _ _ => .ok ⟨30, .code 2, report, []⟩⟩
    let w : World := ⟨fun _ => .ok "x = z\n", programs, none⟩
    let sid : SessionId := ⟨⟨"file", "///a.coffee"⟩, 0⟩
    let settings := { ({} : Settings) with verify := ({} : Settings).verify && !false }
    let seen :=
      (((Engine.start settings).edit sid "x = z\n").advance (programs.toolchain settings) 60000).2
    let found : List Diagnostic := [⟨⟨⟨0, 0⟩, ⟨0, 5⟩⟩, "no z", .verifier⟩]
    readSource w "a.coffee" = .ok "x = z\n" ∧ inForce? sid.uri seen = some found ∧
      (check w {} "a.coffee" false).exit = 1 ∧
      (check w {} "a.coffee" false).reports =
        [⟨"a.coffee", "no z", "tsc", (0, 5), some (1, 1)⟩] := by
  intro host report programs w sid settings seen found
  have houtcome : (programs.compile ({} : Settings).compiler "x = z\n").value =
      .ok (.compiled "x = z;" ⟨[[⟨0, 0, 0⟩]]⟩) := by decide +kernel
  have hfound : (diagnose w {} true "x = z\n").1 = .ok found := by decide +kernel
  obtain ⟨hsettles, hagrees⟩ :=
    check_agrees_with_editor w {} "a.coffee" false "x = z\n" sid rfl (by decide +kernel)
  obtain ⟨calls, -, -, hok⟩ := hagrees 60000 (hsettles 60000 (by decide +kernel))
  obtain ⟨diagnostics, hforce, hdiagnose, hcheck⟩ := hok _ houtcome
  obtain rfl : found = diagnostics := Except.ok.inj (hfound.symm.trans hdiagnose)
  have hrendered : Diagnostic.renderAll found "a.coffee" "x = z\n".toList =
      [⟨"a.coffee", "no z", "tsc", (0, 5), some (1, 1)⟩] := by decide +kernel
  rw [hcheck, if_neg (List.cons_ne_nil _ _)]
  exact ⟨rfl, hforce, rfl, hrendered⟩

end CommandLine

end DialectBridge
