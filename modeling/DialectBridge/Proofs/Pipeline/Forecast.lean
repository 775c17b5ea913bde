import DialectBridge.Proofs.Pipeline.Phase
import DialectBridge.Proofs.Timing.Clockwork
import DialectBridge.Timing.Timed

/-!
# What starts next

A desk with a clock works on while nothing comes from outside.  The compiler and the verifier take
any time they like, and answers of old generations may come back in between.  What will be compiled
and verified, and when, is known all the same.

* `Bench` — a desk with a clock, and the answers that are under way;
* `Poised` — where the work for the current generation stands, and the starts that follow from it;
* `Poised.step` — a step of the clock bears the forecast out;
* `foretells` — and so does a run.
-/

namespace DialectBridge.Pipeline

/-- What the compiler and the verifier answer, and how long they take. -/
structure Workers where
  compile : Nat → String → Timed Compiler.Answer
  verify : VerifyJob → Timed Verifier.Answer

/-- What is done to a document from outside. -/
inductive Input where
  | edit (text : String)
  | close

def Input.operation : Input → Operation
  | .edit text => .edit text
  | .close => .close

/-- The answer to what a desk asks for at a time. -/
def Workers.answer? (w : Workers) (now : Nat) : Output → Option (Timer Operation)
  | .compile g text => some ⟨now + (w.compile g text).delay, .compileReturn g (w.compile g text).value⟩
  | .verify job =>
    some ⟨now + (w.verify job).delay, .verifyReturn job.generation (w.verify job).value⟩
  | .tell _ _ => none

/-- The generation that an operation is an answer for. -/
def Operation.replyTo? : Operation → Option Nat
  | .compileReturn g _ => some g
  | .verifyReturn g _ => some g
  | _ => none

/-- How many steps an answer can still lead to: a compilation that comes back may be verified. -/
def Operation.steps : Operation → Nat
  | .compileReturn _ _ => 3
  | _ => 1

/-- A desk with a clock, and the answers that are under way. -/
structure Bench where
  now : Nat
  desk : Desk
  answers : List (Timer Operation)

namespace Bench

def fresh (compileDelay verifyDelay : Nat) : Bench :=
  ⟨0, .fresh compileDelay verifyDelay, []⟩

def operate (w : Workers) (verify : Bool) (b : Bench) (operation : Operation) :
    Bench × List Output :=
  let (desk, output) := b.desk.operate verify b.now operation
  ({ b with desk, answers := b.answers ++ output.filterMap (w.answer? b.now) }, output)

def due? (b : Bench) : Option Nat :=
  Clockwork.earlier? (Workshop.firstEnd? b.answers)
    (Clockwork.earlier? b.desk.session.compileTimer.due? b.desk.session.verifyTimer.due?)

/-- Does what is due next: an answer comes back, or else a timer fires. -/
def step (w : Workers) (verify : Bool) (b : Bench) : Bench × List Output :=
  match b.due? with
  | none => (b, [])
  | some now =>
    match Workshop.takeEnding now b.answers with
    | some (answer, answers) => operate w verify { b with now, answers } answer
    | none =>
      if b.desk.session.compileTimer.due? = some now then
        operate w verify { b with now } .compileTimer
      else operate w verify { b with now } .verifyTimer

/-- The steps that answers can still lead to. -/
def answerSteps (answers : List (Timer Operation)) : Nat :=
  answers.foldr (fun t n => t.job.steps + n) 0

def remaining (b : Bench) : Nat :=
  (if b.desk.session.compileTimer.waiting.isSome then 4 else 0) +
    (if b.desk.session.verifyTimer.waiting.isSome then 2 else 0) +
    answerSteps b.answers

/-- The bench as a machine with a clock. -/
def clockwork (w : Workers) (verify : Bool) : Clockwork Bench Output :=
  ⟨due?, step w verify, remaining⟩

/-- Lets the clock run to a time; what is asked and told comes with its time. -/
def advance (w : Workers) (verify : Bool) (b : Bench) (time : Nat) : Bench × List (Nat × Output) :=
  let (last, seen) := (clockwork w verify).stamped.runTo time b
  ({ last with now := time }, seen)

/-- All that is asked and told up to a time, with inputs at their times. -/
def log (w : Workers) (verify : Bool) (limit : Nat) :
    Bench → List (Nat × Input) → List (Nat × Output)
  | b, [] => (b.advance w verify limit).2
  | b, (time, input) :: later =>
    let (b, seen) := b.advance w verify time
    let (b, output) := b.operate w verify input.operation
    seen ++ output.map (time, ·) ++ log w verify limit b later

/-- The answers under way for the current generation. -/
def currentAnswers (b : Bench) : List (Timer Operation) :=
  b.answers.filter fun t => t.job.replyTo? = some b.desk.session.generation

end Bench

/-- A compilation or a verification starts. -/
def Output.starts : Output → Bool
  | .tell _ _ => false
  | _ => true

/-- The generation that something is asked or told for. -/
def Output.generation : Output → Nat
  | .compile g _ => g
  | .verify job => job.generation
  | .tell g _ => g

/-- The verification that follows an answer of the compiler. -/
def checks (verify : Bool) (verifyDelay time g : Nat) (text : String) (answer : Compiler.Answer) :
    List (Nat × Output) :=
  (compileGate verify text answer).next.toList.map fun t => (time + verifyDelay, .verify ⟨t, g⟩)

/-- The starts that follow when a compilation starts at a time and nothing comes between. -/
def course (w : Workers) (verify : Bool) (verifyDelay time g : Nat) (text : String) :
    List (Nat × Output) :=
  (time, .compile g text) ::
    checks verify verifyDelay (time + (w.compile g text).delay) g text (w.compile g text).value

/-- Where the work for the current generation stands: its runs, the answers they wait for, and the
starts that follow. -/
inductive Stage (w : Workers) (verify : Bool) (verifyDelay : Nat) (s : DocumentSession) :
    List Run → List (Timer Operation) → List (Nat × Output) → Prop
  | rest (hcompile : s.compileTimer.waiting = none) (hverify : s.verifyTimer.waiting = none) :
      Stage w verify verifyDelay s [] [] []
  | armed {due : Nat} (hcompile : s.compileTimer.waiting = some ⟨due, s.generation⟩)
      (hverify : s.verifyTimer.waiting = none) :
      Stage w verify verifyDelay s [] [] (course w verify verifyDelay due s.generation s.text)
  | compiling {due : Nat} {text : String} (hcompile : s.compileTimer.waiting = none)
      (hverify : s.verifyTimer.waiting = none) :
      Stage w verify verifyDelay s [.compiling s.generation text]
        [⟨due, .compileReturn s.generation (w.compile s.generation text).value⟩]
        (checks verify verifyDelay due s.generation text (w.compile s.generation text).value)
  | settling {due : Nat} {job : VerifyJob} (hjob : job.generation = s.generation)
      (hcompile : s.compileTimer.waiting = none) (hverify : s.verifyTimer.waiting = some ⟨due, job⟩) :
      Stage w verify verifyDelay s [] [] [(due, .verify job)]
  | verifying {due : Nat} {job : VerifyJob} (hjob : job.generation = s.generation)
      (hcompile : s.compileTimer.waiting = none) (hverify : s.verifyTimer.waiting = none) :
      Stage w verify verifyDelay s [.verifying job]
        [⟨due, .verifyReturn s.generation (w.verify job).value⟩] []

/-- The delays of the timers. -/
def Delays (compileDelay verifyDelay : Nat) (s : DocumentSession) : Prop :=
  s.compileTimer.delay = compileDelay ∧ s.verifyTimer.delay = verifyDelay

/-- **The starts that follow from a bench**, if no input comes between. -/
structure Poised (w : Workers) (verify : Bool) (compileDelay verifyDelay generation : Nat)
    (b : Bench) (ahead : List (Nat × Output)) : Prop where
  settled : Settled b.desk
  current : b.desk.session.generation = generation
  delays : Delays compileDelay verifyDelay b.desk.session
  replies : ∀ t ∈ b.answers, ∃ g, t.job.replyTo? = some g ∧ g ≤ b.desk.session.generation
  stage : Stage w verify verifyDelay b.desk.session b.desk.currentRuns b.currentAnswers ahead

variable {w : Workers} {verify : Bool} {compileDelay verifyDelay generation now : Nat} {b : Bench}
  {d : Desk} {ahead : List (Nat × Output)}

/-! ## One step of the clock -/

theorem answerSteps_nil : Bench.answerSteps [] = 0 :=
  rfl

theorem answerSteps_cons (t : Timer Operation) (answers : List (Timer Operation)) :
    Bench.answerSteps (t :: answers) = t.job.steps + Bench.answerSteps answers :=
  rfl

theorem answerSteps_append (answers later : List (Timer Operation)) :
    Bench.answerSteps (answers ++ later) = Bench.answerSteps answers + Bench.answerSteps later := by
  induction answers with
  | nil => rw [answerSteps_nil, List.nil_append, Nat.zero_add]
  | cons t rest ih => rw [List.cons_append, answerSteps_cons, answerSteps_cons, ih, Nat.add_assoc]

/-- An answer for an old generation leaves the session and the current runs alone. -/
theorem operate_stale (verify : Bool) (now : Nat) (h : Settled d) {answer : Operation} {g : Nat}
    (hanswer : answer.replyTo? = some g) (hg : g ≠ d.session.generation) :
    ∃ runs, d.operate verify now answer = (⟨d.session, runs⟩, []) ∧
      Desk.currentRuns ⟨d.session, runs⟩ = d.currentRuns := by
  have hgone : ∀ {before after : List Run} {run : Run}, d.runs = before ++ run :: after →
      run.generation = g → Desk.currentRuns ⟨d.session, before ++ after⟩ = d.currentRuns := by
    intro before after run hruns hrun
    simp [Desk.currentRuns, hruns, hrun, hg]
  cases answer with
  | compileReturn g' value =>
    obtain rfl : g' = g := Option.some.inj hanswer
    rcases compileReturn_cases verify now h.waiting g' value with
      ⟨hop, -⟩ | ⟨before, text, after, hruns, hop⟩
    · exact ⟨d.runs, hop, rfl⟩
    · rw [if_neg (Ne.symm hg)] at hop
      exact ⟨before ++ after, hop, hgone hruns rfl⟩
  | verifyReturn g' value =>
    obtain rfl : g' = g := Option.some.inj hanswer
    rcases verifyReturn_cases verify now h.waiting g' value with
      ⟨hop, -⟩ | ⟨before, job, after, hruns, hjob, hop⟩
    · exact ⟨d.runs, hop, rfl⟩
    · rw [if_neg (Ne.symm hg)] at hop
      exact ⟨before ++ after, hop, hgone hruns hjob⟩
  | _ => cases hanswer

/-- What becomes of a forecast when something happens at a time: it shows the next part, and the
rest is still ahead. -/
def Goes (w : Workers) (verify : Bool) (compileDelay verifyDelay generation now : Nat) (b : Bench)
    (ahead : List (Nat × Output)) (done : Bench × List Output) : Prop :=
  ∃ later, Poised w verify compileDelay verifyDelay generation done.1 later ∧
    ahead = (done.2.filter Output.starts).map (fun output => (now, output)) ++ later ∧
    done.1.remaining < b.remaining

theorem Settled.session_of_operate {operation : Operation} {s : DocumentSession} {runs : List Run}
    {output : List Output} (h : Settled d)
    (hop : d.operate verify now operation = (⟨s, runs⟩, output)) :
    Settled ⟨s, runs⟩ := by
  have hsettled : Settled (d.operate verify now operation).1 := h.operate operation
  rwa [hop] at hsettled

theorem Poised.replies_rest {before after : List (Timer Operation)} {t : Timer Operation}
    (h : Poised w verify compileDelay verifyDelay generation b ahead)
    (hsplit : b.answers = before ++ t :: after) :
    ∀ other ∈ before ++ after,
      ∃ g, other.job.replyTo? = some g ∧ g ≤ b.desk.session.generation := by
  intro other hother
  refine h.replies other ?_
  rw [hsplit]
  exact ((List.sublist_cons_self t after).append_left before).subset hother

theorem Poised.replies_concat {t : Timer Operation}
    (h : Poised w verify compileDelay verifyDelay generation b ahead)
    (ht : t.job.replyTo? = some b.desk.session.generation) :
    ∀ other ∈ b.answers ++ [t],
      ∃ g, other.job.replyTo? = some g ∧ g ≤ b.desk.session.generation := by
  intro other hother
  rcases List.mem_append.mp hother with hother | hother
  · exact h.replies other hother
  · rw [List.mem_singleton.mp hother]
    exact ⟨_, ht, Nat.le_refl _⟩

theorem Poised.stale {before after : List (Timer Operation)} {answer : Operation} {g : Nat}
    (h : Poised w verify compileDelay verifyDelay generation b ahead)
    (hsplit : b.answers = before ++ ⟨now, answer⟩ :: after) (hanswer : answer.replyTo? = some g)
    (hg : g ≠ b.desk.session.generation) :
    Goes w verify compileDelay verifyDelay generation now b ahead
      (Bench.operate w verify { b with now, answers := before ++ after } answer) := by
  obtain ⟨runs, hop, hruns⟩ := operate_stale verify now h.settled hanswer hg
  have hsteps : 0 < answer.steps := by cases answer <;> simp [Operation.steps]
  refine ⟨ahead, ?_, ?_, ?_⟩
  · simp only [Bench.operate, hop, List.filterMap_nil, List.append_nil]
    refine ⟨h.settled.session_of_operate hop, h.current, h.delays, h.replies_rest hsplit, ?_⟩
    have hcurrent : (Bench.mk now ⟨b.desk.session, runs⟩ (before ++ after)).currentAnswers =
        b.currentAnswers := by
      simp [Bench.currentAnswers, hsplit, hanswer, hg]
    rw [hruns, hcurrent]
    exact h.stage
  · simp [Bench.operate, hop]
  · simp only [Bench.operate, hop, Bench.remaining, hsplit, List.filterMap_nil, List.append_nil,
      answerSteps_append, answerSteps_cons]
    omega

/-- Without its answer, nothing is under way for the current generation. -/
theorem currentAnswers_rest {before after : List (Timer Operation)} {t : Timer Operation}
    {d : Desk} (hsplit : b.answers = before ++ t :: after) (hone : b.currentAnswers = [t])
    (hgen : d.session.generation = b.desk.session.generation)
    (ht : t.job.replyTo? = some b.desk.session.generation) :
    (Bench.mk now d (before ++ after)).currentAnswers = [] := by
  have hlength : (before.filter fun t => t.job.replyTo? = some b.desk.session.generation).length +
      (after.filter fun t => t.job.replyTo? = some b.desk.session.generation).length = 0 := by
    have := congrArg List.length hone
    simp only [Bench.currentAnswers, hsplit, List.filter_append, List.filter_cons, ht, decide_true,
      if_true, List.length_append, List.length_cons, List.length_nil] at this
    omega
  apply List.eq_nil_of_length_eq_zero
  simpa [Bench.currentAnswers, hgen] using hlength

theorem run_of_current {run : Run} {before after : List Run} {other : Run}
    (hcurrent : d.currentRuns = [run]) (hruns : d.runs = before ++ other :: after)
    (hother : other.generation = d.session.generation) : other = run := by
  have hmem : other ∈ d.currentRuns := by
    simp [Desk.currentRuns, hruns, hother]
  rw [hcurrent] at hmem
  exact List.mem_singleton.mp hmem

/-- The compiler answers for the current generation. -/
theorem Poised.compiled {before after : List (Timer Operation)} {text : String}
    (h : Poised w verify compileDelay verifyDelay generation b ahead)
    (hsplit : b.answers = before ++ ⟨now, .compileReturn b.desk.session.generation
      (w.compile b.desk.session.generation text).value⟩ :: after)
    (hruns : b.desk.currentRuns = [.compiling b.desk.session.generation text])
    (hone : b.currentAnswers = [⟨now, .compileReturn b.desk.session.generation
      (w.compile b.desk.session.generation text).value⟩])
    (hcompile : b.desk.session.compileTimer.waiting = none)
    (hverify : b.desk.session.verifyTimer.waiting = none)
    (hahead : ahead = checks verify verifyDelay now b.desk.session.generation text
      (w.compile b.desk.session.generation text).value) :
    Goes w verify compileDelay verifyDelay generation now b ahead
      (Bench.operate w verify { b with now, answers := before ++ after }
        (.compileReturn b.desk.session.generation
          (w.compile b.desk.session.generation text).value)) := by
  subst hahead
  generalize hg : b.desk.session.generation = g at *
  generalize hanswer : (w.compile g text).value = answer at *
  have hmem : Run.compiling g text ∈ b.desk.currentRuns := by
    rw [hruns]
    exact List.mem_singleton_self _
  rcases compileReturn_cases verify now h.settled.waiting g answer with
    ⟨-, hnone⟩ | ⟨runsBefore, text', runsAfter, hsplitRuns, hop⟩
  · exact absurd (List.mem_filter.mp hmem).1 (hnone text)
  · obtain ⟨-, rfl⟩ : g = g ∧ text' = text := by
      simpa using run_of_current hruns hsplitRuns hg.symm
    rw [if_pos hg] at hop
    have hrest := (h.settled.alone hsplitRuns hg.symm).2
    have hanswers : ∀ d : Desk, d.session.generation = g →
        (Bench.mk now d (before ++ after)).currentAnswers = [] := fun d hd =>
      currentAnswers_rest hsplit hone (hd.trans hg.symm) (by rw [hg]; rfl)
    refine ⟨checks verify verifyDelay now g text' answer, ?_, ?_, ?_⟩
    · simp only [Bench.operate, hop, List.filterMap_cons, Workers.answer?, List.filterMap_nil,
        List.append_nil]
      refine ⟨h.settled.session_of_operate hop, ?_, ?_, ?_, ?_⟩
      · rw [passedSession_generation]
        exact h.current
      · unfold passedSession
        split <;> exact h.delays
      · rw [passedSession_generation]
        exact h.replies_rest hsplit
      · rw [hrest _ (passedSession_generation _), hanswers _ ((passedSession_generation _).trans hg)]
        unfold passedSession checks
        cases hnext : (compileGate verify text' answer).next with
        | none => exact .rest hcompile hverify
        | some t =>
          have hdelay : b.desk.session.verifyTimer.delay = verifyDelay := h.delays.2
          rw [Option.toList_some, List.map_singleton, ← hdelay]
          exact .settling hg.symm hcompile rfl
    · simp [Bench.operate, hop, Output.starts]
    · have hsteps : (Operation.compileReturn g answer).steps = 3 := rfl
      simp only [Bench.operate, hop, Bench.remaining, hsplit, List.filterMap_cons, Workers.answer?,
        List.filterMap_nil, List.append_nil, answerSteps_append, answerSteps_cons, hsteps, hcompile,
        hverify]
      unfold passedSession
      split <;> simp [hcompile, hverify, Debouncer.schedule]; omega

/-- The verifier answers for the current generation. -/
theorem Poised.verified {before after : List (Timer Operation)} {job : VerifyJob}
    {answer : Verifier.Answer} (h : Poised w verify compileDelay verifyDelay generation b [])
    (hjob : job.generation = b.desk.session.generation)
    (hsplit : b.answers =
      before ++ ⟨now, .verifyReturn b.desk.session.generation answer⟩ :: after)
    (hruns : b.desk.currentRuns = [.verifying job])
    (hone : b.currentAnswers = [⟨now, .verifyReturn b.desk.session.generation answer⟩])
    (hcompile : b.desk.session.compileTimer.waiting = none)
    (hverify : b.desk.session.verifyTimer.waiting = none) :
    Goes w verify compileDelay verifyDelay generation now b []
      (Bench.operate w verify { b with now, answers := before ++ after }
        (.verifyReturn b.desk.session.generation answer)) := by
  generalize hg : b.desk.session.generation = g at *
  have hmem : Run.verifying job ∈ b.desk.currentRuns := by rw [hruns]; exact List.mem_singleton_self _
  rcases verifyReturn_cases verify now h.settled.waiting g answer with
    ⟨-, hnone⟩ | ⟨runsBefore, job', runsAfter, hsplitRuns, hjob', hop⟩
  · exact absurd (List.mem_filter.mp hmem).1 (hnone job hjob)
  · rw [if_pos hg] at hop
    have hrest := (h.settled.alone hsplitRuns (hjob'.trans hg.symm)).2
    have htold : (foundOutput job' answer).filterMap (w.answer? now) = [] ∧
        (foundOutput job' answer).filter Output.starts = [] := by
      cases answer <;> exact ⟨rfl, rfl⟩
    refine ⟨[], ?_, ?_, ?_⟩
    · simp only [Bench.operate, hop, htold.1, List.append_nil]
      refine ⟨h.settled.session_of_operate hop, h.current, h.delays, h.replies_rest hsplit, ?_⟩
      rw [hrest { b.desk.session with phase := .published } rfl, currentAnswers_rest hsplit hone]
      · exact .rest hcompile hverify
      · rfl
      · exact congrArg some hg.symm
    · simp only [Bench.operate, hop, htold.2]
      rfl
    · have hsteps : (Operation.verifyReturn g answer).steps = 1 := rfl
      simp only [Bench.operate, hop, htold.1, Bench.remaining, hsplit, List.append_nil,
        answerSteps_append, answerSteps_cons, hsteps]
      omega

theorem currentRuns_concat {s : DocumentSession} {run : Run} (hnone : d.currentRuns = [])
    (hs : s.generation = d.session.generation) (hrun : run.generation = d.session.generation) :
    Desk.currentRuns ⟨s, d.runs ++ [run]⟩ = [run] := by
  simp only [Desk.currentRuns] at hnone ⊢
  rw [List.filter_append, hs, hnone]
  simp [hrun]

theorem currentAnswers_concat {t : Timer Operation} (hnone : b.currentAnswers = [])
    (hd : d.session.generation = b.desk.session.generation)
    (ht : t.job.replyTo? = some b.desk.session.generation) :
    (Bench.mk now d (b.answers ++ [t])).currentAnswers = [t] := by
  simp only [Bench.currentAnswers] at hnone ⊢
  rw [List.filter_append, hd, hnone]
  simp [ht]

/-- The compile timer fires. -/
theorem Poised.compileTimer
    (h : Poised w verify compileDelay verifyDelay generation b
      (course w verify verifyDelay now b.desk.session.generation b.desk.session.text))
    (hruns : b.desk.currentRuns = []) (hnone : b.currentAnswers = [])
    (hcompile : b.desk.session.compileTimer.waiting = some ⟨now, b.desk.session.generation⟩)
    (hverify : b.desk.session.verifyTimer.waiting = none) :
    Goes w verify compileDelay verifyDelay generation now b
      (course w verify verifyDelay now b.desk.session.generation b.desk.session.text)
      (Bench.operate w verify { b with now } .compileTimer) := by
  have hop : b.desk.operate verify now .compileTimer = _ :=
    operate_compileTimer h.settled.waiting hcompile rfl
  refine ⟨checks verify verifyDelay
    (now + (w.compile b.desk.session.generation b.desk.session.text).delay)
    b.desk.session.generation b.desk.session.text
    (w.compile b.desk.session.generation b.desk.session.text).value, ?_, ?_, ?_⟩
  · simp only [Bench.operate, hop, List.filterMap_cons, Workers.answer?, List.filterMap_nil]
    refine ⟨h.settled.session_of_operate hop, h.current, h.delays, h.replies_concat rfl, ?_⟩
    rw [currentRuns_concat hruns, currentAnswers_concat hnone]
    · exact .compiling rfl hverify
    all_goals rfl
  · simp only [Bench.operate, hop]
    rfl
  · rw [Bench.operate, hop]
    simp only [Bench.remaining, List.filterMap_cons, List.filterMap_nil, Workers.answer?,
      answerSteps_append, answerSteps_cons, answerSteps_nil, Operation.steps, Debouncer.fire,
      hcompile, hverify, Option.isSome_some, Option.isSome_none, Bool.false_eq_true, if_true, if_false]
    omega

/-- The verify timer fires. -/
theorem Poised.verifyTimer {job : VerifyJob}
    (h : Poised w verify compileDelay verifyDelay generation b [(now, .verify job)])
    (hjob : job.generation = b.desk.session.generation)
    (hruns : b.desk.currentRuns = []) (hnone : b.currentAnswers = [])
    (hcompile : b.desk.session.compileTimer.waiting = none)
    (hverify : b.desk.session.verifyTimer.waiting = some ⟨now, job⟩) :
    Goes w verify compileDelay verifyDelay generation now b [(now, .verify job)]
      (Bench.operate w verify { b with now } .verifyTimer) := by
  have hop : b.desk.operate verify now .verifyTimer = _ :=
    operate_verifyTimer h.settled.waiting hverify (by exact hjob.symm)
  refine ⟨[], ?_, ?_, ?_⟩
  · simp only [Bench.operate, hop, List.filterMap_cons, Workers.answer?, List.filterMap_nil]
    refine ⟨h.settled.session_of_operate hop, h.current, h.delays,
      h.replies_concat (congrArg some hjob), ?_⟩
    rw [currentRuns_concat hruns, currentAnswers_concat hnone, hjob]
    · exact .verifying hjob hcompile rfl
    · rfl
    · exact congrArg some hjob
    · rfl
    · exact hjob
  · simp only [Bench.operate, hop]
    rfl
  · rw [Bench.operate, hop]
    simp only [Bench.remaining, List.filterMap_cons, List.filterMap_nil, Workers.answer?,
      answerSteps_append, answerSteps_cons, answerSteps_nil, Operation.steps, Debouncer.fire,
      hcompile, hverify, Option.isSome_some, Option.isSome_none, Bool.false_eq_true, if_true, if_false]
    omega

theorem mem_currentAnswers {t : Timer Operation} :
    t ∈ b.currentAnswers ↔ t ∈ b.answers ∧ t.job.replyTo? = some b.desk.session.generation := by
  simp [Bench.currentAnswers]

theorem step_answer {answer : Operation} {answers : List (Timer Operation)} (hdue : b.due? = some now)
    (htake : Workshop.takeEnding now b.answers = some (answer, answers)) :
    b.step w verify = Bench.operate w verify { b with now, answers } answer := by
  unfold Bench.step
  rw [hdue]
  simp only [htake]

theorem step_timer (hdue : b.due? = some now) (htake : Workshop.takeEnding now b.answers = none) :
    b.step w verify =
      Bench.operate w verify { b with now }
        (if b.desk.session.compileTimer.due? = some now then .compileTimer else .verifyTimer) := by
  unfold Bench.step
  rw [hdue]
  simp only [htake]
  split <;> rfl

/-- **Every step of the clock bears the forecast out.** -/
theorem Poised.step (h : Poised w verify compileDelay verifyDelay generation b ahead)
    (hdue : b.due? = some now) :
    Goes w verify compileDelay verifyDelay generation now b ahead (b.step w verify) := by
  have hstage := h.stage
  cases htake : Workshop.takeEnding now b.answers with
  | some found =>
    obtain ⟨answer, rest⟩ := found
    rw [step_answer hdue htake]
    obtain ⟨before, after, hsplit, rfl⟩ := Workshop.takeEnding_eq_some htake
    have hmem : (⟨now, answer⟩ : Timer Operation) ∈ b.answers := by rw [hsplit]; simp
    obtain ⟨g, hreply, -⟩ := h.replies _ hmem
    by_cases hg : g = b.desk.session.generation
    · -- the one answer that is under way for the current generation
      subst hg
      have hcurrent := mem_currentAnswers.mpr ⟨hmem, hreply⟩
      generalize hruns : b.desk.currentRuns = runs at hstage
      generalize hanswers : b.currentAnswers = answers at hstage hcurrent
      cases hstage with
      | rest _ _ => cases hcurrent
      | armed _ _ => cases hcurrent
      | settling _ _ _ => cases hcurrent
      | compiling hcompile hverify =>
        obtain ⟨rfl, rfl⟩ : now = _ ∧ answer = _ := by simpa using hcurrent
        exact h.compiled hsplit hruns hanswers hcompile hverify rfl
      | verifying hjob hcompile hverify =>
        obtain ⟨rfl, rfl⟩ : now = _ ∧ answer = _ := by simpa using hcurrent
        exact h.verified hjob hsplit hruns hanswers hcompile hverify
    · exact h.stale hsplit hreply hg
  | none =>
    have htimer : Clockwork.earlier? b.desk.session.compileTimer.due?
        b.desk.session.verifyTimer.due? = some now := by
      rcases (Clockwork.earlier?_eq_some hdue).1 with hanswer | htimer
      · obtain ⟨t, ht, hnow⟩ := (Workshop.firstEnd?_eq_some hanswer).1
        exact absurd hnow (Workshop.takeEnding_eq_none htake t ht)
      · exact htimer
    rw [step_timer hdue htake]
    generalize hruns : b.desk.currentRuns = runs at hstage
    generalize hanswers : b.currentAnswers = answers at hstage
    cases hstage with
    | rest hcompile hverify => simp [Debouncer.due?, hcompile, hverify, Clockwork.earlier?] at htimer
    | compiling hcompile hverify =>
      simp [Debouncer.due?, hcompile, hverify, Clockwork.earlier?] at htimer
    | verifying _ hcompile hverify =>
      simp [Debouncer.due?, hcompile, hverify, Clockwork.earlier?] at htimer
    | armed hcompile hverify =>
      simp only [Debouncer.due?, hcompile, hverify, Option.map_some, Option.map_none,
        Clockwork.earlier?, Option.some.injEq] at htimer
      subst htimer
      rw [if_pos (by simp [Debouncer.due?, hcompile])]
      exact h.compileTimer hruns hanswers hcompile hverify
    | settling hjob hcompile hverify =>
      simp only [Debouncer.due?, hcompile, hverify, Option.map_some, Option.map_none,
        Clockwork.earlier?, Option.some.injEq] at htimer
      subst htimer
      rw [if_neg (by simp [Debouncer.due?, hcompile])]
      exact h.verifyTimer hjob hruns hanswers hcompile hverify

/-- Something is due no later than an answer or a timer. -/
theorem due?_le {due : Nat} (h : (∃ t ∈ b.answers, t.due = due) ∨
      b.desk.session.compileTimer.due? = some due ∨ b.desk.session.verifyTimer.due? = some due) :
    ∃ first, b.due? = some first ∧ first ≤ due := by
  cases hdue : b.due? with
  | none =>
    obtain ⟨hanswers, htimers⟩ := Clockwork.earlier?_eq_none.mp hdue
    obtain ⟨hcompile, hverify⟩ := Clockwork.earlier?_eq_none.mp htimers
    rw [Workshop.firstEnd?_eq_none] at hanswers
    simp [hanswers, hcompile, hverify] at h
  | some first =>
    refine ⟨first, rfl, ?_⟩
    obtain ⟨-, hanswers, htimers⟩ := Clockwork.earlier?_eq_some hdue
    have hboth : ∀ {a b : Option Nat}, (∀ n, Clockwork.earlier? a b = some n → first ≤ n) →
        a = some due ∨ b = some due → first ≤ due := by
      intro a b hle hsome
      cases hearlier : Clockwork.earlier? a b with
      | none =>
        obtain ⟨rfl, rfl⟩ := Clockwork.earlier?_eq_none.mp hearlier
        simp at hsome
      | some n =>
        obtain ⟨-, ha, hb⟩ := Clockwork.earlier?_eq_some hearlier
        have := hle n hearlier
        rcases hsome with hsome | hsome
        · have := ha due hsome
          omega
        · have := hb due hsome
          omega
    rcases h with ⟨t, ht, rfl⟩ | h
    · cases hend : Workshop.firstEnd? b.answers with
      | none =>
        rw [Workshop.firstEnd?_eq_none.mp hend] at ht
        cases ht
      | some n => exact Nat.le_trans (hanswers n hend) ((Workshop.firstEnd?_eq_some hend).2 t ht)
    · exact hboth htimers h

theorem mem_checks {time g : Nat} {text : String} {answer : Compiler.Answer} {seen : Nat × Output} :
    seen ∈ checks verify verifyDelay time g text answer ↔
      verify = true ∧ ∃ host map, answer = .ok (.compiled host map) ∧
        seen = (time + verifyDelay, .verify ⟨⟨text, host, map⟩, g⟩) := by
  rcases answer with fault | ⟨host, map⟩ | diagnostics
  · simp [checks, compileGate]
  · cases verify with
    | false => simp [checks, compileGate]
    | true =>
      simp only [checks, compileGate, if_true, Option.toList_some, List.map_singleton,
        List.mem_singleton, true_and]
      constructor
      · rintro rfl
        exact ⟨host, map, rfl, rfl⟩
      · rintro ⟨host', map', heq, rfl⟩
        cases heq
        rfl
  · simp [checks, compileGate]

theorem Poised.wait (h : Poised w verify compileDelay verifyDelay generation b ahead) :
    ∀ seen ∈ ahead, ∃ due, b.due? = some due ∧ due ≤ seen.1 := by
  have hstage := h.stage
  intro seen hseen
  generalize hruns : b.desk.currentRuns = runs at hstage
  generalize hanswers : b.currentAnswers = answers at hstage
  have hlater : ∀ due : Nat, (∃ first, b.due? = some first ∧ first ≤ due) → due ≤ seen.1 →
      ∃ due, b.due? = some due ∧ due ≤ seen.1 := by
    rintro due ⟨first, hfirst, hle⟩ hseen
    exact ⟨first, hfirst, Nat.le_trans hle hseen⟩
  cases hstage with
  | rest _ _ => cases hseen
  | verifying _ _ _ => cases hseen
  | @armed due hcompile _ =>
    refine hlater due (due?_le (.inr (.inl (by rw [Debouncer.due?, hcompile]; rfl)))) ?_
    rcases List.mem_cons.mp hseen with rfl | hseen
    · exact Nat.le_refl _
    · obtain ⟨-, _, _, -, rfl⟩ := mem_checks.mp hseen
      simp only
      omega
  | @compiling due text _ _ =>
    have hmem := (mem_currentAnswers.mp (hanswers ▸ List.mem_singleton_self _)).1
    refine hlater due (due?_le (.inl ⟨_, hmem, rfl⟩)) ?_
    obtain ⟨-, _, _, -, rfl⟩ := mem_checks.mp hseen
    simp only
    omega
  | @settling due job _ _ hverify =>
    rw [List.mem_singleton.mp hseen]
    exact due?_le (.inr (.inr (by rw [Debouncer.due?, hverify]; rfl)))

theorem foretells (w : Workers) (verify : Bool) (compileDelay verifyDelay generation limit : Nat) :
    (Bench.clockwork w verify).Foretells limit Output.starts
      (Poised w verify compileDelay verifyDelay generation) where
  wait h := h.wait
  step h hdue _ := by
    obtain ⟨later, hpoised, hahead, -⟩ := h.step hdue
    exact ⟨later, hpoised, hahead⟩
  ends h hdue _ := by
    obtain ⟨-, -, -, hless⟩ := h.step hdue
    exact hless

end DialectBridge.Pipeline
