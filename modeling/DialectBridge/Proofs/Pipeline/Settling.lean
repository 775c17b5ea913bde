import DialectBridge.Proofs.Pipeline.Forecast
import Mathlib.Data.List.Chain
import Mathlib.Data.List.Nodup

/-!
# When compilations and verifications start

A document is edited and closed at given times.  Which compilations and verifications start, and
when, follows from these times and the answers alone: an edit is compiled when the quiet time after
it has passed without another input, and verified when the quiet time after the compiler's answer
has passed in the same way.

* `expected` — what starts, input by input;
* `starts_log` — a run starts what is expected;
* `settling_law` — when the compilation and the verification of an edit start.
-/

namespace DialectBridge.Pipeline

/-! ## Inputs -/

variable {w : Workers} {verify : Bool} {compileDelay verifyDelay generation : Nat} {b : Bench}
  {ahead : List (Nat × Output)}

/-- What follows from an input at a time, if nothing comes after it. -/
def Input.course (w : Workers) (verify : Bool) (compileDelay verifyDelay time g : Nat) :
    Input → List (Nat × Output)
  | .edit text => Pipeline.course w verify verifyDelay (time + compileDelay) g text
  | .close => []

theorem Poised.advance (h : Poised w verify compileDelay verifyDelay generation b ahead) (time : Nat) :
    ((b.advance w verify time).2.filter fun seen => seen.2.starts) =
        ahead.filter (fun seen => seen.1 ≤ time) ∧
      Poised w verify compileDelay verifyDelay generation (b.advance w verify time).1
        (ahead.filter fun seen => time < seen.1) := by
  obtain ⟨hseen, hrest, -⟩ :=
    (foretells w verify compileDelay verifyDelay generation time).run h (Nat.le_refl _)
  exact ⟨hseen, hrest.settled, hrest.current, hrest.delays, hrest.replies, hrest.stage⟩

/-- An input makes all that is under way old. -/
theorem Poised.input (h : Poised w verify compileDelay verifyDelay generation b ahead)
    (input : Input) :
    (b.operate w verify input.operation).2 = [] ∧
      Poised w verify compileDelay verifyDelay (generation + 1)
        (b.operate w verify input.operation).1
        (input.course w verify compileDelay verifyDelay b.now (generation + 1)) := by
  obtain rfl := h.current
  have hruns : ∀ s : DocumentSession, s.generation = b.desk.session.generation + 1 →
      Desk.currentRuns ⟨s, b.desk.runs⟩ = [] := by
    intro s hs
    refine currentRuns_eq_nil b.desk.runs fun r hr => ?_
    have := h.settled.started r hr
    omega
  have hanswers : ∀ d : Desk, d.session.generation = b.desk.session.generation + 1 →
      (Bench.mk b.now d (b.answers ++ [])).currentAnswers = [] := by
    intro d hd
    refine List.filter_eq_nil_iff.mpr fun t ht => ?_
    obtain ⟨g, hreply, hle⟩ := h.replies t (by simpa using ht)
    simp [hreply, hd]
    omega
  have hreplies : ∀ t ∈ b.answers ++ [],
      ∃ g, t.job.replyTo? = some g ∧ g ≤ b.desk.session.generation + 1 := by
    intro t ht
    obtain ⟨g, hreply, hle⟩ := h.replies t (by simpa using ht)
    exact ⟨g, hreply, by omega⟩
  cases input with
  | edit text =>
    refine ⟨rfl, h.settled.edit text, rfl, h.delays, hreplies, ?_⟩
    show Stage w verify verifyDelay (b.desk.edit b.now text).session
      (Desk.currentRuns ⟨(b.desk.edit b.now text).session, b.desk.runs⟩)
      (Bench.mk b.now (b.desk.edit b.now text) (b.answers ++ [])).currentAnswers _
    rw [hruns _ rfl, hanswers _ rfl, Input.course, ← h.delays.1]
    exact .armed rfl rfl
  | close =>
    refine ⟨rfl, h.settled.close, rfl, h.delays, hreplies, ?_⟩
    show Stage w verify verifyDelay b.desk.session.close
      (Desk.currentRuns ⟨b.desk.session.close, b.desk.runs⟩)
      (Bench.mk b.now ⟨b.desk.session.close, b.desk.runs⟩ (b.answers ++ [])).currentAnswers _
    rw [hruns _ rfl, hanswers _ rfl]
    exact .rest rfl rfl

/-- The time up to which nothing comes after an input. -/
def upTo (limit : Nat) : List (Nat × Input) → Nat
  | [] => limit
  | (time, _) :: _ => time

/-- What starts, input by input, from a generation on: the course of each input up to the next. -/
def expected (w : Workers) (verify : Bool) (compileDelay verifyDelay limit : Nat) :
    Nat → List (Nat × Input) → List (Nat × Output)
  | _, [] => []
  | g, (time, input) :: later =>
    (input.course w verify compileDelay verifyDelay time (g + 1)).filter
        (fun seen => seen.1 ≤ upTo limit later) ++
      expected w verify compileDelay verifyDelay limit (g + 1) later

theorem log_cons (limit time : Nat) (input : Input) (later : List (Nat × Input)) :
    b.log w verify limit ((time, input) :: later) =
      (b.advance w verify time).2 ++
          ((b.advance w verify time).1.operate w verify input.operation).2.map (time, ·) ++
        ((b.advance w verify time).1.operate w verify input.operation).1.log w verify limit later :=
  rfl

/-- **All that starts in a run**, input by input. -/
theorem starts_log (h : Poised w verify compileDelay verifyDelay generation b ahead) (limit : Nat)
    (inputs : List (Nat × Input)) :
    ((b.log w verify limit inputs).filter fun seen => seen.2.starts) =
      ahead.filter (fun seen => seen.1 ≤ upTo limit inputs) ++
        expected w verify compileDelay verifyDelay limit generation inputs := by
  induction inputs generalizing b ahead generation with
  | nil =>
    rw [expected, List.append_nil]
    exact (h.advance limit).1
  | cons entry later ih =>
    obtain ⟨time, input⟩ := entry
    obtain ⟨hseen, hadvanced⟩ := h.advance time
    obtain ⟨hnothing, hnext⟩ := hadvanced.input input
    rw [log_cons, List.filter_append, List.filter_append, hseen, ih hnext, hnothing, List.map_nil,
      List.filter_nil, List.append_nil]
    rfl

/-! ## The law -/

/-- Nothing comes after an input before a time. -/
def Undisturbed (limit : Nat) (after : List (Nat × Input)) (time : Nat) : Prop :=
  time ≤ limit ∧ ∀ entry ∈ after, time ≤ entry.1

/-- A compilation for one of the generations after `first`, up to `last`. -/
def Output.compilesIn (first last : Nat) : Output → Bool
  | .compile g _ => first < g && g ≤ last
  | _ => false

theorem le_upTo {limit time : Nat} {after : List (Nat × Input)}
    (hsorted : after.Pairwise fun a b => a.1 ≤ b.1) (hlimit : ∀ entry ∈ after, entry.1 ≤ limit) :
    time ≤ upTo limit after ↔ Undisturbed limit after time := by
  cases after with
  | nil => simp [upTo, Undisturbed]
  | cons entry later =>
    have hfirst := (List.pairwise_cons.mp hsorted).1
    have hentry := hlimit entry List.mem_cons_self
    constructor
    · intro hle
      have hle : time ≤ entry.1 := hle
      refine ⟨Nat.le_trans hle hentry, fun other hother => ?_⟩
      rcases List.mem_cons.mp hother with rfl | hother
      · exact hle
      · exact Nat.le_trans hle (hfirst other hother)
    · intro hquiet
      exact hquiet.2 entry List.mem_cons_self

theorem mem_expected {limit g : Nat} {inputs : List (Nat × Input)} {seen : Nat × Output} :
    seen ∈ expected w verify compileDelay verifyDelay limit g inputs ↔
      ∃ before time input after, inputs = before ++ (time, input) :: after ∧
        seen ∈ input.course w verify compileDelay verifyDelay time (g + before.length + 1) ∧
        seen.1 ≤ upTo limit after := by
  induction inputs generalizing g with
  | nil => simp [expected]
  | cons entry later ih =>
    obtain ⟨time, input⟩ := entry
    simp only [expected, List.mem_append, List.mem_filter, decide_eq_true_eq, ih]
    constructor
    · rintro (⟨hcourse, hle⟩ | ⟨before, time', input', after, rfl, hcourse, hle⟩)
      · exact ⟨[], time, input, later, rfl, hcourse, hle⟩
      · refine ⟨(time, input) :: before, time', input', after, rfl, ?_, hle⟩
        rwa [List.length_cons, show g + (before.length + 1) + 1 = g + 1 + before.length + 1 by omega]
    · rintro ⟨before, time', input', after, hsplit, hcourse, hle⟩
      cases before with
      | nil =>
        obtain ⟨⟨rfl, rfl⟩, rfl⟩ : (time = time' ∧ input = input') ∧ later = after := by
          simpa using hsplit
        exact .inl ⟨hcourse, hle⟩
      | cons entry before =>
        obtain ⟨-, rfl⟩ := List.cons.inj hsplit
        refine .inr ⟨before, time', input', after, rfl, ?_, hle⟩
        rwa [List.length_cons,
          show g + (before.length + 1) + 1 = g + 1 + before.length + 1 by omega] at hcourse

theorem mem_course {input : Input} {time g : Nat} {seen : Nat × Output} :
    seen ∈ input.course w verify compileDelay verifyDelay time g ↔
      ∃ text, input = .edit text ∧
        (seen = (time + compileDelay, .compile g text) ∨
          verify = true ∧ ∃ host map, (w.compile g text).value = .ok (.compiled host map) ∧
            seen = (time + compileDelay + (w.compile g text).delay + verifyDelay,
              .verify ⟨⟨text, host, map⟩, g⟩)) := by
  cases input with
  | close => simp [Input.course]
  | edit text => simp [Input.course, course, mem_checks]

theorem generation_of_mem_course {input : Input} {time g : Nat} {seen : Nat × Output}
    (h : seen ∈ input.course w verify compileDelay verifyDelay time g) :
    seen.2.generation = g ∧ seen.2.starts = true := by
  obtain ⟨text, -, rfl | ⟨-, host, map, -, rfl⟩⟩ := mem_course.mp h
  · exact ⟨rfl, rfl⟩
  · exact ⟨rfl, rfl⟩

theorem nodup_course (input : Input) (time g : Nat) :
    (input.course w verify compileDelay verifyDelay time g).Nodup := by
  cases input with
  | close => exact List.nodup_nil
  | edit text =>
    refine List.nodup_cons.mpr ⟨fun hmem => ?_, ?_⟩
    · obtain ⟨-, _, _, -, heq⟩ := mem_checks.mp hmem
      exact Output.noConfusion (congrArg Prod.snd heq)
    · unfold checks
      cases (compileGate verify text (w.compile g text).value).next with
      | none => exact List.nodup_nil
      | some t => exact List.nodup_singleton _

theorem nodup_expected (limit g : Nat) (inputs : List (Nat × Input)) :
    (expected w verify compileDelay verifyDelay limit g inputs).Nodup := by
  induction inputs generalizing g with
  | nil => exact List.nodup_nil
  | cons entry later ih =>
    refine List.nodup_append.mpr ⟨(nodup_course _ _ _).filter _, ih (g + 1), ?_⟩
    -- what follows from a later input is of a later generation
    intro seen hseen other hother heq
    subst heq
    obtain ⟨before, time, input, after, -, hcourse, -⟩ := mem_expected.mp hother
    have hfirst := (generation_of_mem_course (List.mem_filter.mp hseen).1).1
    have hlater := (generation_of_mem_course hcourse).1
    omega

theorem poised_fresh (w : Workers) (verify : Bool) (compileDelay verifyDelay : Nat) :
    Poised w verify compileDelay verifyDelay 0 (.fresh compileDelay verifyDelay) [] where
  settled := .fresh compileDelay verifyDelay
  current := rfl
  delays := ⟨rfl, rfl⟩
  replies := by simp [Bench.fresh]
  stage := .rest rfl rfl

/-- What starts in a run from the beginning. -/
theorem mem_log {limit : Nat} {inputs : List (Nat × Input)}
    (hsorted : inputs.Pairwise fun a b => a.1 ≤ b.1) (hlimit : ∀ entry ∈ inputs, entry.1 ≤ limit)
    {seen : Nat × Output} (hstarts : seen.2.starts = true) :
    seen ∈ (Bench.fresh compileDelay verifyDelay).log w verify limit inputs ↔
      ∃ before time input after, inputs = before ++ (time, input) :: after ∧
        seen ∈ input.course w verify compileDelay verifyDelay time (before.length + 1) ∧
        Undisturbed limit after seen.1 := by
  have hlog := starts_log (poised_fresh w verify compileDelay verifyDelay) limit inputs
  have hmem : seen ∈ (Bench.fresh compileDelay verifyDelay).log w verify limit inputs ↔
      seen ∈ expected w verify compileDelay verifyDelay limit 0 inputs := by
    rw [List.filter_nil, List.nil_append] at hlog
    rw [← hlog, List.mem_filter]
    simp [hstarts]
  rw [hmem, mem_expected]
  refine exists_congr fun before => exists_congr fun time => exists_congr fun input =>
    exists_congr fun after => and_congr_right fun hsplit => ?_
  subst hsplit
  rw [Nat.zero_add, le_upTo]
  · exact (List.pairwise_cons.mp (List.pairwise_append.mp hsorted).2.1).2
  · exact fun entry hentry => hlimit entry (by simp [hentry])

/-- One input is not split off in two ways. -/
theorem split_unique {α : Type} {before before' after after' : List α} {x y : α}
    (h : before ++ x :: after = before' ++ y :: after') (hlength : before.length = before'.length) :
    before = before' ∧ x = y ∧ after = after' := by
  obtain ⟨hbefore, hrest⟩ := List.append_inj h hlength
  exact ⟨hbefore, List.cons.inj hrest⟩

/-- What starts for an edit. -/
theorem mem_log_edit {limit time : Nat} {before after : List (Nat × Input)} {text : String}
    (hsorted : (before ++ (time, .edit text) :: after).Pairwise fun a b => a.1 ≤ b.1)
    (hlimit : ∀ entry ∈ before ++ (time, .edit text) :: after, entry.1 ≤ limit)
    {seen : Nat × Output} (hstarts : seen.2.starts = true)
    (hgeneration : seen.2.generation = before.length + 1) :
    seen ∈ (Bench.fresh compileDelay verifyDelay).log w verify limit
        (before ++ (time, .edit text) :: after) ↔
      seen ∈ (Input.edit text).course w verify compileDelay verifyDelay time (before.length + 1) ∧
        Undisturbed limit after seen.1 := by
  rw [mem_log hsorted hlimit hstarts]
  constructor
  · rintro ⟨before', time', input', after', hsplit, hcourse, hquiet⟩
    have hlength := (generation_of_mem_course hcourse).1
    obtain ⟨rfl, heq, rfl⟩ := split_unique hsplit (by omega)
    obtain ⟨rfl, rfl⟩ := Prod.mk.inj heq
    exact ⟨hcourse, hquiet⟩
  · rintro ⟨hcourse, hquiet⟩
    exact ⟨before, time, .edit text, after, rfl, hcourse, hquiet⟩

theorem compile_mem_log {limit t time : Nat} {before after : List (Nat × Input)}
    {text source : String}
    (hsorted : (before ++ (t, .edit text) :: after).Pairwise fun a b => a.1 ≤ b.1)
    (hlimit : ∀ entry ∈ before ++ (t, .edit text) :: after, entry.1 ≤ limit) :
    (time, .compile (before.length + 1) source) ∈
        (Bench.fresh compileDelay verifyDelay).log w verify limit
          (before ++ (t, .edit text) :: after) ↔
      time = t + compileDelay ∧ source = text ∧ Undisturbed limit after time := by
  rw [mem_log_edit hsorted hlimit rfl rfl, mem_course]
  constructor
  · rintro ⟨⟨text', htext, hseen | ⟨-, _, _, -, hseen⟩⟩, hquiet⟩
    · cases htext
      obtain ⟨rfl, hcompile⟩ := Prod.mk.inj hseen
      exact ⟨rfl, (Output.compile.inj hcompile).2, hquiet⟩
    · exact Output.noConfusion (congrArg Prod.snd hseen)
  · rintro ⟨rfl, rfl, hquiet⟩
    exact ⟨⟨_, rfl, .inl rfl⟩, hquiet⟩

theorem verify_mem_log {limit t time : Nat} {before after : List (Nat × Input)} {text : String}
    {translation : Translation}
    (hsorted : (before ++ (t, .edit text) :: after).Pairwise fun a b => a.1 ≤ b.1)
    (hlimit : ∀ entry ∈ before ++ (t, .edit text) :: after, entry.1 ≤ limit) :
    (time, .verify ⟨translation, before.length + 1⟩) ∈
        (Bench.fresh compileDelay verifyDelay).log w verify limit
          (before ++ (t, .edit text) :: after) ↔
      verify = true ∧
        (w.compile (before.length + 1) text).value =
          .ok (.compiled translation.host translation.map) ∧
        translation.text = text ∧
        time = t + compileDelay + (w.compile (before.length + 1) text).delay + verifyDelay ∧
        Undisturbed limit after time := by
  rw [mem_log_edit hsorted hlimit rfl rfl, mem_course]
  constructor
  · rintro ⟨⟨text', htext, hseen | ⟨hverify, host, map, hanswer, hseen⟩⟩, hquiet⟩
    · exact Output.noConfusion (congrArg Prod.snd hseen)
    · cases htext
      obtain ⟨rfl, hjob⟩ := Prod.mk.inj hseen
      obtain rfl := (VerifyJob.mk.inj (Output.verify.inj hjob)).1
      exact ⟨hverify, hanswer, rfl, rfl, hquiet⟩
  · rintro ⟨hverify, hanswer, rfl, rfl, hquiet⟩
    exact ⟨⟨_, rfl, .inr ⟨hverify, _, _, hanswer, rfl⟩⟩, hquiet⟩

theorem nodup_starts (limit : Nat) (inputs : List (Nat × Input)) :
    (((Bench.fresh compileDelay verifyDelay).log w verify limit inputs).filter
      fun seen => seen.2.starts).Nodup := by
  have hlog := starts_log (poised_fresh w verify compileDelay verifyDelay) limit inputs
  rw [List.filter_nil, List.nil_append] at hlog
  rw [hlog]
  exact nodup_expected limit 0 inputs

/-- In a burst, every input but the last is followed too soon. -/
theorem disturbed_of_chain {limit : Nat} {before between after : List (Nat × Input)}
    {last entry : Nat × Input}
    (hgaps : (before ++ entry :: (between ++ [last])).IsChain fun a b => b.1 < a.1 + compileDelay) :
    ¬ Undisturbed limit (between ++ [last] ++ after) (entry.1 + compileDelay) := by
  intro hquiet
  have hnext := (List.isChain_append.mp hgaps).2.1
  cases between with
  | nil =>
    have hsoon := (List.isChain_cons_cons.mp hnext).1
    have := hquiet.2 last (by simp)
    omega
  | cons next between =>
    have hsoon := (List.isChain_cons_cons.mp hnext).1
    have := hquiet.2 next (by simp)
    omega

/-- The only input of a burst that is left undisturbed is its last. -/
theorem burst_last {limit : Nat} {before burst after before' after' : List (Nat × Input)}
    {last entry : Nat × Input}
    (hsplit : before ++ (burst ++ [last]) ++ after = before' ++ entry :: after')
    (hgaps : (burst ++ [last]).IsChain fun a b => b.1 < a.1 + compileDelay)
    (hquiet : Undisturbed limit after' (entry.1 + compileDelay))
    (hfirst : before.length < before'.length + 1)
    (hlast : before'.length + 1 ≤ before.length + burst.length + 1) :
    (before ++ burst).length = before'.length := by
  rw [List.length_append]
  refine Nat.le_antisymm (Nat.le_of_not_lt fun hless => ?_) (by omega)
  -- the input stands inside the burst, so another follows it there
  obtain ⟨early, found, late, rfl, hlength⟩ : ∃ early found late,
      burst = early ++ found :: late ∧ early.length = before'.length - before.length := by
    have hk : before'.length - before.length < burst.length := by omega
    refine ⟨_, burst[before'.length - before.length],
      burst.drop (before'.length - before.length + 1), ?_, List.length_take_of_le (Nat.le_of_lt hk)⟩
    rw [List.getElem_cons_drop, List.take_append_drop]
  have hinside : before ++ (early ++ found :: late ++ [last]) ++ after =
      (before ++ early) ++ found :: (late ++ [last] ++ after) := by simp
  obtain ⟨-, rfl, rfl⟩ := split_unique (hinside.symm.trans hsplit)
    (by rw [List.length_append]; omega)
  rw [List.append_assoc] at hgaps
  exact disturbed_of_chain hgaps hquiet

/-- A burst of inputs leads to one compilation, of its last text. -/
theorem compiles_of_burst {limit t : Nat} {before burst after : List (Nat × Input)} {text : String}
    (hsorted : (before ++ (burst ++ [(t, Input.edit text)]) ++ after).Pairwise fun a b => a.1 ≤ b.1)
    (hlimit : ∀ entry ∈ before ++ (burst ++ [(t, Input.edit text)]) ++ after, entry.1 ≤ limit)
    (hgaps : (burst ++ [(t, Input.edit text)]).IsChain fun a b => b.1 < a.1 + compileDelay)
    (hquiet : Undisturbed limit after (t + compileDelay)) :
    (((Bench.fresh compileDelay verifyDelay).log w verify limit
        (before ++ (burst ++ [(t, Input.edit text)]) ++ after)).filter fun seen =>
          seen.2.compilesIn before.length (before.length + burst.length + 1)) =
      [(t + compileDelay, .compile (before.length + burst.length + 1) text)] := by
  set inputs := before ++ (burst ++ [(t, Input.edit text)]) ++ after with hinputs
  have hlast : inputs = (before ++ burst) ++ (t, .edit text) :: after := by simp [hinputs]
  have hcompiles : ∀ seen : Nat × Output,
      seen.2.compilesIn before.length (before.length + burst.length + 1) = true →
      seen.2.starts = true := by
    rintro ⟨time, output⟩ h
    cases output <;> first | rfl | cases h
  refine List.perm_singleton.mp ((List.perm_ext_iff_of_nodup ?_ (List.nodup_singleton _)).mpr ?_)
  · exact List.Nodup.sublist (List.monotone_filter_right _ hcompiles) (nodup_starts limit inputs)
  · rintro ⟨time, output⟩
    rw [List.mem_filter, List.mem_singleton]
    constructor
    · rintro ⟨hmem, hin⟩
      obtain ⟨before', t', input, after', hsplit, hcourse, hundisturbed⟩ :=
        (mem_log hsorted hlimit (hcompiles _ hin)).mp hmem
      obtain ⟨text', rfl, hseen | ⟨-, _, _, -, hseen⟩⟩ := mem_course.mp hcourse
      · obtain ⟨rfl, rfl⟩ := Prod.mk.inj hseen
        simp only [Output.compilesIn, Bool.and_eq_true, decide_eq_true_eq] at hin
        obtain ⟨rfl, heq, rfl⟩ := split_unique (hlast.symm.trans hsplit)
          (burst_last (hinputs.symm.trans hsplit) hgaps hundisturbed hin.1 hin.2)
        obtain ⟨rfl, htext⟩ := Prod.mk.inj heq
        rw [Input.edit.inj htext, List.length_append]
      · obtain ⟨-, rfl⟩ := Prod.mk.inj hseen
        cases hin
    · intro hseen
      obtain ⟨rfl, rfl⟩ := Prod.mk.inj hseen
      constructor
      · rw [hlast] at hsorted hlimit ⊢
        rw [← List.length_append]
        exact (compile_mem_log hsorted hlimit).mpr ⟨rfl, rfl, hquiet⟩
      · simp only [Output.compilesIn, Bool.and_eq_true, decide_eq_true_eq]
        omega

/-- **The settling law.**  The compilation of an edit starts if and only if the quiet time after it
passes undisturbed, and then at the end of it; a verification starts if and only if verification is
on, the edit's compilation came back with a host text, and the quiet time after that passes
undisturbed, and then at the end of it.  Nothing starts twice, and a burst of edits is compiled
once, with its last text. -/
theorem settling_law (w : Workers) (verify : Bool) (compileDelay verifyDelay limit : Nat)
    (inputs : List (Nat × Input)) (hsorted : inputs.Pairwise fun a b => a.1 ≤ b.1)
    (hlimit : ∀ entry ∈ inputs, entry.1 ≤ limit) :
    let log := (Bench.fresh compileDelay verifyDelay).log w verify limit inputs
    (∀ before t text after, inputs = before ++ (t, .edit text) :: after →
      let answer := w.compile (before.length + 1) text
      (∀ time source, (time, .compile (before.length + 1) source) ∈ log ↔
        time = t + compileDelay ∧ source = text ∧ Undisturbed limit after time) ∧
      (∀ time translation, (time, .verify ⟨translation, before.length + 1⟩) ∈ log ↔
        verify = true ∧ answer.value = .ok (.compiled translation.host translation.map) ∧
          translation.text = text ∧ time = t + compileDelay + answer.delay + verifyDelay ∧
          Undisturbed limit after time)) ∧
    (log.filter fun seen => seen.2.starts).Nodup ∧
    (∀ seen ∈ log, seen.2.starts = true → ∃ before t text after,
      inputs = before ++ (t, .edit text) :: after ∧ seen.2.generation = before.length + 1) ∧
    (∀ before burst t text after, inputs = before ++ (burst ++ [(t, .edit text)]) ++ after →
      (burst ++ [(t, .edit text)]).IsChain (fun a b => b.1 < a.1 + compileDelay) →
      Undisturbed limit after (t + compileDelay) →
      (log.filter fun seen => seen.2.compilesIn before.length (before.length + burst.length + 1)) =
        [(t + compileDelay, .compile (before.length + burst.length + 1) text)]) := by
  intro log
  refine ⟨?_, nodup_starts limit inputs, ?_, ?_⟩
  · rintro before t text after rfl answer
    exact ⟨fun _ _ => compile_mem_log hsorted hlimit, fun _ _ => verify_mem_log hsorted hlimit⟩
  · intro seen hseen hstarts
    obtain ⟨before, t, input, after, hsplit, hcourse, -⟩ := (mem_log hsorted hlimit hstarts).mp hseen
    obtain ⟨text, rfl, -⟩ := mem_course.mp hcourse
    exact ⟨before, t, text, after, hsplit, (generation_of_mem_course hcourse).1⟩
  · rintro before burst t text after rfl hgaps hquiet
    exact compiles_of_burst hsorted hlimit hgaps hquiet

/-- A compiler that takes 30 milliseconds and a verifier that takes 70. -/
def steadyWorkers : Workers :=
  ⟨fun _ text => ⟨30, .ok (.compiled text ⟨[]⟩)⟩, fun _ => ⟨70, .ok []⟩⟩

theorem settling_law_burst :
    let inputs := [(0, .edit "a"), (40, .edit "b"), (90, .edit "c"), (900, .close)]
    let log := (Bench.fresh 100 200).log steadyWorkers true 1000 inputs
    (log.filter fun seen => seen.2.compilesIn 0 3) = [(190, .compile 3 "c")] ∧
      (∀ time, (time, .verify ⟨⟨"c", "c", ⟨[]⟩⟩, 3⟩) ∈ log ↔ time = 420) := by
  intro inputs log
  have hlaw := settling_law steadyWorkers true 100 200 1000 inputs (by decide)
    (by decide)
  have hquiet : ∀ time, Undisturbed 1000 [(900, .close)] time ↔ time ≤ 900 := by
    intro time
    simp [Undisturbed]
    omega
  constructor
  · exact hlaw.2.2.2 [] [(0, .edit "a"), (40, .edit "b")] 90 "c" [(900, .close)] rfl (by simp)
      ((hquiet _).mpr (by decide))
  · intro time
    have hverify := (hlaw.1 [(0, .edit "a"), (40, .edit "b")] 90 "c" [(900, .close)] rfl).2 time
      ⟨"c", "c", ⟨[]⟩⟩
    refine hverify.trans ⟨?_, ?_⟩
    · rintro ⟨-, -, -, htime, -⟩
      exact htime
    · rintro rfl
      exact ⟨rfl, rfl, rfl, rfl, (hquiet _).mpr (by decide)⟩

end DialectBridge.Pipeline
