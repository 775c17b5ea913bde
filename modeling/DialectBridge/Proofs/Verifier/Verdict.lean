import DialectBridge.Proofs.Verifier.Report
import DialectBridge.Verifier.Verdict

/-!
# What an empty answer of the verifier means

An empty answer should mean that the program is clean: the verifier ended well, or all it had to tell
were modules that cannot be found.  The second is not looked up in the problems of the report but in
its text, so that a verifier that could not even start its own modules passes for one that found
nothing.

* `mentions_iff`, `mentioned_of_dropped` — the words are found in the text, wherever a problem has
  them;
* `findings_eq_nil_iff` — nothing is found if all problems are dropped;
* `judge_cases` — the answers there are;
* `empty_answer_iff` — when an answer is empty, and when it should not be.
-/

namespace DialectBridge.Verifier

open Text

theorem mentions_iff {part cs : List Char} : mentions part cs = true ↔ part <:+: cs := by
  induction cs with
  | nil => rw [mentions, List.isEmpty_iff, List.infix_nil]
  | cons c cs ih =>
    rw [mentions, Bool.or_eq_true, ih, List.isPrefixOf_iff_prefix, List.infix_cons_iff]

namespace TypeReport

/-- The line tells a problem that does not count. -/
def Dropped (line : List Char) : Prop :=
  ∃ message, Tells line message ∧ ignoredStart <+: message

theorem Tells.message_within {line message : List Char} (h : Tells line message) :
    message <:+: line := by
  have hends : message <:+ trimEnd line := by
    obtain ⟨-, ⟨file, number, header, -, hline, -⟩ | ⟨mark, -, hline, -⟩⟩ := h
    · exact ⟨file ++ header, by rw [hline, List.append_assoc]⟩
    · exact ⟨mark, hline.symm⟩
  exact hends.isInfix.trans (List.rdropWhile_prefix isBlank line).isInfix

/-- A problem that was dropped has the words that are looked for in the text. -/
theorem mentioned_of_dropped {report line : List Char} (hline : line ∈ terminatedLines report)
    (h : Dropped line) : ignoredStart <:+: report := by
  obtain ⟨message, htells, hstart⟩ := h
  exact (hstart.isInfix.trans htells.message_within).trans (infix_of_mem_terminatedLines hline)

/-- **Nothing is found if and only if all problems are dropped.** -/
theorem findings_eq_nil_iff {report : List Char} :
    findings report = [] ↔
      ∀ line ∈ terminatedLines report, ∀ message, Tells line message → ignoredStart <+: message := by
  rw [findings, List.filterMap_eq_nil_iff]
  constructor
  · intro h line hline message htells
    obtain ⟨place, hfound⟩ := htells.exists_finding?
    rw [h line hline] at hfound
    by_contra hcounts
    rw [finding?_of_counts hcounts] at hfound
    cases hfound
  · intro h line hline
    by_cases hsilent : ∀ message, ¬Tells line message
    · exact lineFinding?_of_silent hsilent
    · push Not at hsilent
      obtain ⟨message, htells⟩ := hsilent
      obtain ⟨place, hfound⟩ := htells.exists_finding?
      rw [hfound, finding?, if_pos (List.isPrefixOf_iff_prefix.mpr (h line hline message htells))]

end TypeReport

open TypeReport

/-! ## Answers -/

/-- The verifier says that it found something. -/
def Reported (status : ExitStatus) : Prop :=
  status = .code 1 ∨ status = .code 2

/-- Why an answer may be empty: the verifier ended well, or it found something and a problem of its
report was dropped. -/
def Explained (output : ProgramOutput) : Prop :=
  output.status = .code 0 ∨
    Reported output.status ∧
      ∃ line ∈ terminatedLines (Utf8.decodeLossy output.stdout), Dropped line

variable {output : ProgramOutput}

theorem reportedErrors_iff {status : ExitStatus} :
    reportedErrors status = true ↔ Reported status := by
  rw [reportedErrors, Bool.or_eq_true, decide_eq_true_eq, decide_eq_true_eq, Reported]

theorem judge_of_success (h : output.status = .code 0) :
    judge output = .ok (findings (Utf8.decodeLossy output.stdout)) := by
  have hsuccess : output.status.success = true := by rw [h]; rfl
  have hreported : reportedErrors output.status = false := by rw [h]; rfl
  simp only [judge, hsuccess, hreported, Bool.not_true, Bool.false_and, Bool.false_eq_true, if_false]

theorem judge_of_reported (h : Reported output.status)
    (hfound : findings (Utf8.decodeLossy output.stdout) ≠ [] ∨
      ignoredStart <:+: Utf8.decodeLossy output.stdout) :
    judge output = .ok (findings (Utf8.decodeLossy output.stdout)) := by
  have hempty : ((findings (Utf8.decodeLossy output.stdout)).isEmpty &&
      !mentions ignoredStart (Utf8.decodeLossy output.stdout)) = false := by
    rw [Bool.and_eq_false_iff, List.isEmpty_eq_false_iff, Bool.not_eq_false', mentions_iff]
    exact hfound
  simp only [judge, reportedErrors_iff.mpr h, Bool.not_true, Bool.and_false, Bool.true_and, hempty,
    Bool.false_eq_true, if_false]

theorem judge_of_unexplained (h : Reported output.status)
    (hfound : findings (Utf8.decodeLossy output.stdout) = [])
    (hmentions : ¬ignoredStart <:+: Utf8.decodeLossy output.stdout) :
    ∃ reason, judge output = .error (.protocol reason) := by
  have hsilent : mentions ignoredStart (Utf8.decodeLossy output.stdout) = false := by
    rw [Bool.eq_false_iff]
    exact fun hmention => hmentions (mentions_iff.mp hmention)
  simp only [judge, reportedErrors_iff.mpr h, hfound, hsilent, Bool.not_true, Bool.and_false,
    Bool.false_eq_true, if_false, List.isEmpty_nil, Bool.not_false, Bool.and_self, if_true]
  exact ⟨_, rfl⟩

theorem judge_of_crash (hsuccess : output.status ≠ .code 0) (hreported : ¬Reported output.status) :
    ∃ reason, judge output = .error (.protocol reason) := by
  have hfailed : output.status.success = false := decide_eq_false hsuccess
  have hsilent : reportedErrors output.status = false := by
    rw [Bool.eq_false_iff]
    exact fun h => hreported (reportedErrors_iff.mp h)
  simp only [judge, hfailed, hsilent, Bool.not_false, Bool.and_self, if_true]
  exact ⟨_, rfl⟩

/-- **When an answer is given, and which**: the status is 0, or it is 1 or 2 and something was found
or the words are in the text.  Else it is an error. -/
theorem judge_cases (output : ProgramOutput) :
    (output.status = .code 0 ∨ Reported output.status ∧
        (findings (Utf8.decodeLossy output.stdout) ≠ [] ∨
          ignoredStart <:+: Utf8.decodeLossy output.stdout)) ∧
      judge output = .ok (findings (Utf8.decodeLossy output.stdout)) ∨
    (output.status ≠ .code 0 ∧ (Reported output.status →
        findings (Utf8.decodeLossy output.stdout) = [] ∧
          ¬ignoredStart <:+: Utf8.decodeLossy output.stdout)) ∧
      ∃ reason, judge output = .error (.protocol reason) := by
  by_cases hsuccess : output.status = .code 0
  · exact .inl ⟨.inl hsuccess, judge_of_success hsuccess⟩
  by_cases hreported : Reported output.status
  · by_cases hfound : findings (Utf8.decodeLossy output.stdout) ≠ [] ∨
        ignoredStart <:+: Utf8.decodeLossy output.stdout
    · exact .inl ⟨.inr ⟨hreported, hfound⟩, judge_of_reported hreported hfound⟩
    · rw [not_or, not_not] at hfound
      exact .inr ⟨⟨hsuccess, fun _ => hfound⟩, judge_of_unexplained hreported hfound.1 hfound.2⟩
  · exact .inr ⟨⟨hsuccess, fun h => absurd h hreported⟩, judge_of_crash hsuccess hreported⟩

theorem judge_eq_ok_nil_iff :
    judge output = .ok [] ↔
      findings (Utf8.decodeLossy output.stdout) = [] ∧
        (output.status = .code 0 ∨
          Reported output.status ∧ ignoredStart <:+: Utf8.decodeLossy output.stdout) := by
  rcases judge_cases output with ⟨hgiven, hanswer⟩ | ⟨⟨hsuccess, hreported⟩, reason, hanswer⟩
  · rw [hanswer, Except.ok.injEq]
    constructor
    · intro hempty
      rw [hempty] at hgiven
      exact ⟨hempty, hgiven.imp_right fun h => ⟨h.1, h.2.resolve_left fun hne => hne rfl⟩⟩
    · exact fun h => h.1
  · rw [hanswer]
    constructor
    · intro h
      cases h
    · rintro ⟨-, h | ⟨h, hmentions⟩⟩
      · exact absurd h hsuccess
      · exact absurd hmentions (hreported h).2

/-- **What an empty answer means.**  It is given if nothing was found and the verifier ended well, or
ended with a status of 1 or 2 and the words of a missing module are in its text.  So it is given
whenever it is explained; but it is given without an explanation too, just if the status is 1 or 2,
no line of the report tells a problem, and the words stand somewhere in it.  In all other cases
without findings there is an error. -/
theorem empty_answer_iff (program : String) (limit : Nat) (output : ProgramOutput) :
    let stdout := Utf8.decodeLossy output.stdout
    let given := answer program limit (.ended output)
    (given = .ok [] ↔ findings stdout = [] ∧
      (output.status = .code 0 ∨ Reported output.status ∧ ignoredStart <:+: stdout)) ∧
    (findings stdout = [] → Explained output → given = .ok []) ∧
    (given = .ok [] ∧ ¬Explained output ↔
      Reported output.status ∧ (∀ line ∈ terminatedLines stdout, ∀ message, ¬Tells line message) ∧
        ignoredStart <:+: stdout) ∧
    (findings stdout = [] → given ≠ .ok [] → ∃ reason, given = .error (.protocol reason)) := by
  intro stdout given
  have hgiven : given = .ok [] ↔ findings stdout = [] ∧
      (output.status = .code 0 ∨ Reported output.status ∧ ignoredStart <:+: stdout) :=
    judge_eq_ok_nil_iff
  refine ⟨hgiven, ?_, ⟨?_, ?_⟩, ?_⟩
  · intro hempty hexplained
    refine hgiven.mpr ⟨hempty, hexplained.imp_right ?_⟩
    rintro ⟨hreported, line, hline, hdropped⟩
    exact ⟨hreported, mentioned_of_dropped hline hdropped⟩
  · rintro ⟨hanswer, hunexplained⟩
    rw [Explained, not_or, not_and] at hunexplained
    obtain ⟨hempty, hstatus⟩ := hgiven.mp hanswer
    obtain ⟨hreported, hmentions⟩ := hstatus.resolve_left hunexplained.1
    refine ⟨hreported, ?_, hmentions⟩
    -- a problem that was told was dropped, which would explain the answer
    intro line hline message htells
    exact hunexplained.2 hreported
      ⟨line, hline, message, htells, findings_eq_nil_iff.mp hempty line hline message htells⟩
  · rintro ⟨hreported, hsilent, hmentions⟩
    have hempty : findings stdout = [] :=
      findings_eq_nil_iff.mpr fun line hline message htells =>
        absurd htells (hsilent line hline message)
    refine ⟨hgiven.mpr ⟨hempty, .inr ⟨hreported, hmentions⟩⟩, ?_⟩
    rintro (hsuccess | ⟨-, line, hline, message, htells, -⟩)
    · rcases hreported with h | h <;> rw [hsuccess] at h <;> cases h
    · exact hsilent line hline message htells
  · intro hempty hother
    rcases judge_cases output with ⟨-, hanswer⟩ | ⟨-, herror⟩
    · exact absurd (hanswer.trans (congrArg Except.ok hempty)) hother
    · exact herror

/-- A verifier that cannot load itself, and a program whose only problem does not count: both answers
are empty, and only the second is explained. -/
theorem empty_answer_iff_brokenTool :
    let broken : ProgramOutput := ⟨.code 1, Utf8.bytesOf "Error: Cannot find module 'tsc'\n", []⟩
    let clean : ProgramOutput :=
      ⟨.code 2, Utf8.bytesOf "a.ts(1,1): error TS2307: Cannot find module 'm'.\n", []⟩
    (answer "tsc" 5000 (.ended broken) = .ok [] ∧ ¬Explained broken) ∧
      Explained clean ∧ answer "tsc" 5000 (.ended clean) = .ok [] := by
  intro broken clean
  have hbroken : terminatedLines (Utf8.decodeLossy broken.stdout) =
      ["Error: Cannot find module 'tsc'".toList] := by decide +kernel
  have hclean : terminatedLines (Utf8.decodeLossy clean.stdout) =
      ["a.ts(1,1): error TS2307: Cannot find module 'm'.".toList] := by decide +kernel
  have hother : IsOther "Error: Cannot find module 'tsc'".toList :=
    .unknown (located?_eq_none_iff.mp (by decide)) (problem?_eq_none_iff.mp (by decide))
  have htells : Tells "a.ts(1,1): error TS2307: Cannot find module 'm'.".toList
      "Cannot find module 'm'.".toList :=
    ⟨rfl, .inl ⟨"a.ts".toList, _, _, isHeader_writeHeader 1 1 .error 2307, by decide,
      located?_eq_none_iff.mp (by decide)⟩⟩
  have hexplained : Explained clean :=
    .inr ⟨.inr rfl, _, hclean ▸ List.mem_singleton_self _, _, htells, by decide⟩
  refine ⟨(empty_answer_iff "tsc" 5000 broken).2.2.1.mpr ⟨.inl rfl, ?_, ?_⟩, hexplained,
    (empty_answer_iff "tsc" 5000 clean).2.1 ?_ hexplained⟩
  · rw [hbroken, List.forall_mem_singleton]
    exact hother.silent
  · exact mentions_iff.mp (by decide +kernel)
  · decide +kernel

end DialectBridge.Verifier
