import DialectBridge.Command.Run
import DialectBridge.Proofs.Engine.Completion

/-!
# The host line of a probe

The map of a compiled text has been made to fit the host text, so every host line it leads to is a
line of that text, and can be overwritten.  The lines are counted three times: by the line feeds of the
host text, by the lines of the map, and by the pieces of the host text when one of them is replaced.

* `line?_fit` — the lines of a map that was made to fit;
* `toHost?_eq_some_iff` — the first line with a mapping to a position;
* `overwritten_of_emulate?` — what overwriting a line changes;
* `Engine.Reached`, `Engine.Reached.fitted` — the engines there are, and that their maps fit;
* `host_line_to_overwrite` — a probe that has a host line is never left without a line to overwrite.
-/

namespace DialectBridge

/-- A text with one of its lines overwritten. -/
structure Text.Overwritten (before : List Char) (n : Nat) (line after : List Char) : Prop where
  lineCount_eq : lineCount after = lineCount before
  line_eq : rawLine? after n = some line
  others : ∀ k, k ≠ n → rawLine? after k = rawLine? before k

/-- Overwriting a line that exists changes that line and no other. -/
theorem overwritten_of_emulate? {host line : List Char} {n : UInt32}
    (hn : n.toNat < (Text.split '\n' host).length) (hline : '\n' ∉ line) :
    ∃ e, emulate? host n line = some e ∧
      e.cursor = ⟨n, UInt32.ofNat (Text.utf16Length line)⟩ ∧
      Text.Overwritten host n.toNat line e.text.toList := by
  refine ⟨_, if_pos hn, rfl, ?_⟩
  have hsplit := Text.split_joinLines_set hline host n.toNat
  simp only [String.toList_ofList]
  refine ⟨?_, ?_, fun k hk => ?_⟩
  · rw [← Text.length_split_newline, hsplit, List.length_set, Text.length_split_newline]
  · rw [Text.rawLine?, hsplit, List.getElem?_set_self hn]
  · rw [Text.rawLine?, hsplit, List.getElem?_set_ne (Ne.symm hk), Text.rawLine?]

namespace SourceMap

/-- A host line has a mapping to exactly this dialect position. -/
def LeadsTo (m : SourceMap) (p : Position) (k : Nat) : Prop :=
  ∃ columns, m.line? k = some columns ∧
    ∃ c ∈ columns, c.dialectLine = p.line ∧ c.dialectColumn = p.character

variable {m : SourceMap} {p : Position} {n : UInt32} {k : Nat}

/-- **A map that is made to fit keeps its lines**, as far as there is room for them, and has empty lines
behind them. -/
theorem line?_fit {count : Nat} (hk : k < count) :
    (m.fit count).line? k = some ((m.line? k).getD []) := by
  unfold line? fit
  by_cases hlines : k < m.lines.length
  · rw [List.getElem?_append_left (by rw [List.length_take]; omega), List.getElem?_take_of_lt hk,
      List.getElem?_eq_getElem hlines, Option.getD_some]
  · rw [List.getElem?_append_right (by rw [List.length_take]; omega), List.length_take,
      List.getElem?_replicate, if_pos (by omega), List.getElem?_eq_none (by omega), Option.getD_none]

/-- The test by which lines are searched. -/
def leads (p : Position) (columns : List ColumnMapping) : Bool :=
  columns.any fun c => c.dialectLine = p.line && c.dialectColumn = p.character

theorem leadsTo_iff : m.LeadsTo p k ↔ ∃ h : k < m.lines.length, leads p m.lines[k] = true := by
  simp only [LeadsTo, line?, leads, List.getElem?_eq_some_iff, List.any_eq_true, Bool.and_eq_true,
    decide_eq_true_eq]
  constructor
  · rintro ⟨columns, ⟨hk, rfl⟩, hleads⟩
    exact ⟨hk, hleads⟩
  · rintro ⟨hk, hleads⟩
    exact ⟨_, ⟨hk, rfl⟩, hleads⟩

theorem findIdx?_leads :
    m.lines.findIdx? (leads p) = some k ↔ m.LeadsTo p k ∧ ∀ j < k, ¬m.LeadsTo p j := by
  rw [List.findIdx?_eq_some_iff_getElem]
  constructor
  · rintro ⟨hk, hleads, hnone⟩
    refine ⟨leadsTo_iff.mpr ⟨hk, hleads⟩, fun j hj hother => ?_⟩
    obtain ⟨_, hleads'⟩ := leadsTo_iff.mp hother
    exact hnone j hj hleads'
  · rintro ⟨hleads, hnone⟩
    obtain ⟨hk, hleads⟩ := leadsTo_iff.mp hleads
    exact ⟨hk, hleads, fun j hj hother => hnone j hj (leadsTo_iff.mpr ⟨_, hother⟩)⟩

/-- **The host line of a position is the first with a mapping to it**, if the lines with mappings have
numbers of 32 bits. -/
theorem toHost?_eq_some_iff (hsize : ∀ k, m.LeadsTo p k → k < UInt32.size) :
    m.toHost? p = some n ↔ m.LeadsTo p n.toNat ∧ ∀ k < n.toNat, ¬m.LeadsTo p k := by
  have hsearch : m.toHost? p = (m.lines.findIdx? (leads p)).map UInt32.ofNat := rfl
  rw [hsearch, Option.map_eq_some_iff, ← findIdx?_leads]
  constructor
  · rintro ⟨k, hk, rfl⟩
    rw [UInt32.toNat_ofNat_of_lt' (hsize k (findIdx?_leads.mp hk).1)]
    exact hk
  · exact fun hn => ⟨n.toNat, hn, UInt32.ofNat_toNat⟩

end SourceMap

/-- A map that was made to fit a host text.  It has a line for every line of the text, with the
mappings of the given map as far as that has such a line.  A dialect position leads to the first line
with a mapping to it, and that line of the text can be overwritten, which changes no other line. -/
structure LinesUp (host : List Char) (given fitted : SourceMap) : Prop where
  length_eq : fitted.lines.length = (Text.split '\n' host).length
  line_eq : ∀ k < (Text.split '\n' host).length, fitted.line? k = some ((given.line? k).getD [])
  first : ∀ p n, fitted.toHost? p = some n ↔
    fitted.LeadsTo p n.toNat ∧ ∀ k < n.toNat, ¬fitted.LeadsTo p k
  overwritten : ∀ p n line, '\n' ∉ line → fitted.toHost? p = some n →
    ∃ e, emulate? host n line = some e ∧
      e.cursor = ⟨n, UInt32.ofNat (Text.utf16Length line)⟩ ∧
      Text.Overwritten host n.toNat line e.text.toList

theorem linesUp_fit {host : List Char} {map : SourceMap}
    (hsize : Text.lineCount host ≤ UInt32.size ∨ map.lines.length ≤ UInt32.size) :
    LinesUp host map (map.fit (Text.lineCount host)) := by
  have hlength : (map.fit (Text.lineCount host)).lines.length = (Text.split '\n' host).length := by
    rw [SourceMap.length_lines_fit, Text.length_split_newline]
  have hline : ∀ k < (Text.split '\n' host).length,
      (map.fit (Text.lineCount host)).line? k = some ((map.line? k).getD []) := by
    intro k hk
    rw [Text.length_split_newline] at hk
    exact SourceMap.line?_fit hk
  refine ⟨hlength, hline, fun p n => SourceMap.toHost?_eq_some_iff fun k hk => ?_, ?_⟩
  · obtain ⟨hlt, -⟩ := SourceMap.leadsTo_iff.mp hk
    rw [hlength] at hlt
    rcases hsize with hsize | hsize
    · rw [Text.length_split_newline] at hlt
      exact Nat.lt_of_lt_of_le hlt hsize
    · -- a line that was added has no mappings
      obtain ⟨columns, hcolumns, c, hc, -⟩ := hk
      rw [hline k hlt, Option.some.injEq] at hcolumns
      subst hcolumns
      cases hgiven : map.line? k with
      | none =>
        rw [hgiven] at hc
        cases hc
      | some columns =>
        obtain ⟨hgiven, -⟩ := List.getElem?_eq_some_iff.mp hgiven
        exact Nat.lt_of_lt_of_le hgiven hsize
  · intro p n line hnewline hfound
    exact overwritten_of_emulate?
      (Engine.toHost?_lt_length (SourceMap.length_lines_fit _ _) hfound) hnewline

/-! ## The engines there are -/

namespace Engine

/-- The engines that come of a new one: documents are edited and closed, time passes, texts are
compiled and verified, and completions are asked for. -/
inductive Reached (tools : Toolchain) (settings : Settings) : Engine → Prop where
  | start : Reached tools settings (start settings)
  | edit {e : Engine} (h : Reached tools settings e) (sid : SessionId) (text : String) :
    Reached tools settings (e.edit sid text)
  | close {e : Engine} (h : Reached tools settings e) (sid : SessionId) :
    Reached tools settings (e.close sid)
  | advance {e : Engine} (h : Reached tools settings e) (ms : Nat) :
    Reached tools settings (e.advance tools ms).1
  | compile {e : Engine} (h : Reached tools settings e) (text : String) :
    Reached tools settings (e.compile tools text).1
  | verify {e : Engine} (h : Reached tools settings e) (host : String) :
    Reached tools settings (e.verify tools host).1
  | complete {e : Engine} {σ : Type} (h : Reached tools settings e) (service : HostService σ)
    (state : σ) (uri : Uri) (text : String) (cursor : Position) (trigger : Option String) :
    Reached tools settings (e.complete tools service state uri text cursor trigger).1.1

variable {tools : Toolchain} {settings : Settings} {e : Engine}

theorem kept_verify (htools : tools.Fitted) (he : e.Fitted) (host : String) :
    Kept e (e.verify tools host).1 := by
  rcases hfound : e.verified.get e.now host with ⟨found | _ | _, verified⟩ <;>
    simp only [verify, hfound]
  · exact ⟨rfl, he.compiled, he.calls⟩
  · have hget : Kept e { e with verified } := ⟨rfl, he.compiled, he.calls⟩
    have hawait := hget.trans (kept_await htools hget.fitted (tools.verify host).delay)
    exact hawait.trans (kept_keepVerified hawait.fitted host _)
  · exact ⟨rfl, he.compiled, he.calls⟩

theorem fitted_complete {σ : Type} (htools : tools.Fitted) (he : e.Fitted) (service : HostService σ)
    (state : σ) (uri : Uri) (text : String) (cursor : Position) (trigger : Option String) :
    (e.complete tools service state uri text cursor trigger).1.1.Fitted := by
  by_cases hlanding : Nonempty (Landing tools e text cursor)
  · obtain ⟨l⟩ := hlanding
    exact (complete_of_landing htools he service state l uri trigger).2.2.2
  · exact (complete_of_miss htools he service state hlanding uri trigger).2.2.fitted

/-- **All maps fit in every engine there is.** -/
theorem Reached.fitted (htools : tools.Fitted) (h : Reached tools settings e) : e.Fitted := by
  induction h with
  | start => exact start_fitted settings
  | edit _ sid text ih => exact (kept_operate ih sid (.edit text)).fitted
  | close _ sid ih => exact (kept_operate ih sid .close).fitted
  | advance _ ms ih => exact (kept_advance htools ih ms).fitted
  | compile _ text ih => exact (kept_compile htools ih text).1.fitted
  | verify _ host ih => exact (kept_verify htools ih host).fitted
  | complete _ service state uri text cursor trigger ih =>
    exact fitted_complete htools ih service state uri text cursor trigger

end Engine

/-! ## Failures of the command -/

/-- A probe that is located in a text whose map fits has a line to overwrite. -/
theorem locate_ne_noHostLine {outcome : Compiler.Outcome} (h : outcome.Fitted) (probe : Probe)
    (n : UInt32) : probe.locate outcome ≠ .error (.noHostLine n) := by
  cases outcome with
  | rejected diagnostics => simp [Probe.locate]
  | compiled host map =>
    cases hfound : map.toHost? probe.position with
    | none => simp [Probe.locate, hfound]
    | some k =>
      have hk := Engine.toHost?_lt_length h hfound
      have hemulate : ∃ e, emulate? host.toList k probe.line.toList = some e := ⟨_, if_pos hk⟩
      obtain ⟨e, he⟩ := hemulate
      simp [Probe.locate, hfound, he]

namespace CommandLine

/-- A text starts with a character that is no line feed. -/
def StartsWith (c : Char) (text : String) : Prop :=
  text.toList.head? = some c ∧ c ≠ '\n'

instance (c : Char) (text : String) : Decidable (StartsWith c text) :=
  inferInstanceAs (Decidable (_ ∧ _))

theorem StartsWith.append {c : Char} {text : String} (h : StartsWith c text) (more : String) :
    StartsWith c (text ++ more) := by
  refine ⟨?_, h.2⟩
  rw [String.toList_append, List.head?_append, h.1, Option.some_or]

theorem head?_lines {f : Failure} {c : Char} (h : StartsWith c f.message) :
    ∃ piece, f.lines.head? = some (String.ofList ("Error: ".toList ++ c :: piece)) := by
  obtain ⟨rest, hmessage⟩ : ∃ rest, f.message.toList = c :: rest := List.head?_eq_some_iff.mp h.1
  obtain ⟨piece, others, hsplit⟩ := Text.exists_split_eq_cons '\n' rest
  refine ⟨piece, ?_⟩
  have hfirst : Text.split '\n' ("Error: " ++ f.message).toList =
      ("Error: ".toList ++ c :: piece) :: others := by
    rw [String.toList_append, hmessage]
    exact Text.split_append_of_not_mem (by decide) (Text.split_cons_of_ne h.2 hsplit)
  rw [Failure.lines, Failure.linesOf, hfirst]
  rfl

/-- Failures that are told alike start with the same character. -/
theorem eq_of_result_eq {f g : Failure} {c d : Char} (hf : StartsWith c f.message)
    (hg : StartsWith d g.message) {calls calls' : List ToolCall}
    (h : f.result calls = g.result calls') : c = d := by
  have hlines : f.lines = g.lines := congrArg Result.stderr h
  obtain ⟨piece, hpiece⟩ := head?_lines hf
  obtain ⟨piece', hpiece'⟩ := head?_lines hg
  rw [hlines, hpiece', Option.some.injEq, String.ofList_inj] at hpiece
  exact (List.cons.inj (List.append_cancel_left hpiece)).1.symm

theorem startsWith_fault (fault : Compiler.Fault) : ∃ c, StartsWith c fault.message ∧ c ≠ 'h' := by
  cases fault with
  | spawn program cause =>
    have hstart : StartsWith 'c' "cannot run dialect compiler '" := by decide +kernel
    exact ⟨'c', ((hstart.append _).append _).append _, by decide⟩
  | io cause =>
    have hstart : StartsWith 'I' "I/O error talking to the dialect compiler: " := by decide +kernel
    exact ⟨'I', hstart.append _, by decide⟩
  | crashed status stderr =>
    have hstart : StartsWith 'd' "dialect compiler exited with " := by decide +kernel
    exact ⟨'d', ((hstart.append _).append _).append _, by decide⟩
  | missingSourceMap => exact ⟨'d', by decide +kernel, by decide⟩
  | invalidSourceMap reason =>
    have hstart : StartsWith 'i' "invalid source map from dialect compiler: " := by decide +kernel
    exact ⟨'i', hstart.append _, by decide⟩
  | notUtf8 => exact ⟨'d', by decide +kernel, by decide⟩

theorem startsWith_noHostLine (n : UInt32) : StartsWith 'h' (missMessage (.noHostLine n)) := by
  have hstart : StartsWith 'h' "host line " := by decide +kernel
  exact (hstart.append _).append _

theorem startsWith_miss {miss : ProbeMiss} (h : ∀ n, miss ≠ .noHostLine n) :
    StartsWith 'p' (missMessage miss) := by
  cases miss with
  | rejected diagnostics =>
    have hstart : StartsWith 'p' "probe buffer does not compile: " := by decide +kernel
    exact hstart.append _
  | unmapped position =>
    have hstart : StartsWith 'p' "probe at " := by decide +kernel
    exact (((hstart.append _).append _).append _).append _
  | noHostLine n => exact absurd rfl (h n)

/-- A failure that starts otherwise is not that of a missing host line. -/
theorem result_ne_noHostLine {c : Char} {message : String} (hmessage : StartsWith c message)
    (hc : c ≠ 'h') (causes : List String) (n : UInt32) (calls calls' : List ToolCall) :
    Failure.result ⟨message, causes⟩ calls ≠
      Failure.result ⟨missMessage (.noHostLine n), []⟩ calls' := by
  intro h
  exact hc (eq_of_result_eq (f := ⟨message, causes⟩) (g := ⟨missMessage (.noHostLine n), []⟩) hmessage
    (startsWith_noHostLine n) h)

/-- **The command never fails for want of a host line.** -/
theorem probe_ne_noHostLine (w : World) (s : Settings) (input : String) (cursor : Position)
    (n : UInt32) (calls : List ToolCall) :
    probe w s input cursor ≠ Failure.result ⟨missMessage (.noHostLine n), []⟩ calls := by
  cases hread : w.readFile input with
  | error e =>
    have hstart : StartsWith 'c' "cannot read '" := by decide +kernel
    have hmessage : StartsWith 'c' s!"cannot read '{input}'" := (hstart.append _).append _
    simp only [probe, readSource, hread]
    exact result_ne_noHostLine hmessage (by decide) _ n _ _
  | ok source =>
    cases hprobe : Probe.at? source.toList cursor with
    | none =>
      have hstart : StartsWith 'l' "line " := by decide +kernel
      have hmessage : StartsWith 'l' s!"line {cursor.line} is past the end of '{input}'" :=
        (((hstart.append _).append _).append _).append _
      simp only [probe, readSource, hread, hprobe]
      exact result_ne_noHostLine hmessage (by decide) _ n _ _
    | some probe =>
      cases hanswer : (w.programs.compile s.compiler probe.text).value with
      | error fault =>
        obtain ⟨c, hmessage, hc⟩ := startsWith_fault fault
        simp only [CommandLine.probe, readSource, hread, hprobe, hanswer]
        exact result_ne_noHostLine hmessage hc fault.causes n _ _
      | ok outcome =>
        have hfitted : outcome.Fitted := w.programs.toolchain_fitted s probe.text outcome hanswer
        cases hlocate : probe.locate outcome with
        | error miss =>
          have hmiss : ∀ k, miss ≠ .noHostLine k := by
            rintro k rfl
            exact locate_ne_noHostLine hfitted probe k hlocate
          simp only [CommandLine.probe, readSource, hread, hprobe, hanswer, hlocate]
          exact result_ne_noHostLine (startsWith_miss hmiss) (by decide) _ n _ _
        | ok emulation =>
          simp only [CommandLine.probe, readSource, hread, hprobe, hanswer, hlocate]
          intro h
          cases congrArg Result.exit h

end CommandLine

/-- **A probe that has a host line has a line to overwrite.**

1. A compiled text has a map with a line for every line of the host text.  Those of the given map are
   kept as far as there are such lines.  A dialect position leads to the first line with a mapping to
   it, and overwriting that line succeeds and changes no other.
2. So in every engine there is, whatever programs it calls, the host language service is asked about a
   cursor whose probe compiles and has a host line, and it is asked in that line.
3. The command never fails because a host line is out of range. -/
theorem host_line_to_overwrite :
    (∀ (host : String) (map : SourceMap),
      Text.lineCount host.toList ≤ UInt32.size ∨ map.lines.length ≤ UInt32.size →
      ∃ fitted, Compiler.Outcome.ofHost host map = .compiled host fitted ∧
        LinesUp host.toList map fitted) ∧
    (∀ (programs : Programs) (settings : Settings) (e : Engine),
      Engine.Reached (programs.toolchain settings) settings e →
      ∀ (σ : Type) (service : HostService σ) (state : σ) (uri : Uri) (text : String)
        (cursor : Position) (trigger : Option String) (probe : Probe) (host : String)
        (map : SourceMap) (n : UInt32),
        Probe.at? text.toList cursor = some probe →
        (e.compile (programs.toolchain settings) probe.text).2.2 = some (.ok (.compiled host map)) →
        map.toHost? probe.position = some n →
        ∃ column document,
          Engine.contacts (e.complete (programs.toolchain settings) service state uri text cursor
            trigger).2.1 =
          [.completion ⟨VirtualDocument.uri uri, ⟨n, column⟩, trigger⟩ (some document)]) ∧
    (∀ (w : CommandLine.World) (s : Settings) (input : String) (cursor : Position) (n : UInt32)
      (calls : List ToolCall),
      CommandLine.probe w s input cursor ≠
        CommandLine.Failure.result ⟨CommandLine.missMessage (.noHostLine n), []⟩ calls) := by
  refine ⟨fun host map hsize => ⟨_, rfl, linesUp_fit hsize⟩, ?_, CommandLine.probe_ne_noHostLine⟩
  intro programs settings e hreached σ service state uri text cursor trigger probe host map n hprobe
    hcompiled hfound
  have htools := programs.toolchain_fitted settings
  obtain ⟨line, hline⟩ := Engine.exists_line_of_probe hprobe
  let landing : Engine.Landing (programs.toolchain settings) e text cursor :=
    { line, probe, host, map, n
      line_eq := hline
      probe_eq := hprobe
      compiled := hcompiled
      found := hfound }
  obtain ⟨hcontacts, -⟩ :=
    Engine.complete_of_landing htools (hreached.fitted htools) service state landing uri trigger
  exact ⟨_, _, hcontacts⟩

/-- A host text that is shorter than its map. -/
def hoistedText : String := "var x;\n\nx = 1;"

def hoistedMap : SourceMap := ⟨[[], [], [⟨0, 0, 0⟩], [], [⟨0, 1, 0⟩]]⟩

/-- A compiler that always writes this text and this map. -/
def hoistingPrograms : Programs where
  compiler _ _ := .ok ⟨20, ⟨.code 0, Text.Utf8.bytesOf <| hoistedText ++ "\n" ++
    "//# sourceMappingURL=data:application/json;base64," ++
    "eyJ2ZXJzaW9uIjozLCJzb3VyY2VzIjpbIiJdLCJtYXBwaW5ncyI6Ijs7QUFBQTs7QUFDQSJ9\n", []⟩, none⟩
  verifier _ _ := .error .notFound

/-- The line behind an empty one is overwritten, and asked about after an edit. -/
theorem host_line_to_overwrite_hoistedText :
    (∃ fitted e, Compiler.Outcome.ofHost hoistedText hoistedMap = .compiled hoistedText fitted ∧
      fitted.lines.length = 3 ∧ fitted.toHost? ⟨0, 0⟩ = some 2 ∧
      emulate? hoistedText.toList 2 "x.".toList = some e ∧
      Text.Overwritten hoistedText.toList 2 "x.".toList e.text.toList) ∧
    ∃ column document,
      Engine.contacts (((Engine.start {}).edit ⟨⟨"file", "///a.brew"⟩, 0⟩ "x.").complete
        (hoistingPrograms.toolchain {}) Engine.silentHost 0 ⟨"file", "///a.brew"⟩ "x." ⟨0, 2⟩
        none).2.1 =
      [.completion ⟨VirtualDocument.uri ⟨"file", "///a.brew"⟩, ⟨2, column⟩, none⟩
        (some document)] := by
  obtain ⟨hlines, hasked, -⟩ := host_line_to_overwrite
  refine ⟨?_, ?_⟩
  · obtain ⟨fitted, hfitted, hup⟩ := hlines hoistedText hoistedMap (.inr (by decide))
    have hmap : fitted = hoistedMap.fit 3 := by
      cases hfitted
      decide +kernel
    have hfound : fitted.toHost? ⟨0, 0⟩ = some 2 := by
      rw [hmap]
      decide +kernel
    obtain ⟨e, hemulate, -, hover⟩ := hup.overwritten ⟨0, 0⟩ 2 "x.".toList (by decide) hfound
    refine ⟨fitted, e, hfitted, ?_, hfound, hemulate, hover⟩
    rw [hmap]
    decide +kernel
  · exact hasked hoistingPrograms {} _ (.edit .start _ _) Nat Engine.silentHost 0 _ "x." ⟨0, 2⟩ none
      ⟨"true", ⟨0, 0⟩, "x."⟩ hoistedText (hoistedMap.fit 3) 2 (by decide +kernel) (by decide +kernel)
      (by decide +kernel)

end DialectBridge
