import DialectBridge.Command.Run
import DialectBridge.Editor.Server
import DialectBridge.Proofs.Engine.Completion
import DialectBridge.Proofs.Engine.Single
import DialectBridge.Proofs.Text.Ascii

/-!
# Showing a completion and asking for it

The command line shows where a completion would be asked for, and the engine asks for it.  The one
compiles the probe and tells what is wrong with it; the other goes through its cache and its registry
of documents, and keeps what is wrong to itself.  Both come out at the same place in the host text,
`emulation?`, unless the engine loses the outcome because it would expire at a time without a name.

* `Idle.compile` — a new engine has the answer of the compiler, or loses it;
* `Idle.complete_some`, `Idle.complete_none` — what a new engine asks, and what is seen of it;
* `probe_of_some`, `probe_of_none` — what the command shows;
* `shown_injective` — what is shown tells the host text and the cursor;
* `probe_agrees_with_completion` — the command shows a host text and a cursor just if the engine asks
  about them.
-/

namespace DialectBridge

/-- The texts that are compiled to complete at a cursor: that of the probe, if there is one. -/
def probed (text : String) (cursor : Position) : List String :=
  (Probe.at? text.toList cursor).toList.map (·.text)

/-- The host text and the place in it where a completion is asked for. -/
def emulation? (compile : String → Compiler.Answer) (text : String) (cursor : Position) :
    Option Emulation := do
  let probe ← Probe.at? text.toList cursor
  let outcome ← (compile probe.text).toOption
  (probe.locate outcome).toOption

section

variable {compile : String → Compiler.Answer} {text : String} {cursor : Position}

theorem emulation?_eq_some {emulation : Emulation}
    (h : emulation? compile text cursor = some emulation) :
    ∃ probe outcome, Probe.at? text.toList cursor = some probe ∧
      compile probe.text = .ok outcome ∧ probe.locate outcome = .ok emulation := by
  obtain ⟨probe, hprobe, h⟩ := Option.bind_eq_some_iff.mp h
  obtain ⟨outcome, houtcome, h⟩ := Option.bind_eq_some_iff.mp h
  refine ⟨probe, outcome, hprobe, ?_, ?_⟩
  · cases hcompile : compile probe.text with
    | error fault => rw [hcompile] at houtcome; cases houtcome
    | ok _ => rw [hcompile] at houtcome; cases houtcome; rfl
  · cases hlocate : probe.locate outcome with
    | error miss => rw [hlocate] at h; cases h
    | ok _ => rw [hlocate] at h; cases h; rfl

theorem locate_of_none {probe : Probe} {outcome : Compiler.Outcome}
    (h : emulation? compile text cursor = none) (hprobe : Probe.at? text.toList cursor = some probe)
    (hcompile : compile probe.text = .ok outcome) : ∃ miss, probe.locate outcome = .error miss := by
  cases hlocate : probe.locate outcome with
  | error miss => exact ⟨miss, rfl⟩
  | ok emulation =>
    have hsome : emulation? compile text cursor = some emulation := by
      simp [emulation?, hprobe, hcompile, hlocate, Except.toOption]
    rw [hsome] at h
    cases h

end

namespace Engine

/-- Nothing is under way and nothing has been compiled. -/
structure Idle (lifetime : Nat) (e : Engine) : Prop where
  desks : e.desks = []
  calls : e.calls = []
  compiled : e.compiled.Blank lifetime

variable {e : Engine} {lifetime : Nat} {text : String} {cursor : Position}

theorem idle_start (settings : Settings) : (start settings).Idle settings.cacheTtlMs :=
  ⟨rfl, rfl, Guarded.blank_empty _ _⟩

/-! ## A new engine -/

/-- Only time passes where nothing is under way. -/
theorem await_of_nothing (hdesks : e.desks = []) (hcalls : e.calls = []) (tools : Toolchain)
    (ms : Nat) : e.await tools ms = ({ e with now := e.now + ms }, []) := by
  have hremaining : (clockwork tools).remaining e = 0 := by
    simp [clockwork, hdesks, hcalls]
  unfold await
  split
  · rename_i hms
    rw [hms]
    rfl
  · simp only [advance, Clockwork.runTo, hremaining, Clockwork.run]

/-- A blank cache keeps an answer as it is, or loses it. -/
theorem keepCompiled_blank_cases (h : e.compiled.Blank lifetime) (text : String)
    (answer : Compiler.Answer) :
    ∃ compiled kept, e.keepCompiled text answer = ({ e with compiled }, kept) ∧
      (kept = some answer ∨ kept = none ∧ timeBound ≤ e.now + lifetime) := by
  by_cases hroom : e.now + lifetime < timeBound
  · obtain ⟨compiled, hkeep⟩ := keepCompiled_blank h hroom text answer
    exact ⟨compiled, _, hkeep, .inl rfl⟩
  · have hlate := Nat.le_of_not_lt hroom
    cases answer with
    | error fault => exact ⟨e.compiled, _, rfl, .inl rfl⟩
    | ok outcome =>
      refine ⟨(e.compiled.put e.now text outcome).2, none, ?_, .inr ⟨rfl, hlate⟩⟩
      simp only [keepCompiled, h.put_late text outcome hlate, Option.map_none]

/-- A new engine calls the compiler and has its answer, unless it cannot keep it. -/
theorem Idle.compile (h : e.Idle lifetime) (tools : Toolchain) (text : String) :
    ∃ e' kept, e.compile tools text = (e', [.compile text], kept) ∧
      (kept = some (tools.compile text).value ∨
        kept = none ∧ timeBound ≤ e.now + (tools.compile text).delay + lifetime) ∧
      e'.desks = [] ∧ e'.calls = [] ∧ e'.documents = e.documents := by
  have hawait := await_of_nothing h.desks h.calls tools (tools.compile text).delay
  have hkeeps : ∀ now, ∃ compiled kept,
      ({ e with now } : Engine).keepCompiled text (tools.compile text).value =
        ({ e with now, compiled }, kept) ∧
      (kept = some (tools.compile text).value ∨ kept = none ∧ timeBound ≤ now + lifetime) :=
    fun now => keepCompiled_blank_cases (e := { e with now }) h.compiled text _
  obtain ⟨compiled, kept, hkeep, hkept⟩ := hkeeps (e.now + (tools.compile text).delay)
  unfold Engine.compile
  rw [h.compiled.get]
  simp only [hawait, hkeep]
  exact ⟨_, kept, rfl, hkept, h.desks, h.calls, rfl⟩

/-! ## What it asks -/

theorem Idle.prepareCompletion_some (h : e.Idle lifetime) (tools : Toolchain) {emulation : Emulation}
    (hplan : emulation? (fun text => (tools.compile text).value) text cursor = some emulation)
    (uri : Uri) (trigger : Option String) :
    (∃ e', e.prepareCompletion tools uri text cursor trigger =
      (e', (probed text cursor).map .compile, none)) ∨
    ∃ e', e.prepareCompletion tools uri text cursor trigger =
        (e', (probed text cursor).map .compile,
          some (.ok (some ⟨VirtualDocument.uri uri, emulation.cursor, trigger⟩))) ∧
      e'.desks = [] ∧ e'.calls = [] ∧
      e'.documents = e.documents.publish uri emulation.text := by
  obtain ⟨probe, outcome, hprobe, houtcome, hlocate⟩ := emulation?_eq_some hplan
  have hanswer : (tools.compile probe.text).value = .ok outcome := houtcome
  obtain ⟨e', kept, hcompile, rfl | ⟨rfl, -⟩, hdesks, hcalls, hdocuments⟩ :=
    h.compile tools probe.text
  · right
    rw [hanswer] at hcompile
    simp only [prepareCompletion, hprobe, hcompile, hlocate, probed, hdocuments]
    exact ⟨_, rfl, hdesks, hcalls, rfl⟩
  · left
    simp only [prepareCompletion, hprobe, hcompile, probed]
    exact ⟨e', rfl⟩

theorem Idle.prepareCompletion_none (h : e.Idle lifetime) (tools : Toolchain)
    (hplan : emulation? (fun text => (tools.compile text).value) text cursor = none)
    (uri : Uri) (trigger : Option String) :
    ∃ e' answer, e.prepareCompletion tools uri text cursor trigger =
        (e', (probed text cursor).map .compile, answer) ∧
      ∀ request, answer ≠ some (.ok (some request)) := by
  cases hprobe : Probe.at? text.toList cursor with
  | none =>
    simp only [prepareCompletion, hprobe, probed]
    exact ⟨e, _, rfl, fun request h => by cases h⟩
  | some probe =>
    obtain ⟨e', kept, hcompile, rfl | ⟨rfl, -⟩, -⟩ := h.compile tools probe.text
    · cases hanswer : (tools.compile probe.text).value with
      | error fault =>
        rw [hanswer] at hcompile
        simp only [prepareCompletion, hprobe, hcompile, probed]
        exact ⟨e', _, rfl, fun request h => by cases h⟩
      | ok outcome =>
        obtain ⟨miss, hlocate⟩ := locate_of_none hplan hprobe hanswer
        rw [hanswer] at hcompile
        simp only [prepareCompletion, hprobe, hcompile, hlocate, probed]
        exact ⟨e', _, rfl, fun request h => by cases h⟩
    · simp only [prepareCompletion, hprobe, hcompile, probed]
      exact ⟨e', _, rfl, fun request h => by cases h⟩

variable {σ : Type}

/-- What a new engine does with a completion that comes out in a host text, unless it is lost. -/
theorem Idle.complete_some (h : e.Idle lifetime) (tools : Toolchain) {emulation : Emulation}
    (hplan : emulation? (fun text => (tools.compile text).value) text cursor = some emulation)
    (host : HostService σ) (service : σ) (uri : Uri) (trigger : Option String)
    (hkept : (e.complete tools host service uri text cursor trigger).2.2 ≠ none) :
    (e.complete tools host service uri text cursor trigger).2.1 =
      ((probed text cursor).map .compile).map .engine ++
        [.completion ⟨VirtualDocument.uri uri, emulation.cursor, trigger⟩ (some emulation.text)] ∧
    ∃ now, (e.complete tools host service uri text cursor trigger).1.2 =
      (host.complete service now (e.documents.publish uri emulation.text)
        ⟨VirtualDocument.uri uri, emulation.cursor, trigger⟩).1 := by
  obtain ⟨e', hprepare⟩ | ⟨e', hprepare, hdesks, hcalls, hdocuments⟩ :=
    h.prepareCompletion_some tools hplan uri trigger
  · exact absurd (by simp only [complete, hprepare]) hkept
  · have hawait := fun ms => await_of_nothing hdesks hcalls tools ms
    simp only [complete, hprepare, hawait, hdocuments, VirtualDocument.resolve?_publish, List.map_nil]
    exact ⟨trivial, e'.now, rfl⟩

/-- What it does with one that is lost. -/
theorem Idle.complete_lost (h : e.Idle lifetime) (tools : Toolchain) (host : HostService σ)
    (service : σ) (uri : Uri) (trigger : Option String)
    (hlost : (e.complete tools host service uri text cursor trigger).2.2 = none) :
    (e.complete tools host service uri text cursor trigger).2.1 =
      ((probed text cursor).map .compile).map .engine ∧
    (e.complete tools host service uri text cursor trigger).1.2 = service ∧
    ∃ asked ∈ probed text cursor,
      timeBound ≤ e.now + (tools.compile asked).delay + lifetime := by
  obtain ⟨probe, hprobe, hcompile⟩ :=
    (prepareCompletion_lost_iff uri trigger).mp ((complete_lost_iff host service uri trigger).mp hlost)
  obtain ⟨e', kept, hcompiled, hkept, -⟩ := h.compile tools probe.text
  rw [hcompiled] at hcompile
  obtain rfl : kept = none := hcompile
  obtain hkept | ⟨-, hlate⟩ := hkept
  · cases hkept
  · simp only [complete, prepareCompletion, hprobe, hcompiled, probed]
    exact ⟨rfl, trivial, probe.text, by simp, hlate⟩

/-- What it does with any other. -/
theorem Idle.complete_none (h : e.Idle lifetime) (tools : Toolchain)
    (hplan : emulation? (fun text => (tools.compile text).value) text cursor = none)
    (host : HostService σ) (service : σ) (uri : Uri) (trigger : Option String) :
    (e.complete tools host service uri text cursor trigger).2.1 =
      ((probed text cursor).map .compile).map .engine ∧
    (e.complete tools host service uri text cursor trigger).1.2 = service := by
  obtain ⟨e', answer, hprepare, hnone⟩ := h.prepareCompletion_none tools hplan uri trigger
  rcases answer with _ | fault | _ | request
  · simp only [complete, hprepare, and_self]
  · simp only [complete, hprepare, and_self]
  · simp only [complete, hprepare, and_self]
  · exact absurd rfl (hnone request)

theorem engineEvents_engine (events : List Event) :
    Editor.Server.engineEvents (events.map .engine) = events := by
  simp [Editor.Server.engineEvents, List.filterMap_map]

theorem engineEvents_forwarded (events : List Event) (request : CompletionRequest)
    (text : Option String) :
    Editor.Server.engineEvents (events.map .engine ++ [.completion request text]) = events := by
  have hevents := engineEvents_engine events
  unfold Editor.Server.engineEvents at hevents ⊢
  rw [List.filterMap_append, hevents]
  simp

end Engine

namespace CommandLine

open Engine

/-! ## What the command shows -/

theorem calls_compile (s : Settings) (texts : List String) :
    (texts.map Event.compile).filterMap (Event.call? s) = texts.map (ToolCall.compile s.compiler) := by
  rw [List.filterMap_map, ← List.filterMap_eq_map]
  rfl

/-- A host text and a cursor, as they are shown. -/
def shown (cursor : Position) (text : String) (place : Position) (calls : List ToolCall) : Result :=
  { stdout := text ++ "\n"
    stderr := [s!"cursor: dialect {cursor.line}:{cursor.character} -> host " ++
      s!"{place.line}:{place.character}"]
    calls }

variable {w : World} {s : Settings} {input source : String} {cursor : Position}

theorem probe_of_some (hsource : readSource w input = .ok source) {emulation : Emulation}
    (hplan : emulation? (fun text => (w.programs.compile s.compiler text).value) source cursor =
      some emulation) :
    probe w s input cursor = shown cursor emulation.text emulation.cursor
      ((probed source cursor).map (ToolCall.compile s.compiler)) := by
  obtain ⟨probe, outcome, hprobe, houtcome, hlocate⟩ := emulation?_eq_some hplan
  have hanswer : (w.programs.compile s.compiler probe.text).value = .ok outcome := houtcome
  simp only [CommandLine.probe, hsource, hprobe, hanswer, hlocate, probed]
  rfl

theorem probe_of_none (hsource : readSource w input = .ok source)
    (hplan : emulation? (fun text => (w.programs.compile s.compiler text).value) source cursor =
      none) :
    ∃ failure : Failure, probe w s input cursor =
      failure.result ((probed source cursor).map (ToolCall.compile s.compiler)) := by
  cases hprobe : Probe.at? source.toList cursor with
  | none =>
    simp only [CommandLine.probe, hsource, hprobe, probed]
    exact ⟨_, rfl⟩
  | some probe =>
    cases hanswer : (w.programs.compile s.compiler probe.text).value with
    | error fault =>
      simp only [CommandLine.probe, hsource, hprobe, hanswer, probed]
      exact ⟨_, rfl⟩
    | ok outcome =>
      obtain ⟨miss, hlocate⟩ := locate_of_none hplan hprobe hanswer
      simp only [CommandLine.probe, hsource, hprobe, hanswer, hlocate, probed]
      exact ⟨_, rfl⟩

theorem probe_calls (hsource : readSource w input = .ok source) :
    (probe w s input cursor).calls = (probed source cursor).map (ToolCall.compile s.compiler) := by
  cases hplan : emulation? (fun text => (w.programs.compile s.compiler text).value) source cursor with
  | none =>
    obtain ⟨failure, hresult⟩ := probe_of_none hsource hplan
    rw [hresult]
    rfl
  | some emulation =>
    rw [probe_of_some hsource hplan]
    rfl

theorem toList_place (p : Position) : (s!"{p.line}:{p.character}").toList =
    Text.decimal p.line.toNat ++ ':' :: Text.decimal p.character.toNat := by
  simp [toString, Text.decimal]

theorem colon_not_mem_decimal (n : Nat) : ':' ∉ Text.decimal n := fun h =>
  absurd (Text.isDigit_decimal h) (by decide)

/-- A position is read off what is shown of it: there is no colon among digits. -/
theorem place_injective {p q : Position}
    (h : s!"{p.line}:{p.character}" = s!"{q.line}:{q.character}") : p = q := by
  have hsplit : ∀ p : Position, Text.split ':' (s!"{p.line}:{p.character}").toList =
      [Text.decimal p.line.toNat, Text.decimal p.character.toNat] := by
    intro p
    rw [toList_place, Text.split_append_sep (colon_not_mem_decimal _),
      Text.split_of_not_mem (colon_not_mem_decimal _)]
  have hparts := hsplit p
  rw [h, hsplit q] at hparts
  obtain ⟨hline, hrest⟩ := List.cons.inj hparts
  obtain ⟨hcharacter, -⟩ := List.cons.inj hrest
  cases p
  cases q
  congr 1
  · exact UInt32.toNat_inj.mp (Text.decimal_injective hline.symm)
  · exact UInt32.toNat_inj.mp (Text.decimal_injective hcharacter.symm)

/-- What is shown tells the host text and the cursor. -/
theorem shown_injective {text text' : String} {place place' : Position} {calls calls' : List ToolCall}
    (h : shown cursor text place calls = shown cursor text' place' calls') :
    text = text' ∧ place = place' := by
  obtain ⟨-, htext, hplace, -⟩ := Result.mk.inj h
  obtain ⟨hplace, -⟩ := List.cons.inj hplace
  exact ⟨(String.append_left_inj _).mp htext, place_injective ((String.append_right_inj _).mp hplace)⟩

theorem failure_ne_shown (failure : Failure) (text : String) (place : Position)
    (calls calls' : List ToolCall) : failure.result calls ≠ shown cursor text place calls' :=
  fun heq => by cases congrArg Result.exit heq

/-- **The command shows what a completion asks about.**  Let a file be read, and let a new engine with
the same programs complete at the same cursor of its text.  Let the engine not lose the completion;
it does not if what it compiles expires at a time that the clock can name.

1. The command shows a host text and a cursor if and only if the host language service is asked to
   complete at that cursor of a virtual document whose address leads to that text; it is asked once.
2. The service is asked with a registry in which the address leads there.
3. If the service is asked nothing, it is left alone, and the command fails and shows no text.
4. There is no third case.

The same programs are called with the same texts even if the completion is lost, but then the service
is asked nothing and left alone, whatever the command shows. -/
theorem probe_agrees_with_completion {σ : Type} (w : World) (s : Settings) (input source : String)
    (cursor : Position) (host : HostService σ) (service : σ) (uri : Uri) (trigger : Option String)
    (hsource : readSource w input = .ok source) :
    let result := probe w s input cursor
    let completed :=
      (Engine.start s).complete (w.programs.toolchain s) host service uri source cursor trigger
    let request (place : Position) : CompletionRequest := ⟨VirtualDocument.uri uri, place, trigger⟩
    ((∀ text ∈ probed source cursor,
      (w.programs.compile s.compiler text).delay + s.cacheTtlMs < timeBound) →
      completed.2.2 ≠ none) ∧
    (completed.2.2 ≠ none →
      (∀ text place, result = shown cursor text place result.calls ↔
        contacts completed.2.1 = [.completion (request place) (some text)]) ∧
      (∀ text place, result = shown cursor text place result.calls →
        ∃ now documents, documents.resolve? (request place).uri = some text ∧
          completed.1.2 = (host.complete service now documents (request place)).1) ∧
      (contacts completed.2.1 = [] → completed.1.2 = service ∧
        ∃ failure : Failure, result = failure.result result.calls) ∧
      (contacts completed.2.1 = [] ∨ ∃ text place, result = shown cursor text place result.calls)) ∧
    (completed.2.2 = none → contacts completed.2.1 = [] ∧ completed.1.2 = service) ∧
    result.calls = (Editor.Server.engineEvents completed.2.1).filterMap (Event.call? s) := by
  intro result completed request
  have hidle := idle_start s
  have hcalls : result.calls = (probed source cursor).map (ToolCall.compile s.compiler) :=
    probe_calls hsource
  by_cases hkept : completed.2.2 = none
  · obtain ⟨hseen, hservice, asked, hasked, hlate⟩ :=
      hidle.complete_lost (w.programs.toolchain s) host service uri trigger hkept
    refine ⟨fun hroom => ?_, fun h => absurd hkept h, fun _ => ⟨?_, hservice⟩, ?_⟩
    · have hsoon := hroom asked hasked
      change timeBound ≤ 0 + (w.programs.compile s.compiler asked).delay + s.cacheTtlMs at hlate
      omega
    · rw [hseen]
      exact contacts_engine _
    · rw [hcalls, hseen, engineEvents_engine, calls_compile]
  refine ⟨fun _ => hkept, ?_⟩
  cases hplan : emulation? (fun text => (w.programs.compile s.compiler text).value) source cursor with
  | none =>
    obtain ⟨failure, hresult⟩ := probe_of_none hsource hplan
    obtain ⟨hseen, hservice⟩ :=
      hidle.complete_none (w.programs.toolchain s) hplan host service uri trigger
    have hcontacts : contacts completed.2.1 = [] := by
      rw [hseen]
      exact contacts_engine _
    have hfails : ∀ text place calls, result ≠ shown cursor text place calls :=
      fun text place calls heq => failure_ne_shown failure text place _ calls (hresult.symm.trans heq)
    refine ⟨fun _ => ⟨fun text place => ?_, fun text place heq => ?_, fun _ => ?_, .inl hcontacts⟩,
      fun h => absurd h hkept, ?_⟩
    · rw [hcontacts]
      exact ⟨fun heq => absurd heq (hfails text place _), nofun⟩
    · exact absurd heq (hfails text place _)
    · exact ⟨hservice, failure, by rw [hcalls]; exact hresult⟩
    · rw [hcalls, hseen, engineEvents_engine, calls_compile]
  | some emulation =>
    have hresult := probe_of_some hsource hplan
    obtain ⟨hseen, now, hservice⟩ :=
      hidle.complete_some (w.programs.toolchain s) hplan host service uri trigger hkept
    have hcontacts : contacts completed.2.1 =
        [.completion (request emulation.cursor) (some emulation.text)] := by
      rw [hseen]
      exact contacts_forwarded _ [] _ _
    have hshown : result = shown cursor emulation.text emulation.cursor result.calls := by
      rw [hcalls]
      exact hresult
    have htells : ∀ text place, result = shown cursor text place result.calls →
        emulation.text = text ∧ emulation.cursor = place := by
      intro text place heq
      exact shown_injective (hshown.symm.trans heq)
    refine ⟨fun _ => ⟨fun text place => ?_, fun text place heq => ?_, fun hnone => ?_,
      .inr ⟨_, _, hshown⟩⟩, fun h => absurd h hkept, ?_⟩
    · rw [hcontacts]
      constructor
      · intro heq
        obtain ⟨rfl, rfl⟩ := htells text place heq
        rfl
      · intro heq
        cases heq
        exact hshown
    · obtain ⟨rfl, rfl⟩ := htells text place heq
      exact ⟨now, _, VirtualDocument.resolve?_publish _ _ _, hservice⟩
    · rw [hcontacts] at hnone
      cases hnone
    · rw [hcalls, hseen, engineEvents_forwarded, calls_compile]

/-- A cursor inside a function, which comes out two lines further down. -/
theorem probe_agrees_with_completion_insideFunction :
    let output := Text.Utf8.bytesOf <| "var f;\n\nf = function() \x7b\n  return true;\n\x7d;\n" ++
      "//# sourceMappingURL=data:application/json;base64," ++
      "eyJ2ZXJzaW9uIjozLCJzb3VyY2VzIjpbIiJdLCJtYXBwaW5ncyI6Ijs7O0FBQ0UifQ==\n"
    let programs : Programs :=
      ⟨fun _ _ => .ok ⟨20, ⟨.code 0, output, []⟩, none⟩, fun _ _ => .error .notFound⟩
    let source := "f = ->\n  x = z.\n"
    let w : World := ⟨fun _ => .ok source, programs, none⟩
    let uri : Uri := ⟨"file", "///a.coffee"⟩
    let host : HostService Nat :=
      ⟨fun n _ _ _ => (n + 1, ⟨5, .ok none⟩), fun n _ _ => (n, ⟨0, .ok none⟩),
        fun n _ _ => (n, ⟨0, .ok none⟩)⟩
    let text := "var f;\n\nf = function() \x7b\n  x = z.\n\x7d;"
    readSource w "a.coffee" = .ok source ∧
      (probe w {} "a.coffee" ⟨1, 8⟩).stderr = ["cursor: dialect 1:8 -> host 3:8"] ∧
      contacts ((Engine.start {}).complete (programs.toolchain {}) host 0 uri source ⟨1, 8⟩
        none).2.1 = [.completion ⟨VirtualDocument.uri uri, ⟨3, 8⟩, none⟩ (some text)] := by
  intro output programs source w uri host text
  obtain ⟨hkept, hagrees, -⟩ :=
    probe_agrees_with_completion w {} "a.coffee" source ⟨1, 8⟩ host 0 uri none rfl
  have hshown : probe w {} "a.coffee" ⟨1, 8⟩ =
      shown ⟨1, 8⟩ text ⟨3, 8⟩ (probe w {} "a.coffee" ⟨1, 8⟩).calls := by
    decide +kernel
  refine ⟨rfl, ?_, ((hagrees (hkept (by decide +kernel))).1 text ⟨3, 8⟩).mp hshown⟩
  rw [hshown]
  decide +kernel

end CommandLine

end DialectBridge
