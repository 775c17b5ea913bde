import DialectBridge.Engine.Forward
import DialectBridge.Proofs.Engine.Upkeep
import DialectBridge.Proofs.Text.Lines
import DialectBridge.Proofs.VirtualDocument

/-!
# A completion from end to end

A completion goes from the cursor to a probe, from the probe to a host text, from the map of the host
text to a line of it, and from there to a virtual document, which the host language service is asked
about.  `Landing` is a cursor for which all of this succeeds.

* `Landing.locate` — the place of the probe is found, and the real line put there;
* `prepareCompletion_of_landing`, `prepareCompletion_of_miss` — what is prepared, and what is left
  alone otherwise;
* `completion_end_to_end` — the service is asked once if the cursor lands, and not at all otherwise.
-/

namespace DialectBridge.Engine

open Compiler

/-- A cursor that comes out in a host text: the line it is on exists, its probe compiles, and the map
has a host line for the place of the probe. -/
structure Landing (tools : Toolchain) (e : Engine) (text : String) (cursor : Position) where
  line : List Char
  probe : Probe
  host : String
  map : SourceMap
  n : UInt32
  line_eq : Text.lineAt? text.toList cursor.line.toNat = some line
  probe_eq : Probe.at? text.toList cursor = some probe
  compiled : (e.compile tools probe.text).2.2 = some (.ok (.compiled host map))
  found : map.toHost? probe.position = some n

variable {tools : Toolchain} {e : Engine} {text : String} {cursor : Position}

/-- The host text with the real line in place of the line of the probe. -/
def Landing.document (l : Landing tools e text cursor) : String :=
  String.ofList (Text.joinLines ((Text.split '\n' l.host.toList).set l.n.toNat l.line))

/-- What the service is asked: to complete at the end of that line. -/
def Landing.request (l : Landing tools e text cursor) (uri : Uri) (trigger : Option String) :
    CompletionRequest :=
  ⟨VirtualDocument.uri uri, ⟨l.n, UInt32.ofNat (Text.utf16Length l.line)⟩, trigger⟩

/-- What was asked of the host language service. -/
def contacts (sights : List Sight) : List Sight :=
  sights.filter fun
    | .engine _ => false
    | _ => true

/-! ## Where a cursor lands -/

/-- The line of a probe is the cursor line. -/
theorem line_of_probe {probe : Probe} {line : List Char}
    (hline : Text.lineAt? text.toList cursor.line.toNat = some line)
    (hprobe : Probe.at? text.toList cursor = some probe) : probe.line.toList = line := by
  obtain ⟨raw, hraw, rfl⟩ := Option.map_eq_some_iff.mp hline
  rw [Probe.at?, hraw, Option.map_some, Option.some.injEq] at hprobe
  rw [← hprobe, String.toList_ofList]

theorem exists_line_of_probe {probe : Probe} (hprobe : Probe.at? text.toList cursor = some probe) :
    ∃ line, Text.lineAt? text.toList cursor.line.toNat = some line := by
  obtain ⟨raw, hraw, -⟩ := Option.map_eq_some_iff.mp hprobe
  exact ⟨Text.dropReturn raw, by rw [Text.lineAt?, hraw, Option.map_some]⟩

/-- A host line that is found is one of the lines of the map. -/
theorem toHost?_lt {map : SourceMap} {p : Position} {n : UInt32} (h : map.toHost? p = some n) :
    n.toNat < map.lines.length := by
  obtain ⟨k, hk, rfl⟩ := Option.map_eq_some_iff.mp h
  have hlt : k < map.lines.length := (List.findIdx?_eq_some_iff_getElem.mp hk).1
  exact Nat.lt_of_le_of_lt (Nat.mod_le _ _) hlt

/-- If the map fits, the host line is one of the lines of the host text. -/
theorem toHost?_lt_length {host : List Char} {map : SourceMap} {p : Position} {n : UInt32}
    (hfitted : map.lines.length = Text.lineCount host) (h : map.toHost? p = some n) :
    n.toNat < (Text.split '\n' host).length := by
  rw [Text.length_split_newline, ← hfitted]
  exact toHost?_lt h

theorem Landing.lt_length (l : Landing tools e text cursor)
    (hfits : ∀ answer, (e.compile tools l.probe.text).2.2 = some answer → Fits answer) :
    l.n.toNat < (Text.split '\n' l.host.toList).length :=
  toHost?_lt_length (hfits _ l.compiled _ rfl) l.found

/-- **The place of the probe is found**, and the real line put there. -/
theorem Landing.locate (l : Landing tools e text cursor)
    (hfits : ∀ answer, (e.compile tools l.probe.text).2.2 = some answer → Fits answer) :
    l.probe.locate (.compiled l.host l.map) =
      .ok ⟨l.document, ⟨l.n, UInt32.ofNat (Text.utf16Length l.line)⟩⟩ := by
  have hemulate : emulate? l.host.toList l.n l.probe.line.toList =
      some ⟨l.document, ⟨l.n, UInt32.ofNat (Text.utf16Length l.line)⟩⟩ := by
    rw [line_of_probe l.line_eq l.probe_eq, emulate?, if_pos (l.lt_length hfits)]
    rfl
  simp only [Probe.locate, l.found, hemulate]

/-- The lines of the virtual document. -/
theorem Landing.split_document (l : Landing tools e text cursor) :
    Text.split '\n' l.document.toList = (Text.split '\n' l.host.toList).set l.n.toNat l.line := by
  rw [Landing.document, String.toList_ofList]
  exact Text.split_joinLines_set (Text.newline_not_mem_lineAt? l.line_eq) _ _

/-! ## What is prepared -/

theorem prepareCompletion_of_landing (htools : tools.Fitted) (he : e.Fitted)
    (l : Landing tools e text cursor) (uri : Uri) (trigger : Option String) :
    e.prepareCompletion tools uri text cursor trigger =
      ({ (e.compile tools l.probe.text).1 with documents := e.documents.publish uri l.document },
        (e.compile tools l.probe.text).2.1, some (.ok (some (l.request uri trigger)))) := by
  obtain ⟨hkept, hfits⟩ := kept_compile htools he l.probe.text
  have hlocate := l.locate hfits
  have hcompiled := l.compiled
  have hdocuments := hkept.documents
  rcases hcompile : e.compile tools l.probe.text with ⟨e', seen, answer⟩
  rw [hcompile] at hcompiled hdocuments
  cases hcompiled
  simp only [prepareCompletion, l.probe_eq, hcompile, hlocate]
  rw [show e'.documents = e.documents from hdocuments]
  rfl

theorem nonempty_landing {probe : Probe} {outcome : Outcome} {emulation : Emulation}
    (hprobe : Probe.at? text.toList cursor = some probe)
    (hcompiled : (e.compile tools probe.text).2.2 = some (.ok outcome))
    (hlocate : probe.locate outcome = .ok emulation) : Nonempty (Landing tools e text cursor) := by
  obtain ⟨line, hline⟩ := exists_line_of_probe hprobe
  cases outcome with
  | rejected diagnostics => cases hlocate
  | compiled host map =>
    cases hfound : map.toHost? probe.position with
    | none =>
      -- a probe without a host line is not located
      simp only [Probe.locate, hfound, reduceCtorEq] at hlocate
    | some n => exact ⟨⟨line, probe, host, map, n, hline, hprobe, hcompiled, hfound⟩⟩

/-- Nothing is prepared for a cursor that does not land. -/
theorem prepareCompletion_of_miss (htools : tools.Fitted) (he : e.Fitted)
    (hmisses : ¬Nonempty (Landing tools e text cursor)) (uri : Uri) (trigger : Option String) :
    Kept e (e.prepareCompletion tools uri text cursor trigger).1 ∧
      ∀ request,
        (e.prepareCompletion tools uri text cursor trigger).2.2 ≠ some (.ok (some request)) := by
  cases hprobe : Probe.at? text.toList cursor with
  | none =>
    simp only [prepareCompletion, hprobe]
    exact ⟨.refl he, nofun⟩
  | some probe =>
    have hkept := (kept_compile htools he probe.text).1
    have hnone : ∀ outcome emulation, (e.compile tools probe.text).2.2 = some (.ok outcome) →
        probe.locate outcome ≠ .ok emulation :=
      fun _ _ hcompiled hlocate => hmisses (nonempty_landing hprobe hcompiled hlocate)
    rcases hcompile : e.compile tools probe.text with ⟨e', seen, _ | fault | outcome⟩ <;>
      rw [hcompile] at hkept hnone <;> simp only [prepareCompletion, hprobe, hcompile]
    · exact ⟨hkept, nofun⟩
    · exact ⟨hkept, nofun⟩
    · cases hlocate : probe.locate outcome with
      | error miss => exact ⟨hkept, nofun⟩
      | ok emulation => exact absurd hlocate (hnone outcome emulation rfl)

/-- A fault is a fault of the compiler. -/
theorem prepareCompletion_fault_iff (uri : Uri) (trigger : Option String) (fault : Fault) :
    (e.prepareCompletion tools uri text cursor trigger).2.2 = some (.error fault) ↔
      ∃ probe, Probe.at? text.toList cursor = some probe ∧
        (e.compile tools probe.text).2.2 = some (.error fault) := by
  cases hprobe : Probe.at? text.toList cursor with
  | none => simp [prepareCompletion, hprobe]
  | some probe =>
    rcases hcompile : e.compile tools probe.text with ⟨e', seen, _ | fault' | outcome⟩
    · simp [prepareCompletion, hprobe, hcompile]
    · simp [prepareCompletion, hprobe, hcompile]
    · cases hlocate : probe.locate outcome <;>
        simp [prepareCompletion, hprobe, hcompile, hlocate]

/-- What is lost was lost in the compilation. -/
theorem prepareCompletion_lost_iff (uri : Uri) (trigger : Option String) :
    (e.prepareCompletion tools uri text cursor trigger).2.2 = none ↔
      ∃ probe, Probe.at? text.toList cursor = some probe ∧
        (e.compile tools probe.text).2.2 = none := by
  cases hprobe : Probe.at? text.toList cursor with
  | none => simp [prepareCompletion, hprobe]
  | some probe =>
    rcases hcompile : e.compile tools probe.text with ⟨e', seen, _ | fault | outcome⟩
    · simp [prepareCompletion, hprobe, hcompile]
    · simp [prepareCompletion, hprobe, hcompile]
    · cases hlocate : probe.locate outcome <;>
        simp [prepareCompletion, hprobe, hcompile, hlocate]

/-! ## What is asked -/

variable {σ : Type}

theorem contacts_engine (seen : List Event) : contacts (seen.map .engine) = [] := by
  simp [contacts]

theorem contacts_forwarded (seen later : List Event) (request : CompletionRequest)
    (document : Option String) :
    contacts (seen.map .engine ++ .completion request document :: later.map .engine) =
      [.completion request document] := by
  have hseen := contacts_engine seen
  have hlater := contacts_engine later
  unfold contacts at hseen hlater ⊢
  rw [List.filter_append, hseen, List.filter_cons_of_pos rfl, hlater, List.nil_append]

/-- The service is asked once about a cursor that lands. -/
theorem complete_of_landing (htools : tools.Fitted) (he : e.Fitted) (host : HostService σ) (h : σ)
    (l : Landing tools e text cursor) (uri : Uri) (trigger : Option String) :
    contacts (e.complete tools host h uri text cursor trigger).2.1 =
      [.completion (l.request uri trigger) (some l.document)] ∧
    (e.complete tools host h uri text cursor trigger).1.2 =
      (host.complete h (e.compile tools l.probe.text).1.now (e.documents.publish uri l.document)
        (l.request uri trigger)).1 ∧
    (e.complete tools host h uri text cursor trigger).1.1.documents =
      e.documents.publish uri l.document ∧
    (e.complete tools host h uri text cursor trigger).1.1.Fitted := by
  have hkept := (kept_compile htools he l.probe.text).1
  have hprepare := prepareCompletion_of_landing htools he l uri trigger
  have hresolve : (e.documents.publish uri l.document).resolve? (l.request uri trigger).uri =
      some l.document := VirtualDocument.resolve?_publish _ _ _
  -- the documents play no part in the maps, so publishing one leaves them fitting
  have hpublished : Fitted { (e.compile tools l.probe.text).1 with
      documents := e.documents.publish uri l.document } :=
    ⟨hkept.fitted.compiled, hkept.fitted.calls⟩
  have hawait := fun ms => kept_await htools hpublished ms
  simp only [complete, hprepare, hresolve]
  exact ⟨contacts_forwarded .., trivial, (hawait _).documents, (hawait _).fitted⟩

/-- Nobody is asked about any other cursor. -/
theorem complete_of_miss (htools : tools.Fitted) (he : e.Fitted) (host : HostService σ) (h : σ)
    (hmisses : ¬Nonempty (Landing tools e text cursor)) (uri : Uri) (trigger : Option String) :
    contacts (e.complete tools host h uri text cursor trigger).2.1 = [] ∧
    (e.complete tools host h uri text cursor trigger).1.2 = h ∧
    Kept e (e.complete tools host h uri text cursor trigger).1.1 := by
  obtain ⟨hkept, hnone⟩ := prepareCompletion_of_miss htools he hmisses uri trigger
  rcases hprepare : e.prepareCompletion tools uri text cursor trigger with
    ⟨e', seen, _ | fault | _ | request⟩ <;> rw [hprepare] at hkept hnone <;>
    simp only [complete, hprepare]
  · exact ⟨contacts_engine seen, trivial, hkept⟩
  · exact ⟨contacts_engine seen, trivial, hkept⟩
  · exact ⟨contacts_engine seen, trivial, hkept⟩
  · exact absurd rfl (hnone request)

theorem complete_fault_iff (host : HostService σ) (h : σ) (uri : Uri) (trigger : Option String)
    (fault : Fault) :
    (e.complete tools host h uri text cursor trigger).2.2 = some (.error fault) ↔
      (e.prepareCompletion tools uri text cursor trigger).2.2 = some (.error fault) := by
  unfold complete
  rcases e.prepareCompletion tools uri text cursor trigger with ⟨e', seen, _ | _ | _ | request⟩ <;>
    simp

theorem complete_lost_iff (host : HostService σ) (h : σ) (uri : Uri) (trigger : Option String) :
    (e.complete tools host h uri text cursor trigger).2.2 = none ↔
      (e.prepareCompletion tools uri text cursor trigger).2.2 = none := by
  unfold complete
  rcases e.prepareCompletion tools uri text cursor trigger with ⟨e', seen, _ | _ | _ | request⟩ <;>
    simp

/-- **A completion from end to end.**  Let the maps of the compiler fit its host texts, and those that
the engine keeps.

1. The host language service is asked if and only if the cursor line exists, its probe compiles and
   the map has a host line for the place of the probe.
2. It is asked once then, to complete at the end of the cursor line in that host line; so in the
   column of the cursor if the cursor is at the end of its line.  The address it is given leads to the
   host text with the cursor line in that place and all other lines as they were.
3. Otherwise the service is left alone, and so are the documents.
4. The result is a fault if and only if compiling the probe is, and there is no result if and only if
   compiling the probe has none.
5. The maps go on to fit.  They do so in a new engine, and whatever the programs are that it calls. -/
theorem completion_end_to_end (tools : Toolchain) (host : HostService σ) (e : Engine) (h : σ)
    (uri : Uri) (text : String) (cursor : Position) (trigger : Option String)
    (htools : tools.Fitted) (he : e.Fitted) :
    (contacts (e.complete tools host h uri text cursor trigger).2.1 ≠ [] ↔
      Nonempty (Landing tools e text cursor)) ∧
    (∀ l : Landing tools e text cursor,
      contacts (e.complete tools host h uri text cursor trigger).2.1 =
        [.completion (l.request uri trigger) (some l.document)] ∧
      (e.complete tools host h uri text cursor trigger).1.2 =
        (host.complete h (e.compile tools l.probe.text).1.now (e.documents.publish uri l.document)
          (l.request uri trigger)).1 ∧
      (e.complete tools host h uri text cursor trigger).1.1.documents =
        e.documents.publish uri l.document ∧
      (cursor.character.toNat = Text.utf16Length l.line →
        (l.request uri trigger).position.character = cursor.character) ∧
      (e.documents.publish uri l.document).resolve? (l.request uri trigger).uri = some l.document ∧
      l.n.toNat < (Text.split '\n' l.host.toList).length ∧
      Text.split '\n' l.document.toList =
        (Text.split '\n' l.host.toList).set l.n.toNat l.line) ∧
    (¬Nonempty (Landing tools e text cursor) →
      contacts (e.complete tools host h uri text cursor trigger).2.1 = [] ∧
      (e.complete tools host h uri text cursor trigger).1.2 = h ∧
      (e.complete tools host h uri text cursor trigger).1.1.documents = e.documents) ∧
    (∀ fault, (e.complete tools host h uri text cursor trigger).2.2 = some (.error fault) ↔
      ∃ probe, Probe.at? text.toList cursor = some probe ∧
        (e.compile tools probe.text).2.2 = some (.error fault)) ∧
    ((e.complete tools host h uri text cursor trigger).2.2 = none ↔
      ∃ probe, Probe.at? text.toList cursor = some probe ∧
        (e.compile tools probe.text).2.2 = none) ∧
    (e.complete tools host h uri text cursor trigger).1.1.Fitted ∧
    (∀ (p : Programs) (settings : Settings),
      (p.toolchain settings).Fitted ∧ (start settings).Fitted) := by
  have hlands := fun l : Landing tools e text cursor =>
    complete_of_landing htools he host h l uri trigger
  have hmisses := fun hmiss : ¬Nonempty (Landing tools e text cursor) =>
    complete_of_miss htools he host h hmiss uri trigger
  refine ⟨⟨?_, ?_⟩, ?_, ?_, ?_, ?_, ?_, ?_⟩
  · intro hcontacts
    by_contra hmiss
    exact hcontacts (hmisses hmiss).1
  · rintro ⟨l⟩
    rw [(hlands l).1]
    nofun
  · intro l
    obtain ⟨hcontacts, hstate, hdocuments, -⟩ := hlands l
    refine ⟨hcontacts, hstate, hdocuments, ?_, VirtualDocument.resolve?_publish _ _ _,
      l.lt_length (kept_compile htools he l.probe.text).2, l.split_document⟩
    intro hend
    show UInt32.ofNat (Text.utf16Length l.line) = cursor.character
    rw [← hend, UInt32.ofNat_toNat]
  · intro hmiss
    obtain ⟨hcontacts, hstate, hkept⟩ := hmisses hmiss
    exact ⟨hcontacts, hstate, hkept.documents⟩
  · intro fault
    exact (complete_fault_iff host h uri trigger fault).trans
      (prepareCompletion_fault_iff uri trigger fault)
  · exact (complete_lost_iff host h uri trigger).trans (prepareCompletion_lost_iff uri trigger)
  · by_cases hlanding : Nonempty (Landing tools e text cursor)
    · obtain ⟨l⟩ := hlanding
      exact (hlands l).2.2.2
    · exact (hmisses hlanding).2.2.fitted
  · intro p settings
    exact ⟨p.toolchain_fitted settings, start_fitted settings⟩

/-- A half-typed line behind a line that the compiler moves down by one. -/
def indentedText : String := "f = ->\n  con"

def movingTools : Toolchain where
  compile _ := ⟨0, .ok (.compiled "var f;\nf = () =>\n  true;\nf;"
    ⟨[[], [⟨0, 0, 0⟩], [⟨2, 1, 2⟩], []]⟩)⟩
  verify _ := ⟨0, .ok []⟩

def silentHost : HostService Nat where
  complete asked _ _ _ := (asked + 1, ⟨0, .ok none⟩)
  definition asked _ _ := (asked, ⟨0, .ok none⟩)
  hover asked _ _ := (asked, ⟨0, .ok none⟩)

theorem completion_end_to_end_indentedText :
    contacts (complete movingTools silentHost (.start default) 0 ⟨"file", "///a.brew"⟩ indentedText
      ⟨1, 5⟩ none).2.1 =
        [.completion ⟨VirtualDocument.uri ⟨"file", "///a.brew"⟩, ⟨2, 5⟩, none⟩
          (some "var f;\nf = () =>\n  con\nf;")] ∧
      (complete movingTools silentHost (.start default) 0 ⟨"file", "///a.brew"⟩ indentedText
        ⟨1, 5⟩ none).1.2 = 1 := by
  have htools : movingTools.Fitted := by
    rintro text _ ⟨⟩
    show 4 = Text.lineCount _
    decide +kernel
  let l : Landing movingTools (.start default) indentedText ⟨1, 5⟩ :=
    { line := "  con".toList
      probe := ⟨"f = ->\n  true", ⟨1, 2⟩, "  con"⟩
      host := "var f;\nf = () =>\n  true;\nf;"
      map := ⟨[[], [⟨0, 0, 0⟩], [⟨2, 1, 2⟩], []]⟩
      n := 2
      line_eq := by decide +kernel
      probe_eq := by decide +kernel
      compiled := by decide +kernel
      found := by decide +kernel }
  obtain ⟨-, hlands, -⟩ := completion_end_to_end movingTools silentHost (.start default) 0
    ⟨"file", "///a.brew"⟩ indentedText ⟨1, 5⟩ none htools (start_fitted default)
  obtain ⟨hcontacts, hstate, -⟩ := hlands l
  have hdocument : l.document = "var f;\nf = () =>\n  con\nf;" := by decide +kernel
  rw [hdocument] at hcontacts
  exact ⟨hcontacts, hstate⟩

end DialectBridge.Engine
