import DialectBridge.Engine.Forward
import DialectBridge.Proofs.Engine.Instant
import DialectBridge.Proofs.Pipeline.Settling

/-!
# Documents do not interfere

Documents share the caches of one engine.  With programs that are functions of their text and answer
at once, what is told of a document, and when, depends on its own edits and on its closing only: it
does not matter what other documents there are, which texts they share with it, for which completions
they ask, and how long results are kept, as long as the clock can name the times they expire at.

* `Request` — what is asked of an engine;
* `timeline` — all that is seen of an engine with requests at their times;
* `heard` — what a document's own inputs lead to;
* `told_timeline` — what is told of a document in a timeline;
* `documents_apart` — it is what would be told of the document alone.
-/

namespace DialectBridge.Engine

open Pipeline

/-- What is asked of an engine. -/
inductive Request where
  | edit (sid : SessionId) (text : String)
  | close (sid : SessionId)
  | complete (uri : Uri) (text : String) (cursor : Position) (trigger : Option String)
  deriving DecidableEq, Repr

namespace Request

def serve (tools : Toolchain) (e : Engine) : Request → Engine × List Event
  | .edit sid text => (e.edit sid text, [])
  | .close sid => (e.close sid, [])
  | .complete uri text cursor trigger =>
    let (e, seen, _) := e.prepareCompletion tools uri text cursor trigger
    (e, seen)

/-- The texts that a request brings to the compiler. -/
def texts : Request → List String
  | .edit _ text => [text]
  | .close _ => []
  | .complete _ text cursor _ => (Probe.at? text.toList cursor).toList.map (·.text)

/-- What a request does to a document. -/
def input? (document : SessionId) : Request → Option Input
  | .edit sid text => if sid = document then some (.edit text) else none
  | .close sid => if sid = document then some .close else none
  | .complete _ _ _ _ => none

/-- A request changes a document. -/
def changes (document : SessionId) (request : Request) : Bool :=
  (request.input? document).isSome

end Request

/-- Lets time pass up to a time; what is seen comes with its time. -/
def advanceTo (tools : Toolchain) (e : Engine) (time : Nat) : Engine × List (Nat × Event) :=
  ((e.advance tools (time - e.now)).1,
    ((clockwork tools).stamped.runTo (e.now + (time - e.now)) e).2)

/-- All that is seen of an engine up to a time, with requests at their times. -/
def timeline (tools : Toolchain) (limit : Nat) : Engine → List (Nat × Request) → List (Nat × Event)
  | e, [] => (e.advanceTo tools limit).2
  | e, (time, request) :: later =>
    let (e, seen) := e.advanceTo tools time
    let (e, shown) := request.serve tools e
    seen ++ shown.map (time, ·) ++ timeline tools limit e later

/-- What is done to a document. -/
def inputsOf (document : SessionId) (requests : List (Nat × Request)) : List (Nat × Input) :=
  requests.filterMap fun entry => (entry.2.input? document).map (entry.1, ·)

/-- What an input at a time leads to, if nothing comes after it. -/
def inputTells (i : Instant) (settings : Settings) (time : Nat) : Input → List (Nat × Announcement)
  | .edit text => compileTells i settings (time + settings.compileDebounceMs) text
  | .close => []

/-- What is told of a document, input by input: what each leads to up to the next. -/
def heard (i : Instant) (settings : Settings) (document : SessionId) (limit : Nat) :
    List (Nat × Input) → List (Nat × Event)
  | [] => []
  | (time, input) :: later =>
    (tellsOf document (inputTells i settings time input)).filter
        (fun seen => seen.1 ≤ upTo limit later) ++
      heard i settings document limit later

variable {i : Instant} {settings : Settings} {texts : List String} {e : Engine}
  {sid document : SessionId}
  {ahead : List (Nat × Event)} {limit time : Nat}

/-! ## Time passes -/

theorem Foreseen.sorted (h : Foreseen i settings texts document e ahead) :
    ahead.Pairwise fun a b => a.1 ≤ b.1 := by
  obtain ⟨-, told, hrested, rfl⟩ := h
  exact List.pairwise_map.mpr hrested.awaits.sorted

theorem Foreseen.advanceTo (h : Foreseen i settings texts document e ahead) (hnow : e.now ≤ time)
    (hroom : time + settings.cacheTtlMs < timeBound) :
    ((e.advanceTo i.tools time).2.filter fun seen => seen.2.tells document) =
        ahead.filter (fun seen => seen.1 ≤ time) ∧
      Foreseen i settings texts document (e.advanceTo i.tools time).1
        (ahead.filter fun seen => time < seen.1) ∧
      (e.advanceTo i.tools time).1.now = time := by
  have htime : e.now + (time - e.now) = time := by omega
  obtain ⟨hseen, hrest, -⟩ :=
    (foreseen_foretells i settings texts document hroom).run h (Nat.le_refl _)
  have hstate := ((clockwork i.tools).run_stamped time ((clockwork i.tools).remaining e) e).1
  unfold Engine.advanceTo advance
  rw [htime]
  refine ⟨hseen, ?_, rfl⟩
  rw [hstate] at hrest
  obtain ⟨htended, told, hrested, htold⟩ := hrest
  exact ⟨⟨htended.settings_eq, htended.calls, htended.keyed, htended.desks, htended.compiled,
    htended.verified⟩, told, hrested, htold⟩

/-- Time may pass at once or bit by bit. -/
theorem filter_append_filter (h : ahead.Pairwise fun a b => a.1 ≤ b.1) (hle : time ≤ limit) :
    ahead.filter (fun seen => seen.1 ≤ time) ++
        (ahead.filter fun seen => time < seen.1).filter (fun seen => seen.1 ≤ limit) =
      ahead.filter fun seen => seen.1 ≤ limit := by
  induction ahead with
  | nil => rfl
  | cons seen ahead ih =>
    obtain ⟨hfirst, hrest⟩ := List.pairwise_cons.mp h
    by_cases hseen : seen.1 ≤ time
    · have hlimit : seen.1 ≤ limit := Nat.le_trans hseen hle
      have hnot : ¬time < seen.1 := Nat.not_lt.mpr hseen
      simp [hseen, hlimit, hnot, ← ih hrest]
    · -- nothing later is due in time either
      have hnone : (seen :: ahead).filter (fun seen => seen.1 ≤ time) = [] := by
        refine List.filter_eq_nil_iff.mpr fun other hother => ?_
        rcases List.mem_cons.mp hother with rfl | hother
        · simpa using hseen
        · have := hfirst other hother
          simp
          omega
      have hall : (seen :: ahead).filter (fun seen => time < seen.1) = seen :: ahead := by
        refine List.filter_eq_self.mpr fun other hother => ?_
        rcases List.mem_cons.mp hother with rfl | hother
        · simpa using hseen
        · have := hfirst other hother
          simp
          omega
      rw [hnone, hall, List.nil_append]

/-! ## Requests -/

/-- A document's desk is put in its place, by an input. -/
theorem Foreseen.put (h : Foreseen i settings texts document e ahead) {d : Desk} {input : Input}
    (hd : Rested i settings texts d (inputTells i settings time input)) :
    Foreseen i settings texts document (e.put sid d)
      (match if sid = document then some input else none with
        | some input => tellsOf document (inputTells i settings time input)
        | none => ahead) := by
  obtain ⟨htended, told, hrested, rfl⟩ := h
  by_cases hsid : sid = document
  · subst hsid
    rw [if_pos rfl]
    refine ⟨htended.put hd, _, ?_, rfl⟩
    rwa [desk_put]
  · rw [if_neg hsid]
    refine ⟨htended.put hd, told, ?_, rfl⟩
    rwa [desk_put_of_ne (Ne.symm hsid)]

theorem Tended.edit (h : Tended i settings texts e) (sid : SessionId) {text : String}
    (htext : text ∈ texts) :
    ∃ d, e.edit sid text = e.put sid d ∧
      Rested i settings texts d (inputTells i settings e.now (.edit text)) := by
  obtain ⟨told, hrested⟩ := h.rested sid
  refine ⟨(e.desk sid).edit e.now text, rfl, hrested.runs, hrested.delays, ?_⟩
  have hdelay : (e.desk sid).session.compileTimer.delay = settings.compileDebounceMs :=
    hrested.delays.1
  rw [inputTells, ← hdelay]
  exact .armed rfl rfl htext

theorem Tended.close (h : Tended i settings texts e) (sid : SessionId) :
    ∃ d, e.close sid = e.put sid d ∧
      Rested i settings texts d (inputTells i settings e.now .close) := by
  obtain ⟨told, hrested⟩ := h.rested sid
  exact ⟨{ e.desk sid with session := (e.desk sid).session.close }, rfl, hrested.runs,
    hrested.delays, .rest rfl rfl⟩

/-- A compilation changes nothing but the cache of compiled texts, which adds nothing of its own. -/
theorem compile_instant
    (h : e.compiled.Serves settings.cacheTtlMs (fun text => (i.compile text).toOption) texts)
    {text : String} (htext : text ∈ texts) (hroom : e.now + settings.cacheTtlMs < timeBound) :
    ∃ compiled seen answer, e.compile i.tools text = ({ e with compiled }, seen, some answer) ∧
      compiled.Serves settings.cacheTtlMs (fun text => (i.compile text).toOption) texts ∧
      ∀ document, seen.filter (Event.tells document) = [] := by
  have hserves := h.get e.now text
  unfold compile
  rcases hget : e.compiled.get e.now text with ⟨hit | _ | _, compiled⟩
  · rw [hget] at hserves
    refine ⟨compiled, [], .ok hit, ?_, hserves, fun _ => rfl⟩
    rfl
  · rw [hget] at hserves
    obtain ⟨kept, hkept, hkeep⟩ := keepCompiled_eq (e := { e with compiled }) hserves htext hroom
    refine ⟨kept, [.compile text], i.compile text, ?_, hkept, fun _ => rfl⟩
    simp only [Instant.tools, await, if_true, hkeep]
  · exact absurd (congrArg Prod.fst hget) (Guarded.get_ne_failed h.whole)

/-- A completion leaves the desks alone, and the cache of compiled texts adds nothing of its own. -/
theorem Foreseen.complete (h : Foreseen i settings texts document e ahead) {text : String}
    {cursor : Position} (uri : Uri) (trigger : Option String)
    (htext : ∀ probe, Probe.at? text.toList cursor = some probe → probe.text ∈ texts)
    (hroom : e.now + settings.cacheTtlMs < timeBound) :
    ((e.prepareCompletion i.tools uri text cursor trigger).2.1.filter (Event.tells document)) = [] ∧
      (e.prepareCompletion i.tools uri text cursor trigger).1.now = e.now ∧
      Foreseen i settings texts document (e.prepareCompletion i.tools uri text cursor trigger).1
        ahead := by
  unfold prepareCompletion
  cases hprobe : Probe.at? text.toList cursor with
  | none => exact ⟨rfl, rfl, h⟩
  | some probe =>
    obtain ⟨htended, told, hrested, rfl⟩ := h
    obtain ⟨compiled, seen, answer, hcompile, hserves, hseen⟩ :=
      compile_instant htended.compiled (htext probe hprobe) hroom
    -- whatever comes of the compilation, only the cache and the virtual documents are touched
    have hleft : ∀ documents, Foreseen i settings texts document
        { e with compiled, documents } (tellsOf document told) := fun _ =>
      ⟨⟨htended.settings_eq, htended.calls, htended.keyed, htended.desks, hserves,
        htended.verified⟩, told, hrested, rfl⟩
    simp only [hcompile]
    cases answer with
    | error fault => exact ⟨hseen document, rfl, hleft e.documents⟩
    | ok outcome =>
      simp only
      split
      · exact ⟨hseen document, rfl, hleft e.documents⟩
      · exact ⟨hseen document, rfl, hleft _⟩

/-- **What a request does to what is going to be told of a document.** -/
theorem Foreseen.serve (h : Foreseen i settings texts document e ahead) {request : Request}
    (htexts : ∀ text ∈ request.texts, text ∈ texts)
    (hroom : e.now + settings.cacheTtlMs < timeBound) :
    ((request.serve i.tools e).2.filter (Event.tells document)) = [] ∧
      (request.serve i.tools e).1.now = e.now ∧
      Foreseen i settings texts document (request.serve i.tools e).1
        (match request.input? document with
          | some input => tellsOf document (inputTells i settings e.now input)
          | none => ahead) := by
  cases request with
  | edit sid text =>
    obtain ⟨d, hedit, hrested⟩ := h.1.edit sid (htexts text (List.mem_singleton_self _))
    refine ⟨rfl, rfl, ?_⟩
    rw [Request.serve, hedit, Request.input?]
    exact h.put hrested
  | close sid =>
    obtain ⟨d, hclose, hrested⟩ := h.1.close sid
    refine ⟨rfl, rfl, ?_⟩
    rw [Request.serve, hclose, Request.input?]
    exact h.put hrested
  | complete uri text cursor trigger =>
    refine h.complete uri trigger (fun probe hprobe => htexts _ ?_) hroom
    simp [Request.texts, hprobe]

/-! ## A whole timeline -/

theorem timeline_cons (tools : Toolchain) (limit time : Nat) (e : Engine) (request : Request)
    (later : List (Nat × Request)) :
    timeline tools limit e ((time, request) :: later) =
      (e.advanceTo tools time).2 ++
          (request.serve tools (e.advanceTo tools time).1).2.map (time, ·) ++
        timeline tools limit (request.serve tools (e.advanceTo tools time).1).1 later :=
  rfl

theorem upTo_inputsOf {requests : List (Nat × Request)} (hlimit : time ≤ limit)
    (hlater : ∀ entry ∈ requests, time ≤ entry.1) :
    time ≤ upTo limit (inputsOf document requests) := by
  cases hinputs : inputsOf document requests with
  | nil => exact hlimit
  | cons first rest =>
    have hmem : first ∈ inputsOf document requests := by rw [hinputs]; exact List.mem_cons_self
    obtain ⟨entry, hentry, hinput⟩ := List.mem_filterMap.mp hmem
    obtain ⟨input, -, rfl⟩ := Option.map_eq_some_iff.mp hinput
    exact hlater entry hentry

/-- **What is told of a document in a timeline** is what its own inputs lead to. -/
theorem told_timeline {requests : List (Nat × Request)}
    (h : Foreseen i settings texts document e ahead)
    (hsorted : requests.Pairwise fun a b => a.1 ≤ b.1)
    (hnow : ∀ entry ∈ requests, e.now ≤ entry.1) (hend : e.now ≤ limit)
    (hroom : limit + settings.cacheTtlMs < timeBound)
    (hlimit : ∀ entry ∈ requests, entry.1 ≤ limit)
    (htexts : ∀ entry ∈ requests, ∀ text ∈ entry.2.texts, text ∈ texts) :
    ((timeline i.tools limit e requests).filter fun seen => seen.2.tells document) =
      ahead.filter (fun seen => seen.1 ≤ upTo limit (inputsOf document requests)) ++
        heard i settings document limit (inputsOf document requests) := by
  induction requests generalizing e ahead with
  | nil =>
    rw [timeline, inputsOf, List.filterMap_nil, heard, List.append_nil]
    exact (h.advanceTo hend hroom).1
  | cons entry later ih =>
    obtain ⟨time, request⟩ := entry
    obtain ⟨hfirst, hrest⟩ := List.pairwise_cons.mp hsorted
    have hle : time ≤ limit := hlimit _ List.mem_cons_self
    obtain ⟨hseen, hpassed, hclock⟩ := h.advanceTo (hnow _ List.mem_cons_self) (by omega)
    obtain ⟨hshown, htime, hserved⟩ := hpassed.serve (htexts _ List.mem_cons_self) (by omega)
    rw [hclock] at htime
    have hlater := ih hserved hrest (by rw [htime]; exact hfirst)
      (by rw [htime]; exact hle)
      (fun entry hentry => hlimit entry (List.mem_cons_of_mem _ hentry))
      (fun entry hentry => htexts entry (List.mem_cons_of_mem _ hentry))
    have hsilent : (((request.serve i.tools (e.advanceTo i.tools time).1).2.map (time, ·)).filter
        fun seen => seen.2.tells document) = [] := by
      rw [List.filter_map, Function.comp_def, hshown, List.map_nil]
    rw [timeline_cons, List.filter_append, List.filter_append, hseen, hsilent, List.append_nil,
      hlater]
    cases hinput : request.input? document with
    | some input =>
      -- an input of the document: what was ahead is told up to its time
      have hinputs : inputsOf document ((time, request) :: later) =
          (time, input) :: inputsOf document later := by simp [inputsOf, hinput]
      rw [hinputs, heard, hclock]
      rfl
    | none =>
      -- another request: what was ahead stays ahead
      have hinputs : inputsOf document ((time, request) :: later) = inputsOf document later := by
        simp [inputsOf, hinput]
      have hle : time ≤ upTo limit (inputsOf document later) :=
        upTo_inputsOf hle hfirst
      rw [hinputs, ← List.append_assoc, filter_append_filter h.sorted hle]

/-! ## The theorem -/

theorem tended_start (settings : Settings) (hcompile : Cache.CollisionFree "compile" texts)
    (hverify : Cache.CollisionFree "verify" (i.hosts texts)) :
    Tended i settings texts (start settings) where
  settings_eq := rfl
  calls := rfl
  keyed := List.nodup_nil
  desks := nofun
  compiled := ⟨⟨hcompile, nofun⟩, rfl, rfl⟩
  verified := ⟨⟨hverify, nofun⟩, rfl, rfl⟩

theorem told_from_start (document : SessionId) (requests : List (Nat × Request))
    (h : Tended i settings texts (start settings)) (hsorted : requests.Pairwise fun a b => a.1 ≤ b.1)
    (hroom : limit + settings.cacheTtlMs < timeBound)
    (hlimit : ∀ entry ∈ requests, entry.1 ≤ limit)
    (htexts : ∀ entry ∈ requests, ∀ text ∈ entry.2.texts, text ∈ texts) :
    ((timeline i.tools limit (start settings) requests).filter fun seen => seen.2.tells document) =
      heard i settings document limit (inputsOf document requests) := by
  have hforeseen : Foreseen i settings texts document (start settings) [] :=
    ⟨h, [], ⟨rfl, ⟨rfl, rfl⟩, .rest rfl rfl⟩, rfl⟩
  exact told_timeline hforeseen hsorted (fun _ _ => Nat.zero_le _) (Nat.zero_le _) hroom hlimit htexts

theorem inputsOf_filter (document : SessionId) (requests : List (Nat × Request)) :
    inputsOf document (requests.filter fun entry => entry.2.changes document) =
      inputsOf document requests := by
  unfold inputsOf
  rw [List.filterMap_filter]
  refine List.filterMap_congr fun entry _ => ?_
  cases hinput : entry.2.input? document <;> simp [Request.changes, hinput]

/-- **Documents do not interfere.**  Let the compiler and the verifier be functions of their text
that answer at once, and let any documents be edited, closed and asked about, at any times.  What is
told of one document, with its times, is what is told when nothing but its own edits and its closing
come to the engine, and it is what these lead to by themselves.  Results may be kept for any time
that ends before the clock does, and texts may be shared; only two texts with one fingerprint must not
come up. -/
theorem documents_apart (i : Instant) (settings : Settings) (document : SessionId) (limit : Nat)
    (requests : List (Nat × Request)) (hsorted : requests.Pairwise fun a b => a.1 ≤ b.1)
    (hlimit : ∀ entry ∈ requests, entry.1 ≤ limit)
    (hroom : limit + settings.cacheTtlMs < timeBound)
    (hcompile : Cache.CollisionFree "compile" (requests.flatMap fun entry => entry.2.texts))
    (hverify : Cache.CollisionFree "verify"
      (i.hosts (requests.flatMap fun entry => entry.2.texts))) :
    ((timeline i.tools limit (start settings) requests).filter fun seen => seen.2.tells document) =
        ((timeline i.tools limit (start settings)
            (requests.filter fun entry => entry.2.changes document)).filter
          fun seen => seen.2.tells document) ∧
      ((timeline i.tools limit (start settings) requests).filter
          fun seen => seen.2.tells document) =
        heard i settings document limit (inputsOf document requests) := by
  have htended := tended_start settings hcompile hverify
  have htexts : ∀ entry ∈ requests, ∀ text ∈ entry.2.texts,
      text ∈ requests.flatMap fun entry => entry.2.texts :=
    fun entry hentry text htext => List.mem_flatMap.mpr ⟨entry, hentry, htext⟩
  have htogether := told_from_start document requests htended hsorted hroom hlimit htexts
  have halone := told_from_start document
    (requests.filter fun entry => entry.2.changes document) htended (hsorted.filter _) hroom
    (fun entry hentry => hlimit entry (List.mem_filter.mp hentry).1)
    (fun entry hentry => htexts entry (List.mem_filter.mp hentry).1)
  rw [inputsOf_filter] at halone
  exact ⟨htogether.trans halone.symm, htogether⟩

/-- Two documents with the same texts, and a completion for one of them. -/
def neighbours : List (Nat × Request) :=
  [(0, .edit ⟨⟨"file", "///a"⟩, 0⟩ "x"), (100, .edit ⟨⟨"file", "///b"⟩, 1⟩ "x"),
    (200, .complete ⟨"file", "///b"⟩ "x" ⟨0, 0⟩ none), (300, .edit ⟨⟨"file", "///b"⟩, 1⟩ "y"),
    (700, .edit ⟨⟨"file", "///a"⟩, 0⟩ "y"), (900, .close ⟨⟨"file", "///b"⟩, 1⟩)]

/-- A compiler that copies its text, and a verifier that finds nothing. -/
def copying : Instant :=
  ⟨fun text => .ok (.compiled text ⟨[]⟩), fun _ => .ok []⟩

theorem documents_apart_neighbours :
    Cache.CollisionFree "compile" (neighbours.flatMap fun entry => entry.2.texts) ∧
      ((timeline copying.tools 2000 (start {}) neighbours).filter
          fun seen => seen.2.tells ⟨⟨"file", "///a"⟩, 0⟩) =
        [(500, .tell ⟨⟨"file", "///a"⟩, 0⟩ .clear), (1200, .tell ⟨⟨"file", "///a"⟩, 0⟩ .clear),
          (1500, .tell ⟨⟨"file", "///a"⟩, 0⟩ (.publish []))] := by
  have hcompile : Cache.CollisionFree "compile" (neighbours.flatMap fun entry => entry.2.texts) := by
    unfold Cache.CollisionFree
    decide +kernel
  have hverify : Cache.CollisionFree "verify"
      (copying.hosts (neighbours.flatMap fun entry => entry.2.texts)) := by
    unfold Cache.CollisionFree
    decide +kernel
  have hapart := documents_apart copying {} ⟨⟨"file", "///a"⟩, 0⟩ 2000 neighbours (by decide)
    (by decide) (by decide) hcompile hverify
  exact ⟨hcompile, hapart.2⟩

/-- A compiler that cannot read one text. -/
def choosy : Instant :=
  ⟨fun text => if text = "a" then .error .notUtf8 else .ok (.compiled text ⟨[]⟩), fun _ => .ok []⟩

-- Beyond the bound the other document is heard: its result cannot be kept, which poisons the cache,
-- and the fault that is told of the document alone is lost.
example :
    let settings : Settings := { cacheTtlSecs := UInt64.size - 1 }
    let a : SessionId := ⟨⟨"file", "///a"⟩, 0⟩
    let b : SessionId := ⟨⟨"file", "///b"⟩, 1⟩
    let told (requests : List (Nat × Request)) :=
      (timeline choosy.tools 2000 (start settings) requests).filter fun seen => seen.2.tells a
    told [(600, .edit a "a")] = [(1100, .tell a (.fault Compiler.Fault.notUtf8.message))] ∧
      told [(0, .edit b "b"), (600, .edit a "a")] = [] := by
  decide +kernel

end DialectBridge.Engine
