import DialectBridge.Proofs.Editor.Messages

/-!
# The texts of the documents that are open

Messages about documents come in any order and for any documents, before the server is set up and
after.  What the server holds of a document is decided by the last message about it.  Every opening
makes a session of its own, and one that was closed never takes on work that was begun before.

* `textIn?`, `sinceSetUp` — the last word on a document, by the messages alone;
* `textOf?_change`, `Record.handle` — the texts after one message;
* `grows_change`, `change_closes` — the sessions and their generations after one message;
* `Orderly` — one session for a document at most, and a new number for every one;
* `Record.after`, `grows_after` — all of this after any moves;
* `texts_by_last_message` — the text of a document is that of the last message about it.
-/

namespace DialectBridge.Editor

/-! ## The last word -/

/-- The messages since the first one that sets the server up. -/
def sinceSetUp (readUri : String → Option Uri) (base : Settings) (messages : List Message) :
    List Message :=
  (messages.dropWhile fun m => !m.setsUp readUri base).tail

/-- The text of a document after some changes: that of the last one about it, if it gives one. -/
def textIn? (uri : Uri) (changes : List Change) : Option String :=
  (changes.filter (Change.concerns uri)).getLast?.bind Change.text?

theorem textIn?_concat (uri : Uri) (changes : List Change) (c : Change) :
    textIn? uri (changes ++ [c]) = if c.concerns uri then c.text? else textIn? uri changes := by
  unfold textIn?
  rw [List.filter_append]
  split
  · rename_i h
    simp [h]
  · rename_i h
    simp [h]

theorem sinceSetUp_concat (readUri : String → Option Uri) (base : Settings)
    (messages : List Message) (m : Message) :
    sinceSetUp readUri base (messages ++ [m]) =
      if messages.any (Message.setsUp readUri base) then sinceSetUp readUri base messages ++ [m]
      else [] := by
  induction messages with
  | nil =>
    cases h : m.setsUp readUri base <;> simp [sinceSetUp, h]
  | cons first rest ih =>
    cases h : first.setsUp readUri base
    · simpa [sinceSetUp, h] using ih
    · simp [sinceSetUp, h]

namespace Server

variable {σ : Type} {env : Surroundings σ} {s s' s'' : Server σ}

/-! ## The sessions after a change -/

theorem textOf?_of_session {uri : Uri} {sid : SessionId} (h : s.session? uri = some sid) :
    s.textOf? uri = s.versions?.map fun v => (v sid).1 := by
  rw [textOf?_eq, h]
  rfl

theorem textOf?_of_none {uri : Uri} (h : s.session? uri = none) : s.textOf? uri = none := by
  rw [textOf?_eq, h]
  rfl

theorem mem_of_session? {uri : Uri} {sid : SessionId} (h : s.session? uri = some sid) :
    sid ∈ s.sessions ∧ sid.uri = uri := by
  have hfound := List.find?_some h
  exact ⟨List.mem_of_find?_eq_some h, of_decide_eq_true hfound⟩

/-- A document has the same text as before if its session is the same and has the same text. -/
theorem textOf?_congr {uri : Uri} (hsession : s'.session? uri = s.session? uri)
    (hversions : ∀ sid, s.session? uri = some sid →
      (s'.versions?.map fun v => (v sid).1) = s.versions?.map fun v => (v sid).1) :
    s'.textOf? uri = s.textOf? uri := by
  cases h : s.session? uri with
  | none => rw [textOf?_of_none h, textOf?_of_none (hsession.trans h)]
  | some sid => rw [textOf?_of_session h, textOf?_of_session (hsession.trans h), hversions sid h]

/-- The session that an edit goes to: the one that is open, or the next one to be made. -/
theorem openSession_cases (s : Server σ) (uri : Uri) :
    (∃ sid, s.session? uri = some sid ∧ s.openSession uri = (s, sid)) ∨
    (s.session? uri = none ∧ s.openSession uri =
      ({ s with sessions := s.sessions ++ [⟨uri, s.made⟩], made := s.made + 1 }, ⟨uri, s.made⟩)) := by
  unfold openSession
  cases h : s.session? uri with
  | some sid => exact .inl ⟨sid, rfl, rfl⟩
  | none => exact .inr ⟨rfl, rfl⟩

theorem openSession_uri (s : Server σ) (uri : Uri) : (s.openSession uri).2.uri = uri := by
  obtain ⟨sid, hsid, hopen⟩ | ⟨-, hopen⟩ := openSession_cases s uri <;> rw [hopen]
  exact (mem_of_session? hsid).2

theorem session?_openSession (s : Server σ) (uri other : Uri) :
    (s.openSession uri).1.session? other =
      if other = uri then some (s.openSession uri).2 else s.session? other := by
  obtain ⟨sid, hsid, hopen⟩ | ⟨hnone, hopen⟩ := openSession_cases s uri <;> rw [hopen]
  · split
    · rename_i h
      rw [h, hsid]
    · rfl
  · have happend : session? { s with sessions := s.sessions ++ [⟨uri, s.made⟩], made := s.made + 1 }
        other = (s.session? other).or (if uri = other then some ⟨uri, s.made⟩ else none) := by
      simp [session?, List.find?_append, List.find?_singleton]
    rw [happend]
    by_cases h : other = uri
    · subst h
      simp [hnone]
    · simp [h, Ne.symm h]

theorem edit_eq {w : Workspace σ} (hw : s.workspace = some w) (uri : Uri) (text : String) :
    s.edit uri text =
      { (s.openSession uri).1 with
        workspace := some { w with engine := w.engine.edit (s.openSession uri).2 text } } := by
  simp only [edit, hw]

theorem session?_edit (hready : s.workspace.isSome = true) (uri other : Uri) (text : String) :
    (s.edit uri text).session? other =
      if other = uri then some (s.openSession uri).2 else s.session? other := by
  obtain ⟨w, hw⟩ := Option.isSome_iff_exists.mp hready
  rw [edit_eq hw]
  exact session?_openSession s uri other

theorem versions?_edit (s : Server σ) (uri : Uri) (text : String) :
    (s.edit uri text).versions? = s.versions?.map fun v other =>
      if other = (s.openSession uri).2 then (text, (v (s.openSession uri).2).2 + 1)
      else v other := by
  cases hw : s.workspace with
  | none => simp only [edit, versions?, hw, Option.map_none]
  | some w =>
    simp only [edit_eq hw, versions?, hw, Option.map_some]
    exact congrArg some (funext fun other => Engine.version_edit w.engine _ text other)

theorem closeSession_of_none {uri : Uri} (h : s.session? uri = none) : s.closeSession uri = s := by
  simp only [closeSession, h]

theorem closeSession_of_some {uri : Uri} {sid : SessionId} (h : s.session? uri = some sid) :
    s.closeSession uri =
      { s with
        workspace := s.workspace.map fun w => { w with engine := w.engine.close sid }
        sessions := s.sessions.filter fun other => other.uri ≠ uri } := by
  simp only [closeSession, h]

theorem mem_sessions_closeSession (s : Server σ) (uri : Uri) (sid : SessionId) :
    sid ∈ (s.closeSession uri).sessions ↔ sid ∈ s.sessions ∧ sid.uri ≠ uri := by
  cases h : s.session? uri with
  | some found =>
    rw [closeSession_of_some h]
    simp
  | none =>
    rw [closeSession_of_none h]
    refine ⟨fun hmem => ⟨hmem, ?_⟩, And.left⟩
    simpa using List.find?_eq_none.mp h sid hmem

theorem session?_closeSession (s : Server σ) (uri other : Uri) :
    (s.closeSession uri).session? other = if other = uri then none else s.session? other := by
  cases h : s.session? uri with
  | none =>
    rw [closeSession_of_none h]
    split
    · rename_i heq
      rw [heq, h]
    · rfl
  | some sid =>
    rw [closeSession_of_some h]
    unfold session?
    rw [List.find?_filter]
    split
    · rename_i heq
      subst heq
      simp
    · rename_i hne
      congr 1
      funext sid
      by_cases hother : sid.uri = other
      · simp [hother, hne]
      · simp [hother]

theorem versions?_closeSession {uri : Uri} {sid : SessionId} (h : s.session? uri = some sid) :
    (s.closeSession uri).versions? = s.versions?.map fun v other =>
      if other = sid then ((v sid).1, (v sid).2 + 1) else v other := by
  rw [closeSession_of_some h]
  unfold versions?
  cases s.workspace with
  | none => rfl
  | some w => exact congrArg some (funext fun other => Engine.version_close w.engine sid other)

theorem closeAll_eq (s : Server σ) :
    s.closeAll = (s.sessions.map SessionId.uri).foldl closeSession s :=
  List.foldl_map.symm

theorem mem_sessions_closeAll (uris : List Uri) (s : Server σ) (sid : SessionId) :
    sid ∈ (uris.foldl closeSession s).sessions ↔ sid ∈ s.sessions ∧ sid.uri ∉ uris := by
  induction uris generalizing s with
  | nil => simp
  | cons uri rest ih =>
    rw [List.foldl_cons, ih, mem_sessions_closeSession, List.mem_cons, not_or, and_assoc]

theorem sessions_closeAll (s : Server σ) : s.closeAll.sessions = [] := by
  refine List.eq_nil_iff_forall_not_mem.mpr fun sid hmem => ?_
  rw [closeAll_eq, mem_sessions_closeAll] at hmem
  exact hmem.2 (List.mem_map_of_mem hmem.1)

theorem textOf?_change (hready : s.workspace.isSome = true) (c : Change) (uri : Uri) :
    (s.change c).textOf? uri = if c.concerns uri then c.text? else s.textOf? uri := by
  obtain ⟨v, hv⟩ := Option.isSome_iff_exists.mp ((isSome_versions? s).trans hready)
  cases c with
  | give other text =>
    have hsession := session?_edit hready other uri text
    by_cases h : other = uri
    · subst h
      rw [if_pos rfl] at hsession
      rw [change, textOf?_of_session hsession, versions?_edit, hv]
      simp [Change.concerns, Change.text?]
    · rw [if_neg (Ne.symm h)] at hsession
      rw [change, textOf?_congr hsession]
      · simp [Change.concerns, h]
      · -- the session of this document is not the one of the other
        intro sid hsid
        have hne : sid ≠ (s.openSession other).2 := by
          rintro rfl
          exact h ((openSession_uri s other).symm.trans (mem_of_session? hsid).2)
        simp [versions?_edit, hv, hne]
  | close other =>
    have hsession := session?_closeSession s other uri
    by_cases h : other = uri
    · subst h
      rw [if_pos rfl] at hsession
      rw [change, textOf?_of_none hsession]
      simp [Change.concerns, Change.text?]
    · rw [if_neg (Ne.symm h)] at hsession
      rw [change, textOf?_congr hsession]
      · simp [Change.concerns, h]
      · intro sid hsid
        cases hclosed : s.session? other with
        | none => rw [closeSession_of_none hclosed]
        | some found =>
          have hne : sid ≠ found := by
            rintro rfl
            exact h ((mem_of_session? hclosed).2.symm.trans (mem_of_session? hsid).2)
          simp [versions?_closeSession hclosed, hv, hne]
  | closeAll =>
    have hclosed : (s.change .closeAll).session? uri = none := by
      simp [change, session?, sessions_closeAll]
    rw [textOf?_of_none hclosed]
    rfl

/-! ## Generations -/

/-- No session goes back to an earlier generation, and one that is open was open before or is new. -/
structure Grows (s s' : Server σ) : Prop where
  generations : ∀ v, s.versions? = some v →
    ∃ v', s'.versions? = some v' ∧ ∀ sid, (v sid).2 ≤ (v' sid).2
  made : s.made ≤ s'.made
  sessions : ∀ sid ∈ s'.sessions, sid ∈ s.sessions ∨ s.made ≤ sid.number

theorem Still.grows (h : Still s s') : Grows s s' where
  generations v hv := ⟨v, h.versions.trans hv, fun _ => Nat.le_refl _⟩
  made := Nat.le_of_eq h.made.symm
  sessions _ hsid := .inl (h.sessions ▸ hsid)

theorem Grows.trans (h : Grows s s') (h' : Grows s' s'') : Grows s s'' where
  generations v hv := by
    obtain ⟨v', hv', hle⟩ := h.generations v hv
    obtain ⟨v'', hv'', hle'⟩ := h'.generations v' hv'
    exact ⟨v'', hv'', fun sid => Nat.le_trans (hle sid) (hle' sid)⟩
  made := Nat.le_trans h.made h'.made
  sessions sid hsid := by
    obtain hsid | hnew := h'.sessions sid hsid
    · exact h.sessions sid hsid
    · exact .inr (Nat.le_trans h.made hnew)

/-- One session is in its next generation, and the others are where they were. -/
theorem generations_of_next {sid : SessionId} {text : (SessionId → String × Nat) → String}
    (h : s'.versions? = s.versions?.map fun v other =>
      if other = sid then (text v, (v sid).2 + 1) else v other) :
    ∀ v, s.versions? = some v → ∃ v', s'.versions? = some v' ∧ ∀ sid, (v sid).2 ≤ (v' sid).2 := by
  intro v hv
  rw [h, hv]
  refine ⟨_, rfl, fun other => ?_⟩
  simp only []
  split
  · rename_i heq
    rw [heq]
    exact Nat.le_succ _
  · exact Nat.le_refl _

theorem made_closeSession (s : Server σ) (uri : Uri) : (s.closeSession uri).made = s.made := by
  unfold closeSession
  split <;> rfl

/-- What an edit does to the list of sessions. -/
theorem edit_cases (s : Server σ) (uri : Uri) (text : String) :
    ((s.edit uri text).sessions = s.sessions ∧ (s.edit uri text).made = s.made) ∨
    (s.session? uri = none ∧ (s.edit uri text).sessions = s.sessions ++ [⟨uri, s.made⟩] ∧
      (s.edit uri text).made = s.made + 1) := by
  cases hw : s.workspace with
  | none =>
    left
    simp only [edit, hw, and_self]
  | some w =>
    rw [edit_eq hw]
    obtain ⟨sid, -, hopen⟩ | ⟨hnone, hopen⟩ := openSession_cases s uri <;> rw [hopen]
    · exact .inl ⟨rfl, rfl⟩
    · exact .inr ⟨hnone, rfl, rfl⟩

theorem grows_edit (s : Server σ) (uri : Uri) (text : String) : Grows s (s.edit uri text) := by
  have hgenerations := generations_of_next (versions?_edit s uri text)
  obtain ⟨hsessions, hmade⟩ | ⟨-, hsessions, hmade⟩ := edit_cases s uri text
  · exact ⟨hgenerations, Nat.le_of_eq hmade.symm, fun sid hsid => .inl (hsessions ▸ hsid)⟩
  · refine ⟨hgenerations, Nat.le_of_lt (by omega), fun sid hsid => ?_⟩
    rw [hsessions, List.mem_append, List.mem_singleton] at hsid
    obtain hsid | rfl := hsid
    · exact .inl hsid
    · exact .inr (Nat.le_refl _)

theorem grows_closeSession (s : Server σ) (uri : Uri) : Grows s (s.closeSession uri) where
  generations := by
    cases h : s.session? uri with
    | some sid => exact generations_of_next (versions?_closeSession h)
    | none =>
      rw [closeSession_of_none h]
      exact (Still.refl s).grows.generations
  made := Nat.le_of_eq (made_closeSession s uri).symm
  sessions sid hsid := .inl ((mem_sessions_closeSession s uri sid).mp hsid).1

theorem grows_closeAll (uris : List Uri) (s : Server σ) : Grows s (uris.foldl closeSession s) := by
  induction uris generalizing s with
  | nil => exact (Still.refl s).grows
  | cons uri rest ih => exact (grows_closeSession s uri).trans (ih _)

theorem grows_change (s : Server σ) (c : Change) : Grows s (s.change c) := by
  cases c with
  | give uri text => exact grows_edit s uri text
  | close uri => exact grows_closeSession s uri
  | closeAll =>
    rw [change, closeAll_eq]
    exact grows_closeAll _ s

/-- A session that is closed is in another generation afterwards. -/
theorem closeAll_raises {uris : List Uri} {uri : Uri} (huris : uri ∈ uris) {sid : SessionId}
    (hopen : s.session? uri = some sid) {v : SessionId → String × Nat} (hv : s.versions? = some v) :
    ∃ v', (uris.foldl closeSession s).versions? = some v' ∧ (v sid).2 < (v' sid).2 := by
  induction uris generalizing s v with
  | nil => cases huris
  | cons first rest ih =>
    by_cases h : uri = first
    · subst h
      have hraised := versions?_closeSession hopen
      rw [hv] at hraised
      obtain ⟨v', hv', hle⟩ := (grows_closeAll rest _).generations _ hraised
      refine ⟨v', hv', Nat.lt_of_lt_of_le ?_ (hle sid)⟩
      simp
    · -- the session is still open after another one was closed, and as it was
      have hopen' : (s.closeSession first).session? uri = some sid := by
        rw [session?_closeSession, if_neg h, hopen]
      have hrest : uri ∈ rest := (List.mem_cons.mp huris).resolve_left h
      cases hfirst : s.session? first with
      | none =>
        rw [List.foldl_cons, closeSession_of_none hfirst]
        exact ih hrest hopen hv
      | some found =>
        have hne : sid ≠ found := by
          rintro rfl
          exact h ((mem_of_session? hopen).2.symm.trans (mem_of_session? hfirst).2)
        have hsame := versions?_closeSession hfirst
        rw [hv] at hsame
        obtain ⟨v', hv', hlt⟩ := ih hrest hopen' hsame
        refine ⟨v', hv', ?_⟩
        simpa [hne] using hlt

/-- What ends the session of a document closes it, for good. -/
theorem change_closes {c : Change} {uri : Uri} (hends : c.ends uri = true) {sid : SessionId}
    (hopen : s.session? uri = some sid) {v : SessionId → String × Nat} (hv : s.versions? = some v) :
    sid ∉ (s.change c).sessions ∧
      ∃ v', (s.change c).versions? = some v' ∧ (v sid).2 < (v' sid).2 := by
  obtain ⟨hmem, huri⟩ := mem_of_session? hopen
  cases c with
  | give other text => cases hends
  | close other =>
    obtain rfl : other = uri := of_decide_eq_true hends
    refine ⟨fun hstill => ?_, closeAll_raises (List.mem_singleton_self other) hopen hv⟩
    exact ((mem_sessions_closeSession s other sid).mp hstill).2 huri
  | closeAll =>
    rw [change, sessions_closeAll, closeAll_eq]
    exact ⟨List.not_mem_nil, closeAll_raises (List.mem_map.mpr ⟨sid, hmem, huri⟩) hopen hv⟩

/-! ## Runs -/

/-- What comes to a server: a message by the rules of the protocol or past them, time that passes,
and its messages being fetched. -/
inductive Move where
  | call (name : String) (isRequest : Bool) (params : Option Json)
  | handle (message : Message)
  | pause (ms : Nat)
  | take (count : Nat)

/-- The server after a move. -/
def move (env : Surroundings σ) (s : Server σ) : Move → Server σ
  | .call name isRequest params => (s.call env name isRequest params).1
  | .handle m => (s.handle env m.method m.params).server
  | .pause ms => (s.pause env ms).1
  | .take count => (s.take env count).1

/-- A message that is called in its time and in the way its method wants it. -/
def admitted? (l : Lifecycle) (name : String) (isRequest : Bool) (params : Option Json) :
    Option Message :=
  match Method.ofName? name with
  | none => none
  | some .exit => none
  | some .cancel => none
  | some .setUp =>
    if l = .uninitialized ∧ isRequest = Method.setUp.isRequest then some ⟨.setUp, params⟩ else none
  | some method =>
    if l = .initialized ∧ isRequest = method.isRequest then some ⟨method, params⟩ else none

/-- The message that a move makes the server handle. -/
def Move.message? (l : Lifecycle) : Move → Option Message
  | .call name isRequest params => admitted? l name isRequest params
  | .handle m => some m
  | _ => none

/-- The server after a message, if there is one. -/
def obey (env : Surroundings σ) (s : Server σ) : Option Message → Server σ
  | none => s
  | some m => (s.handle env m.method m.params).server

theorem dispatch_fst (env : Surroundings σ) (s : Server σ) (method : Method) (isRequest : Bool)
    (params : Option Json) :
    (s.dispatch env method isRequest params).1 =
      s.obey env (if isRequest = method.isRequest then some ⟨method, params⟩ else none) := by
  unfold dispatch
  by_cases h : isRequest = method.isRequest
  · rw [if_pos h, if_neg (by simp [h])]
    rfl
  · rw [if_neg h, if_pos (Ne.symm h)]
    rfl

theorem still_afterSetUp (s : Server σ) (response : Response) : Still s (s.afterSetUp response) := by
  cases response <;> exact ⟨rfl, rfl, rfl, rfl⟩

/-- The rules of the protocol let a message through or turn it away; beyond that they touch only the
life of the server. -/
theorem call_cases (env : Surroundings σ) (s : Server σ) (name : String) (isRequest : Bool)
    (params : Option Json) :
    ∃ s₀, Still s s₀ ∧
      Still (s₀.obey env (admitted? s.lifecycle name isRequest params))
        (s.call env name isRequest params).1 := by
  unfold call admitted?
  by_cases hexited : s.lifecycle = .exited
  · refine ⟨s, .refl s, ?_⟩
    rw [if_pos hexited, hexited]
    cases Method.ofName? name with
    | none => exact .refl s
    | some method => cases method <;> exact .refl s
  rw [if_neg hexited]
  cases Method.ofName? name with
  | none => exact ⟨s, .refl s, .refl s⟩
  | some method =>
    cases method
    case exit => exact ⟨s, .refl s, ⟨rfl, rfl, rfl, rfl⟩⟩
    case cancel => exact ⟨s, .refl s, .refl s⟩
    case setUp =>
      refine ⟨s, .refl s, ?_⟩
      by_cases htime : s.lifecycle = .uninitialized
      · simp only [htime, true_and, if_true, ← dispatch_fst]
        exact still_afterSetUp _ _
      · simp only [htime, false_and, if_false]
        exact .refl s
    case shutdown =>
      -- the server counts as shut down before it closes its documents
      by_cases htime : s.lifecycle = .initialized
      · refine ⟨{ s with lifecycle := .shutDown }, ⟨rfl, rfl, rfl, rfl⟩, ?_⟩
        simp only [htime, true_and, if_true, ← dispatch_fst]
        exact .refl _
      · simp only [htime, false_and, if_false]
        exact ⟨s, .refl s, .refl s⟩
    all_goals
      refine ⟨s, .refl s, ?_⟩
      by_cases htime : s.lifecycle = .initialized
      · simp only [htime, true_and, if_true, ← dispatch_fst]
        exact .refl _
      · simp only [htime, false_and, if_false]
        exact .refl s

theorem move_cases (env : Surroundings σ) (s : Server σ) (m : Move) :
    ∃ s₀, Still s s₀ ∧ Still (s₀.obey env (m.message? s.lifecycle)) (s.move env m) := by
  cases m with
  | call name isRequest params => exact call_cases env s name isRequest params
  | handle m => exact ⟨s, .refl s, .refl _⟩
  | pause ms => exact ⟨s, .refl s, still_pause env s ms⟩
  | take count => exact ⟨s, .refl s, still_take env s count⟩

/-- The server after some moves. -/
def after (env : Surroundings σ) (s : Server σ) (moves : List Move) : Server σ :=
  moves.foldl (move env) s

/-- The messages that are handled in the course of some moves. -/
def received (env : Surroundings σ) (s : Server σ) : List Move → List Message
  | [] => []
  | m :: rest => (m.message? s.lifecycle).toList ++ received env (s.move env m) rest

theorem grows_obey (env : Surroundings σ) (s : Server σ) (m : Option Message) :
    Grows s (s.obey env m) := by
  cases m with
  | none => exact (Still.refl s).grows
  | some m =>
    cases hchange : m.change? env.readUri with
    | some c => exact (grows_change s c).trans (handle_change env hchange).grows
    | none =>
      by_cases hready : m.setsUp env.readUri s.base = true → s.workspace.isSome = true
      · exact (still_handle env hchange hready).grows
      · -- a server that is set up only now has no generations yet
        obtain ⟨hsets, hnew⟩ := Classical.not_imp.mp hready
        have hnone : s.workspace = none := by simpa using hnew
        obtain ⟨-, hsessions, hmade, -⟩ := handle_setUp env hsets hnone
        refine ⟨fun v hv => ?_, Nat.le_of_eq hmade.symm, fun sid hsid => .inl (hsessions ▸ hsid)⟩
        rw [versions?, hnone] at hv
        cases hv

theorem grows_move (env : Surroundings σ) (s : Server σ) (m : Move) : Grows s (s.move env m) := by
  obtain ⟨s₀, hbefore, hafter⟩ := move_cases env s m
  exact hbefore.grows.trans ((grows_obey env s₀ _).trans hafter.grows)

theorem grows_after (env : Surroundings σ) (s : Server σ) (moves : List Move) :
    Grows s (s.after env moves) := by
  induction moves generalizing s with
  | nil => exact (Still.refl s).grows
  | cons m rest ih => exact (grows_move env s m).trans (ih _)

/-- A move that ends the session of a document closes it. -/
theorem move_closes {m : Move} {message : Message} {c : Change} {uri : Uri}
    (hmessage : m.message? s.lifecycle = some message)
    (hchange : message.change? env.readUri = some c) (hends : c.ends uri = true) {sid : SessionId}
    (hopen : s.session? uri = some sid)
    {v : SessionId → String × Nat} (hv : s.versions? = some v) :
    sid ∉ (s.move env m).sessions ∧
      ∃ v', (s.move env m).versions? = some v' ∧ (v sid).2 < (v' sid).2 := by
  obtain ⟨s₀, hbefore, hafter⟩ := move_cases env s m
  rw [hmessage] at hafter
  have hstill := (handle_change env hchange).trans hafter
  obtain ⟨hclosed, v', hv', hlt⟩ :=
    change_closes hends ((hbefore.session? uri).trans hopen) (hbefore.versions.trans hv)
  exact ⟨hstill.sessions.symm ▸ hclosed, v', hstill.versions.trans hv', hlt⟩

/-! ## Sessions in order -/

/-- Every document has one session at most, numbers are given once, and a session that has not been
made is in its first generation. -/
structure Orderly (s : Server σ) : Prop where
  apart : (s.sessions.map SessionId.uri).Nodup
  numbered : ∀ sid ∈ s.sessions, sid.number < s.made
  unseen : ∀ v, s.versions? = some v → ∀ sid, s.made ≤ sid.number → v sid = ("", 0)

theorem Orderly.still (h : Orderly s) (hstill : Still s s') : Orderly s' where
  apart := by rw [hstill.sessions]; exact h.apart
  numbered := by rw [hstill.sessions, hstill.made]; exact h.numbered
  unseen := by rw [hstill.versions, hstill.made]; exact h.unseen

theorem not_mem_uris_of_none {uri : Uri} (h : s.session? uri = none) :
    uri ∉ s.sessions.map SessionId.uri := by
  intro hmem
  obtain ⟨sid, hsid, huri⟩ := List.mem_map.mp hmem
  have hother := List.find?_eq_none.mp h sid hsid
  simp [huri] at hother

/-- An edit goes to a session that is numbered afterwards. -/
theorem Orderly.openSession_number (h : Orderly s) (hready : s.workspace.isSome = true) (uri : Uri)
    (text : String) : (s.openSession uri).2.number < (s.edit uri text).made := by
  obtain ⟨w, hw⟩ := Option.isSome_iff_exists.mp hready
  rw [edit_eq hw]
  obtain ⟨sid, hsid, hopen⟩ | ⟨-, hopen⟩ := openSession_cases s uri <;> rw [hopen]
  · exact h.numbered sid (mem_of_session? hsid).1
  · exact Nat.lt_succ_self _

theorem Orderly.edit (h : Orderly s) (uri : Uri) (text : String) : Orderly (s.edit uri text) := by
  have hunseen : ∀ v, (s.edit uri text).versions? = some v →
      ∀ sid, (s.edit uri text).made ≤ sid.number → v sid = ("", 0) := by
    intro v hv sid hsid
    rw [versions?_edit] at hv
    obtain ⟨v₀, hv₀, rfl⟩ := Option.map_eq_some_iff.mp hv
    have hready : s.workspace.isSome = true := by
      rw [← isSome_versions?, hv₀]
      rfl
    have hne : sid ≠ (s.openSession uri).2 := by
      rintro rfl
      exact Nat.not_le_of_lt (h.openSession_number hready uri text) hsid
    simp only [if_neg hne]
    exact h.unseen v₀ hv₀ sid (Nat.le_trans (grows_edit s uri text).made hsid)
  obtain ⟨hsessions, hmade⟩ | ⟨hnone, hsessions, hmade⟩ := edit_cases s uri text
  · refine ⟨by rw [hsessions]; exact h.apart, ?_, hunseen⟩
    rw [hsessions, hmade]
    exact h.numbered
  · refine ⟨?_, ?_, hunseen⟩
    · rw [hsessions, List.map_append, List.nodup_append]
      refine ⟨h.apart, by simp, ?_⟩
      rintro other hother _ hlast rfl
      obtain rfl : other = uri := by simpa using hlast
      exact not_mem_uris_of_none hnone hother
    · rw [hsessions, hmade]
      intro sid hsid
      rw [List.mem_append, List.mem_singleton] at hsid
      obtain hsid | rfl := hsid
      · exact Nat.lt_succ_of_lt (h.numbered sid hsid)
      · exact Nat.lt_succ_self _

theorem Orderly.closeSession (h : Orderly s) (uri : Uri) : Orderly (s.closeSession uri) := by
  cases hsid : s.session? uri with
  | none => rwa [closeSession_of_none hsid]
  | some sid =>
    refine ⟨?_, fun other hother => ?_, fun v hv other hother => ?_⟩
    · rw [closeSession_of_some hsid]
      exact h.apart.sublist (List.filter_sublist.map _)
    · rw [made_closeSession]
      exact h.numbered other ((mem_sessions_closeSession s uri other).mp hother).1
    · rw [made_closeSession] at hother
      rw [versions?_closeSession hsid] at hv
      obtain ⟨v₀, hv₀, rfl⟩ := Option.map_eq_some_iff.mp hv
      have hne : other ≠ sid := by
        rintro rfl
        exact Nat.not_le_of_lt (h.numbered other (mem_of_session? hsid).1) hother
      simp only [if_neg hne]
      exact h.unseen v₀ hv₀ other hother

theorem Orderly.closeAll (h : Orderly s) (uris : List Uri) :
    Orderly (uris.foldl Server.closeSession s) := by
  induction uris generalizing s with
  | nil => exact h
  | cons uri rest ih => exact ih (h.closeSession uri)

theorem Orderly.change (h : Orderly s) (c : Change) : Orderly (s.change c) := by
  cases c with
  | give uri text => exact h.edit uri text
  | close uri => exact h.closeSession uri
  | closeAll =>
    rw [Server.change, closeAll_eq]
    exact h.closeAll _

/-! ## What is on record -/

/-- What a server holds after it has handled some messages: it is set up if one of them did that, and
since then the last message about a document decides on its text. -/
structure Record (env : Surroundings σ) (base : Settings) (messages : List Message)
    (s : Server σ) : Prop where
  base_eq : s.base = base
  ready : s.workspace.isSome = messages.any (Message.setsUp env.readUri base)
  sessions : s.workspace.isSome = false → s.sessions = []
  orderly : Orderly s
  texts : ∀ uri, s.textOf? uri =
    textIn? uri ((sinceSetUp env.readUri base messages).filterMap (Message.change? env.readUri))

variable {base : Settings} {messages : List Message}

theorem record_start (env : Surroundings σ) (base : Settings) :
    Record env base [] (start base) :=
  ⟨rfl, rfl, fun _ => rfl, ⟨List.nodup_nil, nofun, nofun⟩, fun _ => rfl⟩

theorem Record.still (h : Record env base messages s) (hstill : Still s s') :
    Record env base messages s' := by
  have hready : s'.workspace.isSome = s.workspace.isSome := by
    rw [← isSome_versions?, ← isSome_versions?, hstill.versions]
  refine ⟨hstill.base.trans h.base_eq, hready.trans h.ready, fun hnew => ?_,
    h.orderly.still hstill, fun uri => ?_⟩
  · exact hstill.sessions.trans (h.sessions (hready.symm.trans hnew))
  · exact (hstill.textOf? uri).trans (h.texts uri)

theorem base_edit (s : Server σ) (uri : Uri) (text : String) : (s.edit uri text).base = s.base := by
  cases hw : s.workspace with
  | none => simp only [edit, hw]
  | some w =>
    rw [edit_eq hw]
    obtain ⟨sid, -, hopen⟩ | ⟨-, hopen⟩ := openSession_cases s uri <;> rw [hopen]

theorem base_closeSession (s : Server σ) (uri : Uri) : (s.closeSession uri).base = s.base := by
  unfold closeSession
  split <;> rfl

theorem base_closeAll (uris : List Uri) (s : Server σ) :
    (uris.foldl closeSession s).base = s.base := by
  induction uris generalizing s with
  | nil => rfl
  | cons uri rest ih => exact (ih _).trans (base_closeSession s uri)

theorem base_change (s : Server σ) (c : Change) : (s.change c).base = s.base := by
  cases c with
  | give uri text => exact base_edit s uri text
  | close uri => exact base_closeSession s uri
  | closeAll =>
    rw [change, closeAll_eq]
    exact base_closeAll _ s

/-- Before a server is set up, nothing is opened and nothing closed. -/
theorem change_of_new (hnew : s.workspace = none) (hsessions : s.sessions = []) (c : Change) :
    s.change c = s := by
  cases c with
  | give uri text => simp only [change, edit, hnew]
  | close uri => exact closeSession_of_none (by simp [session?, hsessions])
  | closeAll => simp only [change, closeAll, hsessions, List.foldl_nil]

/-- A message to a server that is set up. -/
theorem Record.handle_ready (h : Record env base messages s) (hready : s.workspace.isSome = true)
    (m : Message) : Record env base (messages ++ [m]) (s.handle env m.method m.params).server := by
  have hany : messages.any (Message.setsUp env.readUri base) = true := h.ready.symm.trans hready
  have hsince : sinceSetUp env.readUri base (messages ++ [m]) =
      sinceSetUp env.readUri base messages ++ [m] := by
    rw [sinceSetUp_concat, if_pos hany]
  cases hchange : m.change? env.readUri with
  | none =>
    refine Record.still ?_ (still_handle env hchange fun _ => hready)
    refine ⟨h.base_eq, by simp [hready, hany], h.sessions, h.orderly, fun uri => ?_⟩
    rw [h.texts, hsince]
    simp [hchange]
  | some c =>
    refine Record.still ?_ (handle_change env hchange)
    have hkept : (s.change c).workspace.isSome = true := by
      obtain ⟨v, hv⟩ := Option.isSome_iff_exists.mp ((isSome_versions? s).trans hready)
      obtain ⟨v', hv', -⟩ := (grows_change s c).generations v hv
      rw [← isSome_versions?, hv']
      rfl
    refine ⟨(base_change s c).trans h.base_eq, by simp [hkept, hany], by simp [hkept],
      h.orderly.change c, fun uri => ?_⟩
    have hchanges :
        (sinceSetUp env.readUri base messages ++ [m]).filterMap (Message.change? env.readUri) =
          (sinceSetUp env.readUri base messages).filterMap (Message.change? env.readUri) ++ [c] := by
      simp [hchange]
    rw [textOf?_change hready, h.texts, hsince, hchanges, textIn?_concat]

/-- A message to a server that is not set up. -/
theorem Record.handle_new (h : Record env base messages s) (hnew : s.workspace = none) (m : Message) :
    Record env base (messages ++ [m]) (s.handle env m.method m.params).server := by
  have hsessions : s.sessions = [] := h.sessions (by rw [hnew]; rfl)
  have hany : messages.any (Message.setsUp env.readUri base) = false := by
    rw [← h.ready, hnew]
    rfl
  have htexts : ∀ uri, none =
      textIn? uri ((sinceSetUp env.readUri base (messages ++ [m])).filterMap
        (Message.change? env.readUri)) := by
    intro uri
    rw [sinceSetUp_concat, hany]
    rfl
  by_cases hsets : m.setsUp env.readUri base = true
  · obtain ⟨hbase, hsessions', hmade, hversions⟩ :=
      handle_setUp (s := s) env (h.base_eq.symm ▸ hsets) hnew
    have hready : (s.handle env m.method m.params).server.workspace.isSome = true := by
      rw [← isSome_versions?, hversions]
      rfl
    have horderly : Orderly (s.handle env m.method m.params).server := by
      refine ⟨hsessions' ▸ h.orderly.apart, ?_, fun v hv sid _ => ?_⟩
      · rw [hsessions', hmade]
        exact h.orderly.numbered
      · rw [hversions, Option.some.injEq] at hv
        rw [← hv]
    refine ⟨hbase.trans h.base_eq, by simp [hready, hsets], by simp [hready], horderly,
      fun uri => ?_⟩
    rw [textOf?_of_none (by simp [session?, hsessions', hsessions]), ← htexts]
  · have hstill : Still s (s.handle env m.method m.params).server := by
      cases hchange : m.change? env.readUri with
      | none => exact still_handle env hchange fun hsets' => absurd (h.base_eq ▸ hsets') hsets
      | some c =>
        have hsame := handle_change (s := s) env hchange
        rw [change_of_new hnew hsessions] at hsame
        exact hsame
    refine Record.still ⟨h.base_eq, ?_, h.sessions, h.orderly, fun uri => ?_⟩ hstill
    · simp [hnew, hany, hsets]
    · rw [textOf?_of_none (by simp [session?, hsessions]), ← htexts]

/-- **One message.** -/
theorem Record.handle (h : Record env base messages s) (m : Message) :
    Record env base (messages ++ [m]) (s.handle env m.method m.params).server := by
  cases hw : s.workspace with
  | none => exact h.handle_new hw m
  | some w => exact h.handle_ready (by rw [hw]; rfl) m

theorem Record.obey (h : Record env base messages s) (m : Option Message) :
    Record env base (messages ++ m.toList) (s.obey env m) := by
  cases m with
  | none => exact (List.append_nil messages).symm ▸ h
  | some m => exact h.handle m

theorem Record.move (h : Record env base messages s) (m : Move) :
    Record env base (messages ++ (m.message? s.lifecycle).toList) (s.move env m) := by
  obtain ⟨s₀, hbefore, hafter⟩ := move_cases env s m
  exact ((h.still hbefore).obey _).still hafter

/-- **All messages**, with all that goes on between them. -/
theorem Record.after (h : Record env base messages s) (moves : List Move) :
    Record env base (messages ++ received env s moves) (s.after env moves) := by
  induction moves generalizing s messages with
  | nil => exact (List.append_nil messages).symm ▸ h
  | cons m rest ih =>
    rw [received, ← List.append_assoc]
    exact ih (h.move m)

theorem record_after (env : Surroundings σ) (base : Settings) (moves : List Move) :
    Record env base (received env (start base) moves) ((start base).after env moves) :=
  (record_start env base).after moves

/-- The documents that are open are those with a text. -/
theorem Record.isSome_session?_iff (h : Record env base messages s) (uri : Uri) :
    (s.session? uri).isSome = true ↔ (s.textOf? uri).isSome = true := by
  cases hsid : s.session? uri with
  | none => rw [textOf?_of_none hsid]; rfl
  | some sid =>
    have hready : s.workspace.isSome = true := by
      cases hw : s.workspace with
      | some w => rfl
      | none =>
        have hmem := (mem_of_session? hsid).1
        rw [h.sessions (by rw [hw]; rfl)] at hmem
        cases hmem
    rw [textOf?_of_session hsid, Option.isSome_map, isSome_versions?, hready]
    rfl

/-- **The last message about a document decides on its text.**  Let messages of all kinds come to a
new server, by the rules of the protocol or past them, with any time between them, and however it
reads addresses.

1. The text of a document is the one that was given by the last message about it since the server was
   set up.  The messages about it are those that open it, those that change it and bring a text, of
   which the last one counts, those that close it, and the shutdown; the last two leave no text.
2. The documents that are open are those with a text, and each of them has one session.  A server
   that has not been set up has none.
3. A session that is closed is never open again.  It never again lets work go on, gets its text or
   schedules a verification for a generation up to the one it was closed in.
4. At any earlier time, a session that is open now was open or had not handed out a generation; so a
   document that is opened again starts anew. -/
theorem texts_by_last_message (env : Surroundings σ) (base : Settings) (moves : List Move)
    (uri : Uri) :
    let server := (start base).after env moves
    server.textOf? uri =
      textIn? uri ((sinceSetUp env.readUri base (received env (start base) moves)).filterMap
        (Message.change? env.readUri)) ∧
    ((server.session? uri).isSome = true ↔ (server.textOf? uri).isSome = true) ∧
    (server.sessions.map SessionId.uri).Nodup ∧
    ((received env (start base) moves).any (Message.setsUp env.readUri base) = false →
      server.sessions = []) ∧
    (∀ before m later, moves = before ++ m :: later →
      let closing := (start base).after env before
      ∀ sid, closing.session? uri = some sid →
      (∃ message c, m.message? closing.lifecycle = some message ∧
        message.change? env.readUri = some c ∧ c.ends uri = true) →
      sid ∉ server.sessions ∧
      ∃ w w', closing.workspace = some w ∧ server.workspace = some w' ∧
        ∀ g ≤ (w.engine.desk sid).session.generation,
          let session := (w'.engine.desk sid).session
          (∀ phase, session.advance g phase = (session, false)) ∧
          (∀ phase, session.advanceWithText g phase = (session, none)) ∧
          ∀ now job, session.scheduleVerify now g job = (session, false)) ∧
    ∀ before later, moves = before ++ later →
      let earlier := (start base).after env before
      ∀ sid ∈ server.sessions, sid ∈ earlier.sessions ∨
        ∀ w, earlier.workspace = some w → (w.engine.desk sid).session.generation = 0 := by
  intro server
  have hrecord := record_after env base moves
  refine ⟨hrecord.texts uri, hrecord.isSome_session?_iff uri, hrecord.orderly.apart,
    fun hnone => hrecord.sessions (hrecord.ready.trans hnone), ?_, ?_⟩
  · rintro before m later hmoves closing sid hopen ⟨message, c, hmessage, hchange, hends⟩
    have hclosing := record_after env base before
    have hready : closing.workspace.isSome = true := by
      have htext := (hclosing.isSome_session?_iff uri).mp (by rw [hopen]; rfl)
      rwa [textOf?_of_session hopen, Option.isSome_map, isSome_versions?] at htext
    obtain ⟨w, hw⟩ := Option.isSome_iff_exists.mp hready
    have hv : closing.versions? = some w.engine.version := by
      rw [versions?, hw, Option.map_some]
    obtain ⟨hclosed, v, hv', hlt⟩ := move_closes hmessage hchange hends hopen hv
    have hserver : server = (closing.move env m).after env later := by
      simp only [server, closing, hmoves, after, List.foldl_append, List.foldl_cons]
    have hlater := grows_after env (closing.move env m) later
    rw [← hserver] at hlater
    refine ⟨fun hagain => ?_, ?_⟩
    · -- its number has been given, so it cannot be a new one
      have hnumber := hclosing.orderly.numbered sid (mem_of_session? hopen).1
      have hmade := (grows_move env closing m).made
      obtain hstill | hnew := hlater.sessions sid hagain
      · exact hclosed hstill
      · exact Nat.not_le_of_lt hnumber (Nat.le_trans hmade hnew)
    obtain ⟨v', hv'', hle⟩ := hlater.generations v hv'
    obtain ⟨w', hw', rfl⟩ := Option.map_eq_some_iff.mp hv''
    refine ⟨w, w', hw, hw', fun g hg => ?_⟩
    intro session
    have hstale : session.generation ≠ g := by
      have hraised : (w.engine.version sid).2 < session.generation :=
        Nat.lt_of_lt_of_le hlt (hle sid)
      exact Nat.ne_of_gt (Nat.lt_of_le_of_lt hg hraised)
    exact ⟨fun _ => Pipeline.advance_stale hstale, fun _ => Pipeline.advanceWithText_stale hstale,
      fun _ _ => Pipeline.scheduleVerify_stale hstale⟩
  · rintro before later hmoves earlier sid hsid
    have hserver : server = earlier.after env later := by
      simp only [server, earlier, hmoves, after, List.foldl_append]
    have hlater := grows_after env earlier later
    rw [← hserver] at hlater
    refine (hlater.sessions sid hsid).imp_right fun hnew w hw => ?_
    have hunseen := (record_after env base before).orderly.unseen w.engine.version
      (by rw [versions?, hw, Option.map_some]) sid hnew
    exact congrArg Prod.snd hunseen

/-- A document that is edited too early, then opened, changed twice at once, closed, and opened again
beside another one. -/
theorem texts_by_last_message_reopened :
    let address (name : String) : String × Json := ("uri", .str ("file:///" ++ name))
    let version : String × Json := ("version", .nat 1)
    let opening (name text : String) : Option Json := some (.object [("textDocument",
      .object [address name, version, ("languageId", .str "coffee"), ("text", .str text)])])
    let changing (name : String) (texts : List String) : Option Json := some (.object
      [("textDocument", .object [address name, version]),
        ("contentChanges", .arr (texts.map fun text => .object [("text", .str text)]))])
    let closing (name : String) : Option Json :=
      some (.object [("textDocument", .object [address name])])
    let before : List Move :=
      [.handle ⟨.didOpen, opening "a" "early"⟩,
        .call "initialize" true (some (.object [("capabilities", .object [])])),
        .call "textDocument/didOpen" false (opening "a" "one"),
        .call "textDocument/didChange" false (changing "a" ["two", "three"])]
    let m : Move := .call "textDocument/didClose" false (closing "a")
    let later : List Move :=
      [.call "textDocument/didOpen" false (opening "a" "four"),
        .call "textDocument/didOpen" false (opening "b" "five"),
        .call "textDocument/didChange" false (changing "a" [])]
    let env : Surroundings Unit :=
      ⟨.unavailable, ⟨fun h _ _ _ => (h, ⟨0, .ok none⟩), fun h _ _ => (h, ⟨0, .ok none⟩),
        fun h _ _ => (h, ⟨0, .ok none⟩)⟩, fun _ => (), fun h => (h, 0), Uri.parse?⟩
    let uri : Uri := ⟨"file", "///a"⟩
    let old : SessionId := ⟨uri, 0⟩
    let new : SessionId := ⟨uri, 1⟩
    ((start {}).after env before).textOf? uri = some "three" ∧
      ((start {}).after env (before ++ [m])).textOf? uri = none ∧
      ((start {}).after env (before ++ m :: later)).textOf? uri = some "four" ∧
      ((start {}).after env (before ++ m :: later)).session? uri = some new ∧
      ∃ w, ((start {}).after env (before ++ m :: later)).workspace = some w ∧
        (w.engine.desk old).session.advanceWithText 1 .published =
          ((w.engine.desk old).session, none) ∧
        ((w.engine.desk new).session.advanceWithText 1 .published).2 = some "four" := by
  intro address version opening changing closing before m later env uri old new
  have htext := fun moves => (texts_by_last_message env {} moves uri).1
  have hnew : ((start {}).after env (before ++ m :: later)).session? uri = some new := by
    decide +kernel
  refine ⟨(htext _).trans (by decide +kernel), (htext _).trans (by decide +kernel),
    (htext _).trans (by decide +kernel), hnew, ?_⟩
  have hopen : ((start {}).after env before).session? uri = some old := by decide +kernel
  have hgeneration : ((start {}).after env before).workspace.map
      (fun w => (w.engine.desk old).session.generation) = some 2 := by decide +kernel
  have hmessage : m.message? ((start {}).after env before).lifecycle =
      some ⟨.didClose, closing "a"⟩ := by
    have hlife : ((start {}).after env before).lifecycle = .initialized := by decide +kernel
    rw [hlife]
    rfl
  obtain ⟨-, w, w', hw, hw', hstale⟩ :=
    (texts_by_last_message env {} (before ++ m :: later) uri).2.2.2.2.1 before m later rfl old hopen
      ⟨_, .close uri, hmessage, by decide +kernel, by decide +kernel⟩
  rw [hw, Option.map_some, Option.some.injEq] at hgeneration
  have haccepts : ((start {}).after env (before ++ m :: later)).workspace.map
      (fun w => ((w.engine.desk new).session.advanceWithText 1 .published).2) =
        some (some "four") := by
    decide +kernel
  rw [hw', Option.map_some, Option.some.injEq] at haccepts
  exact ⟨w', hw', (hstale 1 (by omega)).2.1 .published, haccepts⟩

end Server

end DialectBridge.Editor
