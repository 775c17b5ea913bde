import DialectBridge.Editor.Server
import DialectBridge.Proofs.Engine.Versions

/-!
# What a message does to the documents

The server hears of its documents by messages that open, change and close them, with requests in
between and time passing.  What a message says about texts can be read off it (`Change`), and doing
that is all that a message does to the sessions of the documents, their texts and their generations.

* `Message.change?` — what a message says about texts;
* `Still` — what neither gives nor takes a text, nor makes a new generation;
* `still_pause`, `still_take` — time that passes;
* `still_handle`, `handle_change`, `handle_setUp` — all that a message can do.
-/

namespace DialectBridge.Editor

/-! ## What messages say -/

/-- A message as it is handled. -/
structure Message where
  method : Method
  params : Option Json

/-- What a message says about texts. -/
inductive Change where
  | give (uri : Uri) (text : String)
  | close (uri : Uri)
  | closeAll
  deriving DecidableEq, Repr

namespace Change

/-- It is about this document, too. -/
def concerns (uri : Uri) : Change → Bool
  | .give other _ => other = uri
  | .close other => other = uri
  | .closeAll => true

/-- It ends the session of this document. -/
def ends (uri : Uri) : Change → Bool
  | .give _ _ => false
  | .close other => other = uri
  | .closeAll => true

/-- The text it gives. -/
def text? : Change → Option String
  | .give _ text => some text
  | _ => none

end Change

namespace Message

/-- The text of a document that is opened or changed counts, of several changes the last one; to be
closed may be one document, or all. -/
def change? (readUri : String → Option Uri) (m : Message) : Option Change :=
  match m.method, m.params with
  | .didOpen, params =>
    (params.bind (Params.opened? readUri)).map fun found => .give found.1 found.2
  | .didChange, params =>
    (params.bind (Params.changed? readUri)).bind fun found => found.2.getLast?.map (.give found.1)
  | .didClose, params => (params.bind (Params.closed? readUri)).map .close
  | .shutdown, none => some .closeAll
  | _, _ => none

/-- The message sets a server up. -/
def setsUp (readUri : String → Option Uri) (base : Settings) (m : Message) : Bool :=
  m.method = .setUp &&
    (m.params.bind (Params.options? readUri)).any fun options => (base.merge options).isOk

end Message

namespace Server

variable {σ : Type} {s s' s'' : Server σ}

/-! ## What does not touch the texts -/

/-- The texts and generations of all sessions, once the server is set up. -/
def versions? (s : Server σ) : Option (SessionId → String × Nat) :=
  s.workspace.map fun w => w.engine.version

theorem textOf?_eq (s : Server σ) (uri : Uri) :
    s.textOf? uri = (s.session? uri).bind fun sid => s.versions?.map fun v => (v sid).1 := by
  unfold textOf? versions?
  simp only [Option.map_map]
  rfl

theorem isSome_versions? (s : Server σ) : s.versions?.isSome = s.workspace.isSome :=
  Option.isSome_map

/-- The same sessions are open and have been made, with the same texts and generations. -/
structure Still (s s' : Server σ) : Prop where
  base : s'.base = s.base
  sessions : s'.sessions = s.sessions
  made : s'.made = s.made
  versions : s'.versions? = s.versions?

theorem Still.refl (s : Server σ) : Still s s := ⟨rfl, rfl, rfl, rfl⟩

theorem Still.trans (h : Still s s') (h' : Still s' s'') : Still s s'' :=
  ⟨h'.base.trans h.base, h'.sessions.trans h.sessions, h'.made.trans h.made,
    h'.versions.trans h.versions⟩

theorem Still.session? (h : Still s s') (uri : Uri) : s'.session? uri = s.session? uri := by
  unfold Server.session?
  rw [h.sessions]

theorem Still.textOf? (h : Still s s') (uri : Uri) : s'.textOf? uri = s.textOf? uri := by
  rw [textOf?_eq, textOf?_eq, h.session?, h.versions]

theorem still_follow {w : Workspace σ} (hw : s.workspace = some w) {engine : Engine}
    (hversion : engine.version = w.engine.version) (host : σ) (events : List Engine.Event) :
    Still s (s.follow engine host events).1 := by
  refine ⟨rfl, rfl, rfl, ?_⟩
  unfold versions?
  rw [hw]
  exact congrArg some hversion

theorem still_adopt {w : Workspace σ} (hw : s.workspace = some w) {state : Engine × σ}
    (hversion : state.1.version = w.engine.version) (seen : List Engine.Sight)
    (answer : Option (Except RequestError Json)) : Still s (s.adopt state seen answer).server :=
  still_follow hw hversion state.2 (engineEvents seen)

theorem still_complete (env : Surroundings σ) (s : Server σ) (uri : Uri) (position : Position)
    (trigger : Option String) : Still s (s.complete env uri position trigger).server := by
  unfold complete
  cases hw : s.workspace with
  | none => exact .refl s
  | some w =>
    cases s.textOf? uri with
    | none => exact .refl s
    | some text =>
      exact still_adopt hw (Engine.version_complete (env.programs.toolchain w.engine.settings)
        env.host w.engine w.host uri text position trigger) _ _

theorem still_lookUp (env : Surroundings σ) (s : Server σ) (uri : Uri) (position : Position)
    {ask : Toolchain → HostService σ → Engine → σ → PositionRequest →
      (Engine × σ) × List Engine.Sight × Option Json}
    (hask : ∀ tools host e h request, (ask tools host e h request).1.1.version = e.version) :
    Still s (s.lookUp env uri position ask).server := by
  unfold lookUp
  cases hw : s.workspace with
  | none => exact .refl s
  | some w =>
    cases s.textOf? uri with
    | none => exact .refl s
    | some text => exact still_adopt hw (hask ..) _ _

theorem still_pause (env : Surroundings σ) (s : Server σ) (ms : Nat) :
    Still s (s.pause env ms).1 := by
  unfold pause
  cases hw : s.workspace with
  | none => exact .refl s
  | some w => exact still_follow hw (Engine.version_advance ..) _ _

theorem still_step (env : Surroundings σ) (s : Server σ) : Still s (s.step env).1 := by
  unfold step
  cases hw : s.workspace with
  | none => exact .refl s
  | some w => exact still_follow hw (Engine.version_step ..) _ _

theorem still_runUntil (env : Surroundings σ) (enough : Server σ → Bool) (fuel : Nat)
    (s : Server σ) : Still s ((clockwork env).runUntil enough fuel s).1 := by
  induction fuel generalizing s with
  | zero => exact .refl s
  | succ fuel ih =>
    unfold Clockwork.runUntil
    split
    · exact .refl s
    · exact (still_step env s).trans (ih _)

theorem still_take (env : Surroundings σ) (s : Server σ) (count : Nat) :
    Still s (s.take env count).1 := by
  have hrun := still_runUntil env (fun s => decide (count ≤ s.outbox.length))
    ((clockwork env).remaining s) s
  exact ⟨hrun.base, hrun.sessions, hrun.made, hrun.versions⟩

/-! ## What the messages do -/

/-- Does what a message says about texts. -/
def change (s : Server σ) : Change → Server σ
  | .give uri text => s.edit uri text
  | .close uri => s.closeSession uri
  | .closeAll => s.closeAll

theorem withParams_some {α : Type} {params : Option Json} {read : Json → Option α}
    {handler : α → Handled σ} {a : α} (h : params.bind read = some a) :
    s.withParams params read handler = handler a := by
  obtain ⟨j, rfl, hread⟩ := Option.bind_eq_some_iff.mp h
  simp only [withParams, hread]

theorem withParams_none {α : Type} {params : Option Json} {read : Json → Option α}
    {handler : α → Handled σ} (h : params.bind read = none) :
    (s.withParams params read handler).server = s := by
  cases params with
  | none => rfl
  | some j =>
    have hread : read j = none := h
    simp only [withParams, hread, reply]

/-- Whatever the parameters are, a handler that touches no text is all there is. -/
theorem still_withParams {α : Type} {params : Option Json} {read : Json → Option α}
    {handler : α → Handled σ} (h : ∀ a, params.bind read = some a → Still s (handler a).server) :
    Still s (s.withParams params read handler).server := by
  cases hread : params.bind read with
  | none => rw [withParams_none hread]; exact .refl s
  | some a => rw [withParams_some hread]; exact h a hread

/-- Setting up a server that is set up changes nothing, nor do options that are wrong. -/
theorem still_setUp {options : Json} (h : (s.base.merge options).isOk = true → s.workspace.isSome) :
    Still s (s.setUp env options).1 := by
  unfold setUp
  cases hmerge : s.base.merge options with
  | error e => exact .refl s
  | ok settings =>
    obtain ⟨w, hw⟩ := Option.isSome_iff_exists.mp (h (by rw [hmerge]; rfl))
    simp only [hw]
    exact .refl s

/-- **A message that says nothing about texts** leaves them alone, unless it sets the server up. -/
theorem still_handle (env : Surroundings σ) {m : Message} (hchange : m.change? env.readUri = none)
    (hready : m.setsUp env.readUri s.base = true → s.workspace.isSome = true) :
    Still s (s.handle env m.method m.params).server := by
  obtain ⟨method, params⟩ := m
  cases method with
  | setUp =>
    refine still_withParams fun options hoptions => ?_
    exact still_setUp fun hmerge => hready (by simp [Message.setsUp, hoptions, hmerge])
  | shutdown =>
    cases params with
    | none => cases hchange
    | some j => exact .refl s
  | exit => exact .refl s
  | initialized => exact still_withParams fun _ _ => ⟨rfl, rfl, rfl, rfl⟩
  | didOpen =>
    refine still_withParams fun found hfound => ?_
    simp [Message.change?, hfound] at hchange
  | didChange =>
    refine still_withParams fun found hfound => ?_
    have hlast : found.2.getLast? = none := by
      simpa [Message.change?, hfound] using hchange
    simp only [hlast]
    exact .refl s
  | didClose =>
    refine still_withParams fun found hfound => ?_
    simp [Message.change?, hfound] at hchange
  | completion => exact still_withParams fun _ _ => still_complete ..
  | definition => exact still_withParams fun _ _ => still_lookUp _ _ _ _ Engine.version_definition
  | hover => exact still_withParams fun _ _ => still_lookUp _ _ _ _ Engine.version_hover
  | virtualDocument => exact still_withParams fun _ _ => .refl s
  | cancel => exact .refl s
  | otherRequest => exact still_withParams fun _ _ => .refl s
  | otherNotification => exact .refl s

theorem still_close (s : Server σ) (uri : Uri) : Still (s.closeSession uri) (s.close uri) := by
  unfold close
  simp only []
  split
  · exact ⟨rfl, rfl, rfl, rfl⟩
  · exact .refl _

theorem still_shutDown (env : Surroundings σ) (s : Server σ) :
    Still s.closeAll (s.shutDown env).server := by
  unfold shutDown
  simp only []
  split
  · exact .refl _
  · rename_i w hw
    exact still_follow hw (Engine.version_await ..) _ _

/-- **A message that says something about texts** does it. -/
theorem handle_change (env : Surroundings σ) {m : Message} {c : Change}
    (h : m.change? env.readUri = some c) :
    Still (s.change c) (s.handle env m.method m.params).server := by
  obtain ⟨method, params⟩ := m
  cases method <;> simp only [Message.change?, reduceCtorEq] at h
  case didOpen =>
    obtain ⟨found, hfound, rfl⟩ := Option.map_eq_some_iff.mp h
    simp only [handle, withParams_some hfound]
    exact .refl _
  case didChange =>
    obtain ⟨found, hfound, h⟩ := Option.bind_eq_some_iff.mp h
    obtain ⟨text, htext, rfl⟩ := Option.map_eq_some_iff.mp h
    simp only [handle, withParams_some hfound, htext]
    exact .refl _
  case didClose =>
    obtain ⟨uri, huri, rfl⟩ := Option.map_eq_some_iff.mp h
    simp only [handle, withParams_some huri]
    exact still_close s uri
  case shutdown =>
    cases params with
    | some j => simp at h
    | none =>
      obtain rfl : .closeAll = c := by simpa using h
      exact still_shutDown env s

/-- **A message that sets a new server up** gives it sessions without texts. -/
theorem handle_setUp (env : Surroundings σ) {m : Message} (h : m.setsUp env.readUri s.base = true)
    (hnew : s.workspace = none) :
    (s.handle env m.method m.params).server.base = s.base ∧
    (s.handle env m.method m.params).server.sessions = s.sessions ∧
    (s.handle env m.method m.params).server.made = s.made ∧
    (s.handle env m.method m.params).server.versions? = some fun _ => ("", 0) := by
  obtain ⟨method, params⟩ := m
  simp only [Message.setsUp, Bool.and_eq_true, decide_eq_true_eq, Option.any_eq_true] at h
  obtain ⟨rfl, options, hoptions, hmerge⟩ := h
  simp only [handle, withParams_some hoptions, setUp, hnew]
  cases h : s.base.merge options with
  | error e => rw [h] at hmerge; cases hmerge
  | ok settings => exact ⟨rfl, rfl, rfl, rfl⟩

end Server

end DialectBridge.Editor
