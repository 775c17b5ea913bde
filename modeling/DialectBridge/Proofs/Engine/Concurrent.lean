import DialectBridge.Engine.Basic
import DialectBridge.Proofs.Timing.Guarded

/-!
# Compilations at the same time

A compilation through the cache takes three moves: it looks the text up, asks the compiler on a miss,
and stores what the compiler gave.  Calls for the same text and for others go on at the same time,
and their moves come in any order, with time passing between them.  A call is lost if the cache fails
it, which takes an outcome that would expire at a time without a name.

* `compile_eq_moves` — `Engine.compile` is the three moves of one call;
* `Moves` — all that a move can do, to the engine and to its call;
* `Engine.clocked` — the cache of compiled texts with its clock, which a turn uses at most once;
* `shown_run` — what is in the cache stays there while it lives, whoever moves;
* `erase_run` — a call that ends in a fault leaves no trace in the others;
* `Faithful` — with a compiler that is a function, the cache holds nothing but its values;
* `concurrent_compile` — what every interleaving of calls comes to.
-/

namespace DialectBridge.Engine

/-- How far a call has come. -/
inductive Stage where
  | called
  | missed
  | answered (outcome : Compiler.Outcome)
  | returned (answer : Compiler.Answer)
  | lost
  deriving DecidableEq

/-- The moves of a call. -/
inductive Move where
  | lookup
  | invoke
  | store
  deriving DecidableEq, Repr

/-- Makes a move of a call, if it is its next one; `answer` is what the compiler says if asked. -/
def Stage.move (e : Engine) (text : String) (answer : Compiler.Answer) :
    Stage → Move → Engine × Stage
  | .called, .lookup =>
    let (found, compiled) := e.compiled.get e.now text
    ({ e with compiled }, match found with
      | .hit outcome => .returned (.ok outcome)
      | .miss => .missed
      | .failed => .lost)
  | .missed, .invoke =>
    match answer with
    | .ok outcome => (e, .answered outcome)
    | .error fault => (e, .returned (.error fault))
  | .answered outcome, .store =>
    let (e, answer) := e.keepCompiled text (.ok outcome)
    (e, (answer.map .returned).getD .lost)
  | stage, _ => (e, stage)

/-- A call for the compilation of a text. -/
structure CompileCall where
  text : String
  stage : Stage
  deriving DecidableEq

/-- An engine with the calls that have been made, in the order they were made. -/
structure Crowd where
  engine : Engine
  calls : List CompileCall

/-- What happens next: time passes, a call is made, or a call moves. -/
inductive Turn where
  | advance (ms : Nat)
  | call (text : String)
  | move (i : Nat) (move : Move)
  deriving DecidableEq, Repr

/-- A turn is a move of a call. -/
def Turn.isOf (i : Nat) : Turn → Bool
  | .move k _ => k = i
  | _ => false

/-- Takes a turn.  Every call asks the compiler at most once, and may get another answer than any
other call. -/
def Crowd.turn (compiler : Nat → String → Compiler.Answer) (w : Crowd) : Turn → Crowd
  | .advance ms => { w with engine := { w.engine with now := w.engine.now + ms } }
  | .call text => { w with calls := w.calls ++ [⟨text, .called⟩] }
  | .move i move =>
    match w.calls[i]? with
    | none => w
    | some c =>
      let (engine, stage) := Stage.move w.engine c.text (compiler i c.text) c.stage move
      ⟨engine, w.calls.set i ⟨c.text, stage⟩⟩

def Crowd.run (compiler : Nat → String → Compiler.Answer) (w : Crowd) (turns : List Turn) : Crowd :=
  turns.foldl (Crowd.turn compiler) w

/-- What a new engine and calls to it come to. -/
def Crowd.after (settings : Settings) (compiler : Nat → String → Compiler.Answer)
    (turns : List Turn) : Crowd :=
  Crowd.run compiler ⟨.start settings, []⟩ turns

/-- A compilation, move by move.  While the compiler works, the engine goes on with other things. -/
def compileByMoves (tools : Toolchain) (e : Engine) (text : String) :
    Engine × List Event × Option Compiler.Answer :=
  let answer := (tools.compile text).value
  let looked := Stage.move e text answer .called .lookup
  match looked.2 with
  | .returned hit => (looked.1, [], some hit)
  | .lost => (looked.1, [], none)
  | stage =>
    let waited := looked.1.await tools (tools.compile text).delay
    let invoked := Stage.move waited.1 text answer stage .invoke
    let stored := Stage.move invoked.1 text answer invoked.2 .store
    (stored.1, .compile text :: waited.2,
      match stored.2 with
      | .returned answer => some answer
      | _ => none)

/-- **A compilation is three moves.** -/
theorem compile_eq_moves (tools : Toolchain) (e : Engine) (text : String) :
    e.compile tools text = compileByMoves tools e text := by
  rcases hget : e.compiled.get e.now text with ⟨found, compiled⟩
  cases found with
  | hit outcome => simp only [compile, compileByMoves, Stage.move, hget]
  | failed => simp only [compile, compileByMoves, Stage.move, hget]
  | miss =>
    cases hanswer : (tools.compile text).value with
    | error fault => simp only [compile, compileByMoves, Stage.move, hget, hanswer, keepCompiled]
    | ok outcome =>
      simp only [compile, compileByMoves, Stage.move, hget, hanswer, keepCompiled]
      generalize await tools _ _ = waited
      cases (waited.1.compiled.put waited.1.now text outcome).1 with
      | none => rfl
      | some kept => rfl

/-! ## Moves -/

/-- **All that a move can do**, to the engine and to the stage of its call. -/
inductive Moves (e : Engine) (text : String) (answer : Compiler.Answer) :
    Stage → Move → Engine → Stage → Prop
  | hit (outcome : Compiler.Outcome) (h : (e.compiled.get e.now text).1 = .hit outcome) :
      Moves e text answer .called .lookup
        { e with compiled := (e.compiled.get e.now text).2 } (.returned (.ok outcome))
  | miss (h : (e.compiled.get e.now text).1 = .miss) :
      Moves e text answer .called .lookup
        { e with compiled := (e.compiled.get e.now text).2 } .missed
  | shut (h : (e.compiled.get e.now text).1 = .failed) :
      Moves e text answer .called .lookup
        { e with compiled := (e.compiled.get e.now text).2 } .lost
  | succeed (outcome : Compiler.Outcome) (h : answer = .ok outcome) :
      Moves e text answer .missed .invoke e (.answered outcome)
  | fail (fault : Compiler.Fault) (h : answer = .error fault) :
      Moves e text answer .missed .invoke e (.returned (.error fault))
  | store (outcome kept : Compiler.Outcome)
      (h : (e.compiled.put e.now text outcome).1 = some kept) :
      Moves e text answer (.answered outcome) .store
        { e with compiled := (e.compiled.put e.now text outcome).2 } (.returned (.ok kept))
  | lose (outcome : Compiler.Outcome) (h : (e.compiled.put e.now text outcome).1 = none) :
      Moves e text answer (.answered outcome) .store
        { e with compiled := (e.compiled.put e.now text outcome).2 } .lost
  | idle (stage : Stage) (move : Move) : Moves e text answer stage move e stage

theorem moves_move (e : Engine) (text : String) (answer : Compiler.Answer) (stage : Stage)
    (move : Move) :
    Moves e text answer stage move (Stage.move e text answer stage move).1
      (Stage.move e text answer stage move).2 := by
  cases stage <;> cases move
  case called.lookup =>
    cases hget : (e.compiled.get e.now text).1 with
    | hit outcome => simpa only [Stage.move, hget] using Moves.hit outcome hget
    | miss => simpa only [Stage.move, hget] using Moves.miss hget
    | failed => simpa only [Stage.move, hget] using Moves.shut hget
  case missed.invoke =>
    cases answer with
    | ok outcome => exact .succeed outcome rfl
    | error fault => exact .fail fault rfl
  case answered.store outcome =>
    cases hput : (e.compiled.put e.now text outcome).1 with
    | some kept =>
      simp only [Stage.move, keepCompiled, hput]
      exact .store outcome kept hput
    | none =>
      simp only [Stage.move, keepCompiled, hput]
      exact .lose outcome hput
  all_goals exact .idle _ _

/-- A call that will not end in a fault: it got an outcome, from the cache or from the compiler, or
is lost. -/
def Stage.faultless : Stage → Bool
  | .answered _ => true
  | .returned (.ok _) => true
  | .lost => true
  | _ => false

variable {settings : Settings} {compiler : Nat → String → Compiler.Answer} {e e' : Engine}
  {text : String} {answer answer' : Compiler.Answer} {stage stage' : Stage} {move : Move} {w : Crowd}
  {i j : Nat} {turns : List Turn}

theorem Moves.faultless (h : Moves e text answer stage move e' stage')
    (hstage : stage.faultless = true) : stage'.faultless = true := by
  cases h with
  | hit => cases hstage
  | miss => cases hstage
  | shut => cases hstage
  | succeed => cases hstage
  | fail => cases hstage
  | store => rfl
  | lose => rfl
  | idle => exact hstage

theorem Moves.of_returned (h : Moves e text answer (.returned answer') move e' stage') :
    e' = e ∧ stage' = .returned answer' := by
  cases h with
  | idle => exact ⟨rfl, rfl⟩

/-- The cache of compiled texts and the time. -/
def clocked (e : Engine) : Guarded.Clocked Compiler.Outcome :=
  ⟨e.now, e.compiled⟩

theorem Moves.clocked (h : Moves e text answer stage move e' stage') :
    e'.clocked = e.clocked ∨ ∃ use, e'.clocked = e.clocked.use use := by
  cases h with
  | hit => exact .inr ⟨.get text, rfl⟩
  | miss => exact .inr ⟨.get text, rfl⟩
  | shut => exact .inr ⟨.get text, rfl⟩
  | store outcome => exact .inr ⟨.put text outcome, rfl⟩
  | lose outcome => exact .inr ⟨.put text outcome, rfl⟩
  | _ => exact .inl rfl

/-! ## Turns -/

theorem run_append (w : Crowd) (turns turns' : List Turn) :
    w.run compiler (turns ++ turns') = (w.run compiler turns).run compiler turns' :=
  List.foldl_append

theorem after_concat (turns : List Turn) (turn : Turn) :
    Crowd.after settings compiler (turns ++ [turn]) =
      (Crowd.after settings compiler turns).turn compiler turn :=
  run_append _ _ _

theorem turn_of_call {c : CompileCall} (hcall : w.calls[i]? = some c) (move : Move) :
    w.turn compiler (.move i move) =
      ⟨(Stage.move w.engine c.text (compiler i c.text) c.stage move).1,
        w.calls.set i ⟨c.text, (Stage.move w.engine c.text (compiler i c.text) c.stage move).2⟩⟩ := by
  simp only [Crowd.turn, hcall]

theorem turn_of_no_call (hcall : w.calls[i]? = none) (move : Move) :
    w.turn compiler (.move i move) = w := by
  simp only [Crowd.turn, hcall]

/-- A move of a call that has not been made does nothing; any other is the move of its call. -/
theorem turn_move_cases (w : Crowd) (i : Nat) (move : Move) :
    w.calls[i]? = none ∧ w.turn compiler (.move i move) = w ∨
    ∃ c e' stage', w.calls[i]? = some c ∧
      Moves w.engine c.text (compiler i c.text) c.stage move e' stage' ∧
      w.turn compiler (.move i move) = ⟨e', w.calls.set i ⟨c.text, stage'⟩⟩ := by
  cases hcall : w.calls[i]? with
  | none => exact .inl ⟨rfl, turn_of_no_call hcall move⟩
  | some c => exact .inr ⟨c, _, _, rfl, moves_move .., turn_of_call hcall move⟩

theorem turn_clocked (compiler : Nat → String → Compiler.Answer) (w : Crowd) (turn : Turn) :
    (w.turn compiler turn).engine.clocked = w.engine.clocked ∨
      ∃ use, (w.turn compiler turn).engine.clocked = w.engine.clocked.use use := by
  cases turn with
  | advance ms => exact .inr ⟨.advance ms, rfl⟩
  | call text => exact .inl rfl
  | move i move =>
    obtain ⟨-, hturn⟩ | ⟨c, e', stage', -, hmoves, hturn⟩ := turn_move_cases w i move <;> rw [hturn]
    · exact .inl rfl
    · exact hmoves.clocked

/-- The cache has a history of uses, whatever turns there were. -/
theorem after_clocked (settings : Settings) (compiler : Nat → String → Compiler.Answer)
    (turns : List Turn) :
    ∃ uses, (Crowd.after settings compiler turns).engine.clocked =
      Guarded.after "compile" settings.cacheTtlMs uses := by
  induction turns using List.reverseRecOn with
  | nil => exact ⟨[], rfl⟩
  | append_singleton turns turn ih =>
    obtain ⟨uses, huses⟩ := ih
    rw [after_concat]
    obtain hsame | ⟨use, huse⟩ := turn_clocked compiler (Crowd.after settings compiler turns) turn
    · exact ⟨uses, hsame.trans huses⟩
    · exact ⟨uses ++ [use], by rw [huse, huses, Guarded.after_concat]⟩

theorem after_tidy (turns : List Turn) :
    (Crowd.after settings compiler turns).engine.clocked.cache.store.Tidy := by
  obtain ⟨uses, huses⟩ := after_clocked settings compiler turns
  rw [huses]
  exact Guarded.tidy_after uses

theorem after_key (turns : List Turn) (text : String) :
    (Crowd.after settings compiler turns).engine.clocked.cache.key text =
      Fingerprint.of "compile" text := by
  obtain ⟨uses, huses⟩ := after_clocked settings compiler turns
  rw [huses, Guarded.after_key]

theorem after_lifetime (turns : List Turn) :
    (Crowd.after settings compiler turns).engine.clocked.cache.store.lifetime =
      settings.cacheTtlMs := by
  obtain ⟨uses, huses⟩ := after_clocked settings compiler turns
  rw [huses, Guarded.after_lifetime]

theorem now_le_turn (w : Crowd) (turn : Turn) :
    w.engine.clocked.now ≤ (w.turn compiler turn).engine.clocked.now := by
  obtain hsame | ⟨use, huse⟩ := turn_clocked compiler w turn
  · exact Nat.le_of_eq (by rw [hsame])
  · rw [huse]
    exact Guarded.now_le_use _ use

theorem now_le_run (before middle : List Turn) :
    (Crowd.after settings compiler before).engine.clocked.now ≤
      (Crowd.after settings compiler (before ++ middle)).engine.clocked.now := by
  induction middle using List.reverseRecOn with
  | nil => exact Nat.le_of_eq (by rw [List.append_nil])
  | append_singleton middle turn ih =>
    rw [← List.append_assoc, after_concat]
    exact Nat.le_trans ih (now_le_turn _ turn)

/-- A cache that has failed fails for ever. -/
theorem whole_of_turn {turn : Turn}
    (h : (w.turn compiler turn).engine.clocked.cache.poisoned = false) :
    w.engine.clocked.cache.poisoned = false := by
  obtain hsame | ⟨use, huse⟩ := turn_clocked compiler w turn
  · rwa [hsame] at h
  · rw [huse] at h
    exact Guarded.whole_of_use h

theorem whole_of_run (before middle : List Turn)
    (h : (Crowd.after settings compiler (before ++ middle)).engine.clocked.cache.poisoned = false) :
    (Crowd.after settings compiler before).engine.clocked.cache.poisoned = false := by
  induction middle using List.reverseRecOn with
  | nil => rwa [List.append_nil] at h
  | append_singleton middle turn ih =>
    rw [← List.append_assoc, after_concat] at h
    exact ih (whole_of_turn h)

/-- While a lifetime from now ends at a time with a name, the cache has not failed. -/
theorem whole_of_lt
    (h : (Crowd.after settings compiler turns).engine.now + settings.cacheTtlMs < timeBound) :
    (Crowd.after settings compiler turns).engine.clocked.cache.poisoned = false := by
  obtain ⟨uses, huses⟩ := after_clocked settings compiler turns
  have hnow : (Crowd.after settings compiler turns).engine.now =
      (Guarded.after "compile" settings.cacheTtlMs uses).now :=
    congrArg Guarded.Clocked.now huses
  rw [hnow] at h
  rw [huses]
  exact Guarded.whole_of_lt h

/-! ## What is in the cache -/

variable {key : Fingerprint} {entry : Entry Fingerprint Compiler.Outcome}

/-- The entry of a key that can be used. -/
def Crowd.shown (w : Crowd) (key : Fingerprint) : Option (Entry Fingerprint Compiler.Outcome) :=
  w.engine.clocked.cache.store.live? w.engine.clocked.now key

theorem shown_turn (h : w.engine.clocked.cache.store.Tidy) (turn : Turn)
    (hshown : w.shown key = some entry)
    (hlive : entry.live (w.turn compiler turn).engine.clocked.now = true) :
    (w.turn compiler turn).shown key = some entry := by
  unfold Crowd.shown at hshown ⊢
  obtain hsame | ⟨use, huse⟩ := turn_clocked compiler w turn
  · rwa [hsame]
  · obtain ⟨hmem, hkey, hliving⟩ := Store.live?_some hshown
    rw [huse] at hlive ⊢
    exact (Guarded.tidy_use h use).live?_eq_some_iff.mpr
      ⟨(Guarded.live_use h use hmem hliving).1, hkey, hlive⟩

/-- **What is in the cache stays there while it lives**, whoever moves in the meantime. -/
theorem shown_run {before : List Turn} (middle : List Turn)
    (hshown : (Crowd.after settings compiler before).shown key = some entry)
    (hlive : entry.live (Crowd.after settings compiler (before ++ middle)).engine.now = true) :
    (Crowd.after settings compiler (before ++ middle)).shown key = some entry := by
  induction middle using List.reverseRecOn with
  | nil => rwa [List.append_nil]
  | append_singleton middle turn ih =>
    rw [← List.append_assoc, after_concat] at hlive ⊢
    exact shown_turn (after_tidy _) turn (ih (Store.live_mono (now_le_turn _ turn) hlive)) hlive

/-! ## One call among the others -/

/-- A turn leaves a call alone, or is a move of that call. -/
theorem turn_call_cases {c : CompileCall} (hcall : w.calls[j]? = some c) (turn : Turn) :
    (w.turn compiler turn).calls[j]? = some c ∨
    ∃ move e' stage', turn = .move j move ∧
      Moves w.engine c.text (compiler j c.text) c.stage move e' stage' ∧
      (w.turn compiler turn).engine = e' ∧
      (w.turn compiler turn).calls[j]? = some ⟨c.text, stage'⟩ := by
  cases turn with
  | advance ms => exact .inl hcall
  | call text =>
    left
    show (w.calls ++ [_])[j]? = some c
    rw [List.getElem?_append_left (List.getElem?_eq_some_iff.mp hcall).1, hcall]
  | move i move =>
    obtain ⟨-, hturn⟩ | ⟨c', e', stage', hcall', hmoves, hturn⟩ := turn_move_cases w i move <;>
      rw [hturn]
    · exact .inl hcall
    · by_cases hij : i = j
      · subst hij
        rw [hcall] at hcall'
        cases hcall'
        exact .inr ⟨move, e', stage', rfl, hmoves, rfl,
          List.getElem?_set_self (List.getElem?_eq_some_iff.mp hcall).1⟩
      · exact .inl ((List.getElem?_set_ne hij).trans hcall)

/-- A call that has returned stays as it is. -/
theorem returned_run {before : List Turn} (rest : List Turn)
    (h : (Crowd.after settings compiler before).calls[j]? = some ⟨text, .returned answer⟩) :
    (Crowd.after settings compiler (before ++ rest)).calls[j]? = some ⟨text, .returned answer⟩ := by
  induction rest using List.reverseRecOn with
  | nil => rwa [List.append_nil]
  | append_singleton rest turn ih =>
    rw [← List.append_assoc, after_concat]
    obtain hsame | ⟨move, e', stage', -, hmoves, -, hnext⟩ := turn_call_cases ih turn
    · exact hsame
    · rw [hnext, hmoves.of_returned.2]

/-- A call that got an outcome, or is lost, does not end in a fault. -/
theorem faultless_turn (compiler : Nat → String → Compiler.Answer) {c : CompileCall}
    (hcall : w.calls[j]? = some c)
    (hfaultless : c.stage.faultless = true) (turn : Turn) :
    ∃ c', (w.turn compiler turn).calls[j]? = some c' ∧ c'.stage.faultless = true := by
  obtain hsame | ⟨move, e', stage', -, hmoves, -, hnext⟩ := turn_call_cases hcall turn
  · exact ⟨c, hsame, hfaultless⟩
  · exact ⟨_, hnext, hmoves.faultless hfaultless⟩

/-! ## Agreement -/

/-- A call is about to put its outcome into the cache, where there is none for its text. -/
def Crowd.Inserts (w : Crowd) (i : Nat) (text : String) (outcome : Compiler.Outcome) : Prop :=
  w.calls[i]? = some ⟨text, .answered outcome⟩ ∧ ¬w.engine.clocked.Holds text

/-- A call for a text is about to look it up, or to store what it got, in a cache that has not
failed. -/
def Crowd.Consults (w : Crowd) (j : Nat) (move : Move) (text : String) : Prop :=
  w.engine.compiled.poisoned = false ∧
    (w.calls[j]? = some ⟨text, .called⟩ ∧ move = .lookup ∨
      ∃ outcome, w.calls[j]? = some ⟨text, .answered outcome⟩ ∧ move = .store)

/-- After an insertion that did not fail the cache shows what was inserted, unless it has no
lifetime. -/
theorem shown_of_inserts (compiler : Nat → String → Compiler.Answer) {outcome : Compiler.Outcome}
    (htidy : w.engine.clocked.cache.store.Tidy) (h : w.Inserts i text outcome)
    (hwhole : (w.turn compiler (.move i .store)).engine.clocked.cache.poisoned = false)
    (hlifetime : 0 < w.engine.clocked.cache.store.lifetime) :
    (w.turn compiler (.move i .store)).shown (w.engine.clocked.cache.key text) =
      some ⟨w.engine.clocked.cache.key text, outcome,
        w.engine.clocked.now + w.engine.clocked.cache.store.lifetime⟩ := by
  obtain ⟨hcall, hnone⟩ := h
  have huse : (w.turn compiler (.move i .store)).engine.clocked =
      w.engine.clocked.use (.put text outcome) := by
    rw [turn_of_call hcall]
    rfl
  rw [huse] at hwhole
  obtain ⟨hlock, -⟩ | ⟨hlock, hbare, hfails⟩ :=
    Guarded.use_cases w.engine.clocked (.put text outcome)
  · rw [Guarded.whole_of_use hwhole] at hlock
    cases hlock
  · -- it did not fail, so there is a time for it to expire at
    have hroom : w.engine.clocked.now + w.engine.clocked.cache.store.lifetime < timeBound := by
      by_contra hfull
      rw [hfails.mpr ⟨hnone, Nat.le_of_not_lt hfull⟩] at hwhole
      cases hwhole
    rw [Guarded.not_holds_iff] at hnone
    unfold Crowd.shown
    rw [huse]
    show (w.engine.clocked.use (.put text outcome)).bare.cache.store.live?
      (w.engine.clocked.use (.put text outcome)).bare.now _ = _
    rw [hbare]
    refine (Store.live?_put_of_none htidy (Nat.le_refl _) hnone).trans ?_
    rw [if_pos rfl, if_pos ⟨Nat.lt_add_of_pos_right hlifetime, hroom⟩]

/-- A call that consults the cache returns what it shows. -/
theorem returned_of_consults (compiler : Nat → String → Compiler.Answer)
    (htidy : w.engine.clocked.cache.store.Tidy) (h : w.Consults j move text)
    (hshown : w.shown (w.engine.clocked.cache.key text) = some entry) :
    (w.turn compiler (.move j move)).calls[j]? = some ⟨text, .returned (.ok entry.value)⟩ := by
  have hstage : ∀ stage, w.calls[j]? = some ⟨text, stage⟩ →
      (Stage.move w.engine text (compiler j text) stage move).2 = .returned (.ok entry.value) →
      (w.turn compiler (.move j move)).calls[j]? = some ⟨text, .returned (.ok entry.value)⟩ := by
    intro stage hcall hmove
    rw [turn_of_call hcall, hmove]
    exact List.getElem?_set_self (List.getElem?_eq_some_iff.mp hcall).1
  obtain ⟨hwhole, ⟨hcall, rfl⟩ | ⟨outcome, hcall, rfl⟩⟩ := h
  · have hget : (w.engine.compiled.get w.engine.now text).1 = .hit entry.value :=
      (Guarded.get_eq_hit_iff hwhole).mpr
        ((Store.get_fst htidy _ _).trans (congrArg (Option.map _) hshown))
    exact hstage _ hcall (by simp only [Stage.move, hget])
  · have hput : (w.engine.compiled.put w.engine.now text outcome).1 = some entry.value := by
      rw [Guarded.put_of_whole hwhole]
      exact (Store.put_fst _ _ _ _).trans (congrArg (fun e => (Option.map _ e).or _) hshown)
    exact hstage _ hcall (by simp only [Stage.move, keepCompiled, hput, Option.map_some,
      Option.getD_some])

/-- **Calls agree with what has been inserted**, from the insertion on and for as long as it lives. -/
theorem consults_returns {before middle rest : List Turn} {outcome : Compiler.Outcome}
    (hinserts : (Crowd.after settings compiler before).Inserts i text outcome)
    (hconsults : (Crowd.after settings compiler
      (before ++ .move i .store :: middle)).Consults j move text)
    (hnow : (Crowd.after settings compiler (before ++ .move i .store :: middle)).engine.now <
      (Crowd.after settings compiler before).engine.now + settings.cacheTtlMs) :
    (Crowd.after settings compiler
      (before ++ .move i .store :: (middle ++ .move j move :: rest))).calls[j]? =
        some ⟨text, .returned (.ok outcome)⟩ := by
  have hsplit : before ++ .move i .store :: middle = before ++ [.move i .store] ++ middle := by simp
  have hlifetime :
      0 < (Crowd.after settings compiler before).engine.clocked.cache.store.lifetime := by
    have hle : (Crowd.after settings compiler before).engine.now ≤
        (Crowd.after settings compiler (before ++ .move i .store :: middle)).engine.now :=
      now_le_run before _
    rw [after_lifetime]
    omega
  -- the entry is there after the insertion, and still there when it is consulted
  rw [hsplit] at hconsults hnow
  have hwhole : (Crowd.after settings compiler
      (before ++ [.move i .store])).engine.clocked.cache.poisoned = false :=
    whole_of_run _ middle hconsults.1
  rw [after_concat] at hwhole
  have hinserted := shown_of_inserts compiler (after_tidy before) hinserts hwhole hlifetime
  rw [← after_concat, after_key, after_lifetime] at hinserted
  have hshown := shown_run middle hinserted (decide_eq_true hnow)
  rw [← after_key] at hshown
  have hreturned := returned_of_consults compiler (after_tidy _) hconsults hshown
  rw [← after_concat] at hreturned
  simpa only [List.append_assoc, List.cons_append, List.nil_append] using
    returned_run rest hreturned

/-! ## Faults -/

/-- A new call has done nothing yet. -/
theorem turn_new_call {c : CompileCall} (hnone : w.calls[j]? = none) (turn : Turn)
    (hcall : (w.turn compiler turn).calls[j]? = some c) : c.stage = .called := by
  cases turn with
  | advance ms => exact absurd hcall (by simp [Crowd.turn, hnone])
  | call text =>
    rw [Crowd.turn, List.getElem?_append_right (List.getElem?_eq_none_iff.mp hnone)] at hcall
    have hmem := List.mem_of_getElem? hcall
    rw [List.mem_singleton] at hmem
    rw [hmem]
  | move i move =>
    obtain ⟨-, hturn⟩ | ⟨c', e', stage', hcall', -, hturn⟩ := turn_move_cases w i move <;>
      rw [hturn] at hcall
    · rw [hnone] at hcall
      cases hcall
    · have hij : i ≠ j := by
        rintro rfl
        rw [hnone] at hcall'
        cases hcall'
      rw [List.getElem?_set_ne hij, hnone] at hcall
      cases hcall

/-- **A call returns a fault if its own question to the compiler met with it**, and not otherwise. -/
theorem fault_iff {fault : Compiler.Fault} :
    (Crowd.after settings compiler turns).calls[i]? = some ⟨text, .returned (.error fault)⟩ ↔
      ∃ before rest, turns = before ++ .move i .invoke :: rest ∧
        (Crowd.after settings compiler before).calls[i]? = some ⟨text, .missed⟩ ∧
        compiler i text = .error fault := by
  constructor
  · intro h
    induction turns using List.reverseRecOn with
    | nil => cases h
    | append_singleton turns turn ih =>
      have hearlier : (Crowd.after settings compiler turns).calls[i]? =
          some ⟨text, .returned (.error fault)⟩ →
          ∃ before rest, turns ++ [turn] = before ++ .move i .invoke :: rest ∧
            (Crowd.after settings compiler before).calls[i]? = some ⟨text, .missed⟩ ∧
            compiler i text = .error fault := by
        intro hbefore
        obtain ⟨before, rest, rfl, hmissed⟩ := ih hbefore
        exact ⟨before, rest ++ [turn], by simp, hmissed⟩
      rw [after_concat] at h
      cases hcall : (Crowd.after settings compiler turns).calls[i]? with
      | none => exact absurd (turn_new_call hcall turn h) (by simp)
      | some c =>
        obtain hsame | ⟨move, e', stage', rfl, hmoves, -, hnext⟩ := turn_call_cases hcall turn
        · exact hearlier (hcall.trans (hsame.symm.trans h))
        · rw [hnext] at h
          cases h
          -- the move that ends in a fault is the question to the compiler
          obtain ⟨text, stage⟩ := c
          cases hmoves with
          | fail fault hfault => exact ⟨turns, [], rfl, hcall, hfault⟩
          | idle => exact hearlier hcall
  · rintro ⟨before, rest, rfl, hmissed, hfault⟩
    have hreturned : (Crowd.after settings compiler (before ++ [.move i .invoke])).calls[i]? =
        some ⟨text, .returned (.error fault)⟩ := by
      rw [after_concat, turn_of_call hmissed, hfault]
      exact List.getElem?_set_self (List.getElem?_eq_some_iff.mp hmissed).1
    simpa only [List.append_assoc, List.cons_append, List.nil_append] using
      returned_run rest hreturned

/-! ## Lost calls -/

theorem poisoned_of_moves (h : Moves e text answer stage move e' .lost) (hstage : stage ≠ .lost) :
    e'.clocked.cache.poisoned = true := by
  cases h with
  | shut hget => exact Guarded.poisoned_of_get hget
  | lose outcome hput => exact Guarded.poisoned_of_put hput
  | idle => exact absurd rfl hstage

/-- **A call is lost to a cache that has failed**, and to no other. -/
theorem poisoned_of_lost
    (h : (Crowd.after settings compiler turns).calls[i]? = some ⟨text, .lost⟩) :
    (Crowd.after settings compiler turns).engine.clocked.cache.poisoned = true := by
  induction turns using List.reverseRecOn with
  | nil => cases h
  | append_singleton turns turn ih =>
    have hearlier : (Crowd.after settings compiler turns).calls[i]? = some ⟨text, .lost⟩ →
        (Crowd.after settings compiler (turns ++ [turn])).engine.clocked.cache.poisoned = true := by
      intro hlost
      by_contra hlock
      rw [Bool.not_eq_true] at hlock
      rw [whole_of_run turns [turn] hlock] at ih
      cases ih hlost
    rw [after_concat] at h
    cases hcall : (Crowd.after settings compiler turns).calls[i]? with
    | none => exact absurd (turn_new_call hcall turn h) (by simp)
    | some c =>
      obtain hsame | ⟨move, e', stage', -, hmoves, hengine, hnext⟩ := turn_call_cases hcall turn
      · exact hearlier (hcall.trans (hsame.symm.trans h))
      · rw [hnext] at h
        cases h
        by_cases hstage : c.stage = .lost
        · exact hearlier (by rw [hcall, ← hstage])
        · rw [after_concat, hengine]
          exact poisoned_of_moves hmoves hstage

/-! ## Calls that store nothing -/

/-- Two crowds differ in one call at most, and their caches show the same. -/
structure Crowd.AlikeBut (i : Nat) (w w' : Crowd) : Prop where
  cache : w.engine.clocked.Same w'.engine.clocked
  length : w'.calls.length = w.calls.length
  calls : ∀ j, j ≠ i → w'.calls[j]? = w.calls[j]?

/-- The same move does the same to two engines whose caches show the same. -/
theorem move_alike (h : e.clocked.Same e'.clocked) (htidy : e.clocked.cache.store.Tidy)
    (htidy' : e'.clocked.cache.store.Tidy) (text : String) (answer : Compiler.Answer)
    (stage : Stage) (move : Move) :
    (Stage.move e' text answer stage move).2 = (Stage.move e text answer stage move).2 ∧
      (Stage.move e text answer stage move).1.clocked.Same
        (Stage.move e' text answer stage move).1.clocked := by
  cases stage <;> cases move
  case called.lookup =>
    have hget : (e'.compiled.get e'.now text).1 = (e.compiled.get e.now text).1 :=
      h.get_eq htidy htidy' text
    exact ⟨by simp only [Stage.move, hget], h.use htidy htidy' (.get text)⟩
  case missed.invoke => cases answer <;> exact ⟨rfl, h⟩
  case answered.store outcome =>
    have hput : (e'.compiled.put e'.now text outcome).1 = (e.compiled.put e.now text outcome).1 :=
      h.put_eq htidy htidy' text outcome
    exact ⟨by simp only [Stage.move, keepCompiled, hput], h.use htidy htidy' (.put text outcome)⟩
  all_goals exact ⟨rfl, h⟩

theorem Crowd.AlikeBut.turn {w' : Crowd} (h : w.AlikeBut i w')
    (htidy : w.engine.clocked.cache.store.Tidy) (htidy' : w'.engine.clocked.cache.store.Tidy)
    {turn : Turn} (hother : turn.isOf i = false) :
    (w.turn compiler turn).AlikeBut i (w'.turn compiler turn) := by
  cases turn with
  | advance ms => exact ⟨h.cache.use htidy htidy' (.advance ms), h.length, h.calls⟩
  | call text =>
    refine ⟨h.cache, by simp [Crowd.turn, h.length], fun j hj => ?_⟩
    simp only [Crowd.turn, List.getElem?_append, h.length, h.calls j hj]
  | move k move =>
    have hk : k ≠ i := by simpa [Turn.isOf] using hother
    have hsame := h.calls k hk
    cases hcall : w.calls[k]? with
    | none =>
      rw [turn_of_no_call hcall, turn_of_no_call (hsame.trans hcall)]
      exact h
    | some c =>
      obtain ⟨hstage, hcache⟩ :=
        move_alike h.cache htidy htidy' c.text (compiler k c.text) c.stage move
      rw [turn_of_call hcall, turn_of_call (hsame.trans hcall), hstage]
      refine ⟨hcache, by simp only [List.length_set, h.length], fun j hj => ?_⟩
      simp only [List.getElem?_set, h.length, h.calls j hj]

/-- A move of a call that gets no outcome can be left out. -/
theorem Crowd.AlikeBut.skip {w' : Crowd} (h : w.AlikeBut i w')
    (htidy : w.engine.clocked.cache.store.Tidy)
    (hfails : ∀ c, w.calls[i]? = some c → c.stage.faultless = false) (move : Move) :
    (w.turn compiler (.move i move)).AlikeBut i w' := by
  obtain ⟨-, hturn⟩ | ⟨c, e', stage', hcall, hmoves, hturn⟩ := turn_move_cases w i move <;>
    rw [hturn]
  · exact h
  · obtain ⟨text, stage⟩ := c
    have hstage : stage.faultless = false := hfails _ hcall
    have hcache : e'.clocked.Same w'.engine.clocked := by
      cases hmoves with
      | hit => exact h.cache.asked htidy (.get text) rfl
      | miss => exact h.cache.asked htidy (.get text) rfl
      | shut => exact h.cache.asked htidy (.get text) rfl
      | store => cases hstage
      | lose => cases hstage
      | _ => exact h.cache
    refine ⟨hcache, by simp only [List.length_set, h.length], fun j hj => ?_⟩
    rw [h.calls j hj, List.getElem?_set_ne hj.symm]

theorem fails_before {turn : Turn}
    (hfails : ∀ c, (w.turn compiler turn).calls[i]? = some c → c.stage.faultless = false) :
    ∀ c, w.calls[i]? = some c → c.stage.faultless = false := by
  intro c hcall
  by_contra hfaultless
  rw [Bool.not_eq_false] at hfaultless
  obtain ⟨c', hcall', hfaultless'⟩ := faultless_turn compiler hcall hfaultless turn
  rw [hfails c' hcall'] at hfaultless'
  cases hfaultless'

/-- **A call that gets no outcome leaves no trace in the others.** -/
theorem erase_run
    (hfails : ∀ c, (Crowd.after settings compiler turns).calls[i]? = some c →
      c.stage.faultless = false) :
    (Crowd.after settings compiler turns).AlikeBut i
      (Crowd.after settings compiler (turns.filter fun turn => !turn.isOf i)) := by
  induction turns using List.reverseRecOn with
  | nil => exact ⟨⟨rfl, rfl, fun _ => ⟨rfl, rfl, .refl _⟩⟩, rfl, fun _ _ => rfl⟩
  | append_singleton turns turn ih =>
    rw [after_concat] at hfails ⊢
    have hearlier := fails_before hfails
    rw [List.filter_append]
    cases hof : turn.isOf i with
    | false =>
      rw [List.filter_cons_of_pos (by simp [hof]), List.filter_nil, after_concat]
      exact (ih hearlier).turn (after_tidy _) (after_tidy _) hof
    | true =>
      rw [List.filter_cons_of_neg (by simp [hof]), List.filter_nil, List.append_nil]
      obtain ⟨move, rfl⟩ : ∃ move, turn = .move i move := by
        cases turn with
        | move k move => exact ⟨move, by rw [of_decide_eq_true hof]⟩
        | _ => cases hof
      exact (ih hearlier).skip (after_tidy _) hearlier move

theorem fails_run {before : List Turn} (rest : List Turn)
    (hfails : ∀ c, (Crowd.after settings compiler (before ++ rest)).calls[i]? = some c →
      c.stage.faultless = false) :
    ∀ c, (Crowd.after settings compiler before).calls[i]? = some c → c.stage.faultless = false := by
  induction rest using List.reverseRecOn with
  | nil => rwa [List.append_nil] at hfails
  | append_singleton rest turn ih =>
    rw [← List.append_assoc, after_concat] at hfails
    exact ih (fails_before hfails)

/-- A call that gets no outcome adds nothing to the cache. -/
theorem mem_of_mem_turn
    (hfails : ∀ c, w.calls[i]? = some c → c.stage.faultless = false)
    (he : entry ∈ (w.turn compiler (.move i move)).engine.compiled.store.entries) :
    entry ∈ w.engine.compiled.store.entries := by
  obtain ⟨-, hturn⟩ | ⟨⟨text, stage⟩, e', stage', hcall, hmoves, hturn⟩ :=
    turn_move_cases w i move <;> rw [hturn] at he
  · exact he
  · have hstage : stage.faultless = false := hfails _ hcall
    cases hmoves with
    | hit => exact Guarded.mem_of_mem_get he
    | miss => exact Guarded.mem_of_mem_get he
    | shut => exact Guarded.mem_of_mem_get he
    | store => cases hstage
    | lose => cases hstage
    | _ => exact he

/-! ## A compiler that is a function -/

/-- The compiler gives an answer for one of some texts, the fingerprint of which is `key`. -/
def Given (f : String → Compiler.Answer) (texts : List String) (key : Fingerprint)
    (answer : Compiler.Answer) : Prop :=
  ∃ text ∈ texts, Fingerprint.of "compile" text = key ∧ f text = answer

def Crowd.texts (w : Crowd) : List String :=
  w.calls.map (·.text)

/-- What is stored, on the way to the cache or returned is what the compiler gives. -/
structure Faithful (f : String → Compiler.Answer) (w : Crowd) : Prop where
  stored : ∀ entry ∈ w.engine.compiled.store.entries, Given f w.texts entry.key (.ok entry.value)
  answered : ∀ c ∈ w.calls, ∀ outcome, c.stage = .answered outcome → f c.text = .ok outcome
  returned : ∀ c ∈ w.calls, ∀ answer, c.stage = .returned answer →
    Given f w.texts (.of "compile" c.text) answer

variable {f : String → Compiler.Answer}

theorem texts_move {c : CompileCall} (hcall : w.calls[i]? = some c) (stage : Stage) :
    (w.calls.set i ⟨c.text, stage⟩).map (·.text) = w.texts := by
  obtain ⟨hi, rfl⟩ := List.getElem?_eq_some_iff.mp hcall
  rw [List.map_set, Crowd.texts]
  apply List.ext_getElem?
  intro k
  by_cases hik : i = k
  · subst hik
    simp [hi]
  · rw [List.getElem?_set_ne hik]

/-- What a move brings into the cache, to its call and back to its caller is faithful. -/
theorem Moves.faithful (h : Moves e text answer stage move e' stage')
    (hpure : answer = f text)
    (hkey : e.clocked.cache.key text = .of "compile" text) {texts : List String}
    (htext : text ∈ texts)
    (hstored : ∀ entry ∈ e.compiled.store.entries, Given f texts entry.key (.ok entry.value))
    (hanswered : ∀ outcome, stage = .answered outcome → f text = .ok outcome)
    (hreturned : ∀ answer, stage = .returned answer → Given f texts (.of "compile" text) answer) :
    (∀ entry ∈ e'.compiled.store.entries, Given f texts entry.key (.ok entry.value)) ∧
      (∀ outcome, stage' = .answered outcome → f text = .ok outcome) ∧
      ∀ answer, stage' = .returned answer → Given f texts (.of "compile" text) answer := by
  -- what is stored under the fingerprint of the text is given for it
  have hfound : ∀ entry ∈ e.compiled.store.entries, entry.key = e.compiled.key text →
      Given f texts (.of "compile" text) (.ok entry.value) := by
    intro entry he hentry
    rw [← hkey, ← show entry.key = e.clocked.cache.key text from hentry]
    exact hstored entry he
  have hput_stored : ∀ outcome, f text = .ok outcome →
      ∀ entry ∈ (e.compiled.put e.now text outcome).2.store.entries,
        Given f texts entry.key (.ok entry.value) := by
    intro outcome hgiven entry he
    obtain hold | rfl := Guarded.mem_of_mem_put he
    · exact hstored entry hold
    · exact ⟨text, htext, hkey.symm, hgiven⟩
  cases h with
  | hit outcome hget =>
    refine ⟨fun entry he => hstored entry (Guarded.mem_of_mem_get he), nofun, ?_⟩
    rintro _ ⟨⟩
    obtain ⟨entry, he, hentry, rfl⟩ := Guarded.exists_mem_of_get hget
    exact hfound entry he hentry
  | miss => exact ⟨fun entry he => hstored entry (Guarded.mem_of_mem_get he), nofun, nofun⟩
  | shut => exact ⟨fun entry he => hstored entry (Guarded.mem_of_mem_get he), nofun, nofun⟩
  | succeed outcome hanswer =>
    refine ⟨hstored, ?_, nofun⟩
    rintro _ ⟨⟩
    rw [← hpure, hanswer]
  | fail fault hanswer =>
    refine ⟨hstored, nofun, ?_⟩
    rintro _ ⟨⟩
    exact ⟨text, htext, rfl, by rw [← hpure, hanswer]⟩
  | store outcome kept hput =>
    refine ⟨hput_stored outcome (hanswered outcome rfl), nofun, ?_⟩
    rintro _ ⟨⟩
    obtain rfl | ⟨entry, he, hentry, rfl⟩ := Guarded.put_fst_cases hput
    · exact ⟨text, htext, rfl, hanswered _ rfl⟩
    · exact hfound entry he hentry
  | lose outcome => exact ⟨hput_stored outcome (hanswered outcome rfl), nofun, nofun⟩
  | idle => exact ⟨hstored, hanswered, hreturned⟩

theorem Given.mono {texts texts' : List String} (h : Given f texts key answer)
    (hsub : texts ⊆ texts') : Given f texts' key answer := by
  obtain ⟨text, htext, hkey⟩ := h
  exact ⟨text, hsub htext, hkey⟩

theorem Faithful.turn (h : Faithful f w) (hpure : ∀ i text, compiler i text = f text)
    (hkey : ∀ text, w.engine.clocked.cache.key text = .of "compile" text) (turn : Turn) :
    Faithful f (w.turn compiler turn) := by
  cases turn with
  | advance ms => exact ⟨h.stored, h.answered, h.returned⟩
  | call text =>
    have hsub : w.texts ⊆ (w.turn compiler (.call text)).texts := by
      simp [Crowd.texts, Crowd.turn]
    refine ⟨fun entry he => (h.stored entry he).mono hsub, ?_, ?_⟩ <;> intro c hc
    all_goals obtain hc | hc := List.mem_append.mp hc
    · exact h.answered c hc
    · rw [List.mem_singleton.mp hc]
      nofun
    · exact fun answer hstage => (h.returned c hc answer hstage).mono hsub
    · rw [List.mem_singleton.mp hc]
      nofun
  | move i move =>
    obtain ⟨-, hturn⟩ | ⟨c, e', stage', hcall, hmoves, hturn⟩ := turn_move_cases w i move <;>
    rw [hturn]
    · exact h
    · have hmem : c ∈ w.calls := List.mem_of_getElem? hcall
      obtain ⟨hstored, hanswered, hreturned⟩ := hmoves.faithful (hpure i c.text) (hkey c.text)
        (List.mem_map_of_mem hmem) h.stored (h.answered c hmem) (h.returned c hmem)
      have htexts : Crowd.texts ⟨e', w.calls.set i ⟨c.text, stage'⟩⟩ = w.texts :=
        texts_move hcall stage'
      refine ⟨?_, ?_, ?_⟩
      · rwa [htexts]
      · intro c' hc'
        obtain hc' | rfl := List.mem_or_eq_of_mem_set hc'
        · exact h.answered c' hc'
        · exact hanswered
      · rw [htexts]
        intro c' hc'
        obtain hc' | rfl := List.mem_or_eq_of_mem_set hc'
        · exact h.returned c' hc'
        · exact hreturned

/-- **With a compiler that is a function, the cache adds nothing of its own.** -/
theorem faithful_after (hpure : ∀ i text, compiler i text = f text) (turns : List Turn) :
    Faithful f (Crowd.after settings compiler turns) := by
  induction turns using List.reverseRecOn with
  | nil => exact ⟨nofun, nofun, nofun⟩
  | append_singleton turns turn ih =>
    rw [after_concat]
    exact ih.turn hpure (after_key _) turn

theorem Given.eq_of_collisionFree {texts : List String}
    (h : Given f texts (.of "compile" text) answer) (hfree : Cache.CollisionFree "compile" texts)
    (htext : text ∈ texts) : answer = f text := by
  obtain ⟨text', htext', hkey, rfl⟩ := h
  rw [hfree text' htext' text htext hkey]

/-! ## The theorem -/

/-- **Compilations at the same time.**  A compilation is the moves of one call.  Let any number of
calls be made and move in any order, with time passing in between and a compiler that may answer
every call differently.

1. After an outcome has been inserted for a text, and for as long as it lives, every call for that
   text that looks it up or stores what it got returns that outcome.
2. A call returns a fault if its own question to the compiler met with that fault, and not otherwise.
3. The moves of such a call add nothing to the cache, and every other call would stand where it
   stands without them.
4. If the answer depends on the text alone, every call that returns returns the compiler's answer for
   a text that was asked for and has the fingerprint of its own; so it is the answer for its own text
   if no two of them have the same.
5. While a lifetime from now ends at a time that the clock can name, the cache has not failed, and no
   call is lost. -/
theorem concurrent_compile (settings : Settings) (compiler : Nat → String → Compiler.Answer)
    (turns : List Turn) :
    (∀ tools e text, compile tools e text = compileByMoves tools e text) ∧
    (∀ before i middle j move rest text outcome,
      turns = before ++ .move i .store :: (middle ++ .move j move :: rest) →
      (Crowd.after settings compiler before).Inserts i text outcome →
      (Crowd.after settings compiler (before ++ .move i .store :: middle)).Consults j move text →
      (Crowd.after settings compiler (before ++ .move i .store :: middle)).engine.now <
        (Crowd.after settings compiler before).engine.now + settings.cacheTtlMs →
      (Crowd.after settings compiler turns).calls[j]? = some ⟨text, .returned (.ok outcome)⟩) ∧
    (∀ i text fault,
      (Crowd.after settings compiler turns).calls[i]? = some ⟨text, .returned (.error fault)⟩ ↔
        ∃ before rest, turns = before ++ .move i .invoke :: rest ∧
          (Crowd.after settings compiler before).calls[i]? = some ⟨text, .missed⟩ ∧
          compiler i text = .error fault) ∧
    (∀ i text fault,
      (Crowd.after settings compiler turns).calls[i]? = some ⟨text, .returned (.error fault)⟩ →
      (∀ before move rest, turns = before ++ .move i move :: rest →
        (Crowd.after settings compiler (before ++ [.move i move])).engine.compiled.store.entries ⊆
          (Crowd.after settings compiler before).engine.compiled.store.entries) ∧
      ∀ j, j ≠ i →
        (Crowd.after settings compiler (turns.filter fun turn => !turn.isOf i)).calls[j]? =
          (Crowd.after settings compiler turns).calls[j]?) ∧
    (∀ f : String → Compiler.Answer, (∀ i text, compiler i text = f text) →
      ∀ (i : Nat) (text : String) (answer : Compiler.Answer),
        (Crowd.after settings compiler turns).calls[i]? = some ⟨text, .returned answer⟩ →
        Given f (Crowd.after settings compiler turns).texts (.of "compile" text) answer ∧
          (Cache.CollisionFree "compile" (Crowd.after settings compiler turns).texts →
            answer = f text)) ∧
    ((Crowd.after settings compiler turns).engine.now + settings.cacheTtlMs < timeBound →
      (Crowd.after settings compiler turns).engine.compiled.poisoned = false ∧
        ∀ (i : Nat) (text : String),
          (Crowd.after settings compiler turns).calls[i]? ≠ some ⟨text, .lost⟩) := by
  refine ⟨compile_eq_moves, ?_, fun i text fault => fault_iff, ?_, ?_, ?_⟩
  · rintro before i middle j move rest text outcome rfl hinserts hconsults hnow
    exact consults_returns hinserts hconsults hnow
  · intro i text fault hfault
    have hfails : ∀ c, (Crowd.after settings compiler turns).calls[i]? = some c →
        c.stage.faultless = false := by
      intro c hcall
      rw [hfault] at hcall
      cases hcall
      rfl
    refine ⟨?_, (erase_run hfails).calls⟩
    rintro before move rest rfl entry he
    rw [after_concat] at he
    exact mem_of_mem_turn (fails_run _ hfails) he
  · intro f hpure i text answer hcall
    have hmem := List.mem_of_getElem? hcall
    have hgiven := (faithful_after hpure turns).returned _ hmem answer rfl
    exact ⟨hgiven, fun hfree => hgiven.eq_of_collisionFree hfree (List.mem_map_of_mem hmem)⟩
  · intro hroom
    have hwhole := whole_of_lt hroom
    refine ⟨hwhole, fun i text hlost => ?_⟩
    rw [poisoned_of_lost hlost] at hwhole
    cases hwhole

/-- Two calls for one text miss, and the compiler answers them differently; the second is late with
its outcome.  A third call, for another text, meets with a fault. -/
def racingTurns : List Turn :=
  [.call "a", .call "a", .call "b", .move 0 .lookup, .move 1 .lookup, .move 2 .lookup,
    .move 1 .invoke, .move 0 .invoke, .move 2 .invoke, .move 0 .store, .advance 5, .call "a",
    .move 1 .store, .move 3 .lookup]

def racingCompiler (i : Nat) (text : String) : Compiler.Answer :=
  if text = "b" then .error .missingSourceMap else .ok (.compiled (toString i) ⟨[]⟩)

theorem concurrent_compile_racingTurns :
    (Crowd.after default racingCompiler racingTurns).calls[1]? =
        some ⟨"a", .returned (.ok (.compiled "0" ⟨[]⟩))⟩ ∧
      (Crowd.after default racingCompiler racingTurns).calls[2]? =
        some ⟨"b", .returned (.error .missingSourceMap)⟩ ∧
      (Crowd.after default racingCompiler (racingTurns.filter fun turn => !turn.isOf 2)).calls[3]? =
        some ⟨"a", .returned (.ok (.compiled "0" ⟨[]⟩))⟩ := by
  obtain ⟨-, hagree, hfault, hnothing, -⟩ := concurrent_compile default racingCompiler racingTurns
  have hinserts : (Crowd.after default racingCompiler (racingTurns.take 9)).Inserts 0 "a"
      (.compiled "0" ⟨[]⟩) := by
    refine ⟨by decide +kernel, ?_⟩
    rw [Guarded.not_holds_iff]
    decide +kernel
  have hlate := hagree (racingTurns.take 9) 0 [.advance 5, .call "a"] 1 .store [.move 3 .lookup] "a"
    _ rfl hinserts ⟨by decide +kernel, .inr ⟨.compiled "1" ⟨[]⟩, by decide +kernel, rfl⟩⟩
    (by decide +kernel)
  have hlookup := hagree (racingTurns.take 9) 0 [.advance 5, .call "a", .move 1 .store] 3 .lookup []
    "a" _ rfl hinserts ⟨by decide +kernel, .inl ⟨by decide +kernel, rfl⟩⟩ (by decide +kernel)
  have hfaulty := (hfault 2 "b" .missingSourceMap).mpr
    ⟨racingTurns.take 8, racingTurns.drop 9, rfl, by decide +kernel, rfl⟩
  exact ⟨hlate, hfaulty, ((hnothing 2 "b" _ hfaulty).2 3 (by decide)).trans hlookup⟩

end DialectBridge.Engine
