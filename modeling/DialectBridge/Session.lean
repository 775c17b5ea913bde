import DialectBridge.Timing.Workshop

/-!
# Document sessions

A session holds the text of an edited document and a generation that every edit and the closing of
the document raise.  Work is started for a generation and may change the session only while that
generation is the current one.  Two debouncers hold the work that waits: a compilation after an
edit, a verification after a compilation.
-/

namespace DialectBridge

/-- Where the work on a document stands. -/
inductive Phase where
  | idle
  | debouncing
  | compilingDialect
  | failedDialect
  | compilingHostVerify
  | mapping
  | published
  deriving DecidableEq, Repr, Inhabited

namespace Phase

/-- The phases with their names. -/
def names : List (Phase × String) :=
  [(.idle, "Idle"), (.debouncing, "Debouncing"), (.compilingDialect, "CompilingDialect"),
    (.failedDialect, "FailedDialect"), (.compilingHostVerify, "CompilingHostVerify"),
    (.mapping, "Mapping"), (.published, "Published")]

/-- The name of a phase. -/
def name (p : Phase) : String :=
  ((names.find? fun entry => entry.1 = p).map (·.2)).getD ""

/-- The phase of a name. -/
def ofName? (s : String) : Option Phase :=
  (names.find? fun entry => entry.2 = s).map (·.1)

end Phase

/-- The state of an edited document, with compile jobs of type `κ` and verify jobs of type `ν`. -/
structure Session (κ ν : Type) where
  text : String
  generation : Nat
  phase : Phase
  compileTimer : Debouncer κ
  verifyTimer : Debouncer ν
  deriving DecidableEq, Repr, Inhabited

namespace Session

variable {κ ν : Type}

/-- A session before the first edit. -/
def fresh (compileDelay verifyDelay : Nat) : Session κ ν :=
  ⟨"", 0, .idle, .idle compileDelay, .idle verifyDelay⟩

/-- The generation is the current one. -/
def isCurrent (s : Session κ ν) (generation : Nat) : Bool :=
  s.generation = generation

/-- Takes a new text.  A verification that waits is dropped; a compilation that waits is left to be
replaced. -/
def edit (s : Session κ ν) (text : String) : Session κ ν :=
  { s with text, generation := s.generation + 1, phase := .debouncing,
           verifyTimer := s.verifyTimer.cancel.1 }

/-- Enters a phase, if the generation is the current one; tells whether it is. -/
def advance (s : Session κ ν) (generation : Nat) (phase : Phase) : Session κ ν × Bool :=
  if s.isCurrent generation then ({ s with phase }, true) else (s, false)

/-- Enters a phase and gives the text, if the generation is the current one. -/
def advanceWithText (s : Session κ ν) (generation : Nat) (phase : Phase) :
    Session κ ν × Option String :=
  if s.isCurrent generation then ({ s with phase }, some s.text) else (s, none)

/-- Schedules a compilation. -/
def scheduleCompile (s : Session κ ν) (now : Nat) (job : κ) : Session κ ν :=
  { s with compileTimer := s.compileTimer.schedule now job }

/-- Schedules a verification, if the generation is the current one; tells whether it is. -/
def scheduleVerify (s : Session κ ν) (now generation : Nat) (job : ν) : Session κ ν × Bool :=
  if s.isCurrent generation then
    ({ s with verifyTimer := s.verifyTimer.schedule now job }, true)
  else (s, false)

/-- Drops all waiting work and lets no started work go on; the text stays. -/
def close (s : Session κ ν) : Session κ ν :=
  { s with generation := s.generation + 1, phase := .idle,
           compileTimer := s.compileTimer.cancel.1, verifyTimer := s.verifyTimer.cancel.1 }

/-- The waiting compilation is due before the waiting verification, or at the same time. -/
def compileFirst (s : Session κ ν) : Bool :=
  match s.compileTimer.due?, s.verifyTimer.due? with
  | some compile, some verify => compile ≤ verify
  | some _, none => true
  | none, _ => false

instance {α : Type} : Timers (Session α α) α where
  due? s := Clockwork.earlier? s.compileTimer.due? s.verifyTimer.due?
  fire s :=
    if s.compileFirst then
      let (timer, job) := s.compileTimer.fire
      ({ s with compileTimer := timer }, job)
    else
      let (timer, job) := s.verifyTimer.fire
      ({ s with verifyTimer := timer }, job)
  armed s :=
    (if s.compileTimer.waiting.isSome then 1 else 0) +
      (if s.verifyTimer.waiting.isSome then 1 else 0)

end Session

end DialectBridge
