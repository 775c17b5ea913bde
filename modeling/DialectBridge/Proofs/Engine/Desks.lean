import DialectBridge.Engine.Basic

/-!
# The desks of an engine

The engine keeps its desks in a list, one for each document.  What is done to one document leaves the
desks of the others alone, and what happens next is the earliest of what the timers of all desks wait
for.

* `desk_put`, `desk_put_of_ne` — the desks after one was put in its place;
* `steps_putDesk` — the steps that are still to come, desk by desk;
* `earliest?_eq_some` — the earliest timer.
-/

namespace DialectBridge.Engine

open Pipeline

variable {e : Engine} {sid other : SessionId} {d old : Desk} {desks : List (SessionId × Desk)}
  {entry : SessionId × Desk}

/-- The desk of a document is put in its place. -/
def put (e : Engine) (sid : SessionId) (d : Desk) : Engine :=
  { e with desks := putDesk sid d e.desks }

theorem find?_putDesk : (putDesk sid d desks).find? (fun entry => entry.1 = sid) = some (sid, d) := by
  induction desks with
  | nil => simp [putDesk]
  | cons entry rest ih =>
    unfold putDesk
    by_cases h : entry.1 = sid
    · simp [h]
    · simp [h, ih]

theorem find?_putDesk_of_ne (h : other ≠ sid) :
    (putDesk sid d desks).find? (fun entry => entry.1 = other) =
      desks.find? fun entry => entry.1 = other := by
  induction desks with
  | nil => simp [putDesk, Ne.symm h]
  | cons entry rest ih =>
    unfold putDesk
    by_cases hentry : entry.1 = sid
    · subst hentry
      simp [Ne.symm h]
    · rw [if_neg hentry, List.find?_cons, List.find?_cons, ih]

theorem desk_put (e : Engine) (sid : SessionId) (d : Desk) : (e.put sid d).desk sid = d := by
  simp only [desk, put, find?_putDesk]

theorem desk_put_of_ne (h : other ≠ sid) : (e.put sid d).desk other = e.desk other := by
  unfold desk
  rw [put, find?_putDesk_of_ne h]

theorem put_put (e : Engine) (sid : SessionId) (d d' : Desk) :
    (e.put sid d).put sid d' = e.put sid d' := by
  have hlist : putDesk sid d' (putDesk sid d e.desks) = putDesk sid d' e.desks := by
    induction e.desks with
    | nil => simp [putDesk]
    | cons entry rest ih =>
      by_cases h : entry.1 = sid
      · simp [putDesk, h]
      · simp [putDesk, h, ih]
  simp only [put, hlist]

theorem operate_eq {operation : Operation} {d : Desk} {output : List Output}
    (h : (e.desk sid).operate e.settings.verify e.now operation = (d, output)) :
    e.operate sid operation = (e.put sid d, output) := by
  unfold operate
  rw [h]
  rfl

theorem mem_putDesk (h : entry ∈ putDesk sid d desks) : entry = (sid, d) ∨ entry ∈ desks := by
  induction desks with
  | nil => exact .inl (List.mem_singleton.mp h)
  | cons first rest ih =>
    unfold putDesk at h
    split at h
    · rcases List.mem_cons.mp h with h | h
      · exact .inl h
      · exact .inr (List.mem_cons_of_mem _ h)
    · rcases List.mem_cons.mp h with rfl | h
      · exact .inr List.mem_cons_self
      · exact (ih h).imp_right (List.mem_cons_of_mem _)

/-- Every document has one desk at most. -/
def Keyed (desks : List (SessionId × Desk)) : Prop :=
  (desks.map (·.1)).Nodup

theorem Keyed.putDesk (h : Keyed desks) (sid : SessionId) (d : Desk) :
    Keyed (putDesk sid d desks) := by
  induction desks with
  | nil => simp [Keyed, Engine.putDesk]
  | cons first rest ih =>
    obtain ⟨hfirst, hrest⟩ := List.nodup_cons.mp h
    unfold Engine.putDesk
    split
    · rename_i huri
      rw [Keyed, List.map_cons, ← huri]
      exact h
    · rename_i huri
      refine List.nodup_cons.mpr ⟨fun hmem => ?_, ih hrest⟩
      obtain ⟨entry, hentry, hkey⟩ := List.mem_map.mp hmem
      rcases mem_putDesk hentry with rfl | hentry
      · exact huri hkey.symm
      · exact hfirst (List.mem_map.mpr ⟨entry, hentry, hkey⟩)

theorem Keyed.find? (h : Keyed desks) (hentry : entry ∈ desks) :
    desks.find? (fun other => other.1 = entry.1) = some entry := by
  induction desks with
  | nil => cases hentry
  | cons first rest ih =>
    obtain ⟨hfirst, hrest⟩ := List.nodup_cons.mp h
    rcases List.mem_cons.mp hentry with rfl | hentry
    · simp
    · have hne : first.1 ≠ entry.1 := by
        intro heq
        exact hfirst (List.mem_map.mpr ⟨entry, hentry, heq.symm⟩)
      rw [List.find?_cons_of_neg (by simpa using hne)]
      exact ih hrest hentry

theorem Keyed.desk_eq (h : Keyed e.desks) (hentry : entry ∈ e.desks) : e.desk entry.1 = entry.2 := by
  unfold desk
  rw [h.find? hentry]

/-- A document has a desk of its own, or a fresh one. -/
theorem desk_cases (e : Engine) (sid : SessionId) :
    (sid, e.desk sid) ∈ e.desks ∨
      e.desk sid = .fresh e.settings.compileDebounceMs e.settings.verifyDebounceMs := by
  unfold desk
  split
  · rename_i entry hfind
    have huri : entry.1 = sid := by simpa using List.find?_some hfind
    left
    rw [← huri]
    exact List.mem_of_find?_eq_some hfind
  · exact .inr rfl

/-! ## What happens next -/

/-- The steps that the timers of some desks can still cause. -/
def steps (desks : List (SessionId × Desk)) : Nat :=
  desks.foldr (fun entry n => deskSteps entry.2 + n) 0

theorem steps_putDesk (h : desks.find? (fun entry => entry.1 = sid) = some (sid, old)) :
    steps (putDesk sid d desks) + deskSteps old = steps desks + deskSteps d := by
  induction desks with
  | nil => cases h
  | cons first rest ih =>
    by_cases hfirst : first.1 = sid
    · rw [List.find?_cons_of_pos (by simpa using hfirst)] at h
      obtain rfl := Option.some.inj h
      rw [putDesk, if_pos rfl]
      simp only [steps, List.foldr_cons]
      omega
    · rw [List.find?_cons_of_neg (by simpa using hfirst)] at h
      have := ih h
      rw [putDesk, if_neg hfirst]
      simp only [steps, List.foldr_cons] at this ⊢
      omega

theorem earliest?_eq_none {timers : List (Timer Due)} : earliest? timers = none ↔ timers = [] := by
  cases timers with
  | nil => simp [earliest?]
  | cons timer rest =>
    simp only [earliest?, reduceCtorEq, iff_false]
    cases earliest? rest with
    | none => simp
    | some other => simp only; split <;> simp

theorem earliest?_eq_some {timers : List (Timer Due)} {first : Timer Due}
    (h : earliest? timers = some first) :
    first ∈ timers ∧ ∀ timer ∈ timers, first.due ≤ timer.due := by
  induction timers generalizing first with
  | nil => cases h
  | cons timer rest ih =>
    unfold earliest? at h
    cases hrest : earliest? rest with
    | none =>
      rw [hrest] at h
      obtain rfl := Option.some.inj h
      rw [earliest?_eq_none.mp hrest]
      simp
    | some other =>
      obtain ⟨hmem, hle⟩ := ih hrest
      rw [hrest] at h
      simp only at h
      split at h
      · rename_i hless
        obtain rfl := Option.some.inj h
        refine ⟨List.mem_cons_of_mem _ hmem, fun timer' htimer' => ?_⟩
        rcases List.mem_cons.mp htimer' with rfl | htimer'
        · exact Nat.le_of_lt hless
        · exact hle timer' htimer'
      · rename_i hnot
        obtain rfl := Option.some.inj h
        refine ⟨List.mem_cons_self, fun timer' htimer' => ?_⟩
        rcases List.mem_cons.mp htimer' with rfl | htimer'
        · exact Nat.le_refl _
        · exact Nat.le_trans (Nat.le_of_not_lt hnot) (hle timer' htimer')

/-- What a desk waits for. -/
theorem mem_deskDues {timer : Timer Due} :
    timer ∈ deskDues entry ↔
      (∃ t, entry.2.session.compileTimer.waiting = some t ∧ timer = ⟨t.due, .compileTimer entry.1⟩) ∨
        ∃ t, entry.2.session.verifyTimer.waiting = some t ∧
          timer = ⟨t.due, .verifyTimer entry.1⟩ := by
  unfold deskDues Debouncer.due?
  cases entry.2.session.compileTimer.waiting <;> cases entry.2.session.verifyTimer.waiting <;> simp

/-- Without calls under way, the timers of the desks are all there is to wait for. -/
theorem dues_of_no_calls (h : e.calls = []) : e.dues = e.desks.flatMap deskDues := by
  simp [dues, h]

end DialectBridge.Engine
