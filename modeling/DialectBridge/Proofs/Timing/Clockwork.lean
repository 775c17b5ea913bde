import DialectBridge.Timing.Workshop

/-!
# Forecasts of a machine with a clock

What a clockwork will show can often be read off its state.  A forecast is such a reading that every
change bears out: what the change shows is the next part of the forecast, at the time the change is
due, and the rest is the forecast of the state it leads to.  Letting the clock run to a time then
shows just the part of the forecast up to that time.

* `stamped` — a clockwork that shows when something is seen;
* `Foretells` — forecasts of what is seen, as far as it is of interest;
* `Foretells.run` — the forecast up to a time is what is seen until then.
-/

namespace DialectBridge

namespace Clockwork

variable {σ ε : Type} {c : Clockwork σ ε}

/-- The same machine, with the time of all that is seen. -/
def stamped (c : Clockwork σ ε) : Clockwork σ (Nat × ε) where
  due? := c.due?
  step s := ((c.step s).1, (c.step s).2.map fun seen => ((c.due? s).getD 0, seen))
  remaining := c.remaining

/-- With nothing due in time, nothing changes. -/
theorem run_still {limit : Nat} {s : σ} (h : ∀ due, c.due? s = some due → limit < due) (fuel : Nat) :
    c.run limit fuel s = (s, []) := by
  cases fuel with
  | zero => rfl
  | succ fuel =>
    unfold run
    split
    · rfl
    · rename_i due hdue
      rw [if_neg (Nat.not_le.mpr (h due hdue))]

theorem run_due {limit due : Nat} {s : σ} (hdue : c.due? s = some due) (h : due ≤ limit)
    (fuel : Nat) :
    c.run limit (fuel + 1) s =
      ((c.run limit fuel (c.step s).1).1, (c.step s).2 ++ (c.run limit fuel (c.step s).1).2) := by
  rw [run, hdue]
  exact if_pos h

theorem run_stamped (c : Clockwork σ ε) (limit fuel : Nat) (s : σ) :
    (c.stamped.run limit fuel s).1 = (c.run limit fuel s).1 ∧
      (c.stamped.run limit fuel s).2.map (·.2) = (c.run limit fuel s).2 := by
  induction fuel generalizing s with
  | zero => exact ⟨rfl, rfl⟩
  | succ fuel ih =>
    by_cases h : ∀ due, c.due? s = some due → limit < due
    · rw [run_still h, run_still (c := c.stamped) h]
      exact ⟨rfl, rfl⟩
    · obtain ⟨due, hdue, hle⟩ : ∃ due, c.due? s = some due ∧ due ≤ limit := by
        simpa using h
      obtain ⟨hstate, hseen⟩ := ih (c.step s).1
      rw [run_due hdue hle, run_due (c := c.stamped) hdue hle]
      refine ⟨hstate, ?_⟩
      have hstep : ((c.stamped.step s).2.map fun seen => seen.2) = (c.step s).2 := by
        simp [stamped, Function.comp_def]
      simp only [List.map_append, hstep]
      rw [← hseen]
      rfl

/-- `forecast s ahead` reads off a state what is going to be seen of it, by time.  Only what is of
interest counts, and only what changes up to `limit`. -/
structure Foretells (c : Clockwork σ ε) (limit : Nat) (interest : ε → Bool)
    (forecast : σ → List (Nat × ε) → Prop) : Prop where
  /-- Nothing is foretold for a time before the next change. -/
  wait : ∀ {s ahead}, forecast s ahead → ∀ seen ∈ ahead, ∃ due, c.due? s = some due ∧ due ≤ seen.1
  /-- A change shows the next part of the forecast. -/
  step : ∀ {s ahead due}, forecast s ahead → c.due? s = some due → due ≤ limit →
    ∃ later, forecast (c.step s).1 later ∧
      ahead = ((c.step s).2.filter interest).map (fun seen => (due, seen)) ++ later
  /-- The changes come to an end. -/
  ends : ∀ {s ahead due}, forecast s ahead → c.due? s = some due → due ≤ limit →
    c.remaining (c.step s).1 < c.remaining s

/-- With nothing due in time, nothing is seen and the forecast stays. -/
theorem Foretells.run_still {limit : Nat} {interest : ε → Bool}
    {forecast : σ → List (Nat × ε) → Prop} (hforetells : Foretells c limit interest forecast) {s : σ}
    {ahead : List (Nat × ε)} (h : forecast s ahead)
    (hstill : ∀ due, c.due? s = some due → limit < due) (fuel : Nat) :
    ((c.stamped.run limit fuel s).2.filter fun seen => interest seen.2) =
        ahead.filter (fun seen => seen.1 ≤ limit) ∧
      forecast (c.stamped.run limit fuel s).1 (ahead.filter fun seen => limit < seen.1) ∧
      ∀ due, c.due? (c.stamped.run limit fuel s).1 = some due → limit < due := by
  have hlate : ∀ seen ∈ ahead, limit < seen.1 := by
    intro seen hseen
    obtain ⟨due, hdue, hle⟩ := hforetells.wait h seen hseen
    have := hstill due hdue
    omega
  rw [Clockwork.run_still (c := c.stamped) hstill]
  refine ⟨?_, ?_, hstill⟩
  · refine (List.filter_eq_nil_iff.mpr fun seen hseen => ?_).symm
    have := hlate seen hseen
    simp
    omega
  · rwa [List.filter_eq_self.mpr fun seen hseen => by simpa using hlate seen hseen]

/-- **The forecast up to a time is what is seen until then**, and the rest stays the forecast. -/
theorem Foretells.run {limit : Nat} {interest : ε → Bool} {forecast : σ → List (Nat × ε) → Prop}
    (hforetells : Foretells c limit interest forecast) {fuel : Nat} {s : σ}
    {ahead : List (Nat × ε)} (h : forecast s ahead) (hfuel : c.remaining s ≤ fuel) :
    ((c.stamped.run limit fuel s).2.filter fun seen => interest seen.2) =
        ahead.filter (fun seen => seen.1 ≤ limit) ∧
      forecast (c.stamped.run limit fuel s).1 (ahead.filter fun seen => limit < seen.1) ∧
      ∀ due, c.due? (c.stamped.run limit fuel s).1 = some due → limit < due := by
  induction fuel generalizing s ahead with
  | zero =>
    refine hforetells.run_still h (fun due hdue => Nat.lt_of_not_le fun hle => ?_) 0
    -- without changes left none is due
    have := hforetells.ends h hdue hle
    omega
  | succ fuel ih =>
    by_cases hstill : ∀ due, c.due? s = some due → limit < due
    · exact hforetells.run_still h hstill (fuel + 1)
    · obtain ⟨due, hdue, hle⟩ : ∃ due, c.due? s = some due ∧ due ≤ limit := by simpa using hstill
      obtain ⟨later, hlater, rfl⟩ := hforetells.step h hdue hle
      obtain ⟨hseen, hforecast, hnone⟩ := ih hlater (by have := hforetells.ends h hdue hle; omega)
      rw [run_due (c := c.stamped) hdue hle]
      refine ⟨?_, ?_, hnone⟩
      · have hnow : ((c.stamped.step s).2.filter fun seen => interest seen.2) =
            ((c.step s).2.filter interest).map (fun seen => (due, seen)) := by
          simp [stamped, hdue, List.filter_map, Function.comp_def]
        rw [List.filter_append, List.filter_append, hnow]
        have hkept : (((c.step s).2.filter interest).map (fun seen => (due, seen))).filter
            (fun seen => seen.1 ≤ limit) =
              ((c.step s).2.filter interest).map (fun seen => (due, seen)) := by
          refine List.filter_eq_self.mpr fun seen hmem => ?_
          obtain ⟨_, -, rfl⟩ := List.mem_map.mp hmem
          simpa using hle
        rw [hkept]
        exact congrArg _ hseen
      · have hgone : (((c.step s).2.filter interest).map (fun seen => (due, seen))).filter
            (fun seen => limit < seen.1) = [] := by
          refine List.filter_eq_nil_iff.mpr fun seen hmem => ?_
          obtain ⟨_, -, rfl⟩ := List.mem_map.mp hmem
          simpa using hle
        rw [List.filter_append, hgone]
        exact hforecast

/-! ## The earliest of some times -/

theorem earlier?_eq_none {a b : Option Nat} : earlier? a b = none ↔ a = none ∧ b = none := by
  cases a <;> cases b <;> simp [earlier?]

theorem earlier?_eq_some {a b : Option Nat} {m : Nat} (h : earlier? a b = some m) :
    (a = some m ∨ b = some m) ∧ (∀ n, a = some n → m ≤ n) ∧ ∀ n, b = some n → m ≤ n := by
  cases a <;> cases b <;> simp [earlier?] at h ⊢ <;> omega

end Clockwork

namespace Workshop

variable {ι : Type} {running : List (Timer ι)}

theorem firstEnd?_cons (t : Timer ι) (running : List (Timer ι)) :
    firstEnd? (t :: running) = Clockwork.earlier? (some t.due) (firstEnd? running) := by
  have hfold : ∀ (running : List (Timer ι)) (first : Option Nat),
      running.foldl (fun first t => Clockwork.earlier? first (some t.due)) first =
        Clockwork.earlier? first (firstEnd? running) := by
    intro running
    induction running with
    | nil => intro first; cases first <;> rfl
    | cons t rest ih =>
      intro first
      unfold firstEnd?
      simp only [List.foldl_cons, ih]
      cases first <;> cases firstEnd? rest <;> simp [Clockwork.earlier?, Nat.min_assoc]
  exact hfold running (some t.due)

theorem firstEnd?_eq_none : firstEnd? running = none ↔ running = [] := by
  cases running with
  | nil => simp [firstEnd?]
  | cons t rest => simp [firstEnd?_cons, Clockwork.earlier?_eq_none]

theorem firstEnd?_eq_some {m : Nat} (h : firstEnd? running = some m) :
    (∃ t ∈ running, t.due = m) ∧ ∀ t ∈ running, m ≤ t.due := by
  induction running generalizing m with
  | nil => cases h
  | cons t rest ih =>
    rw [firstEnd?_cons] at h
    obtain ⟨hfound, hhead, htail⟩ := Clockwork.earlier?_eq_some h
    have hle := hhead t.due rfl
    constructor
    · rcases hfound with hfound | hfound
      · exact ⟨t, List.mem_cons_self, Option.some.inj hfound⟩
      · obtain ⟨u, hu, hdue⟩ := (ih hfound).1
        exact ⟨u, List.mem_cons_of_mem _ hu, hdue⟩
    · intro u hu
      rcases List.mem_cons.mp hu with rfl | hu
      · exact hle
      · cases hrest : firstEnd? rest with
        | none => rw [firstEnd?_eq_none.mp hrest] at hu; cases hu
        | some n => exact Nat.le_trans (htail n hrest) ((ih hrest).2 u hu)

theorem takeEnding_eq_some {time : Nat} {job : ι} {rest : List (Timer ι)}
    (h : takeEnding time running = some (job, rest)) :
    ∃ before after, running = before ++ ⟨time, job⟩ :: after ∧ rest = before ++ after := by
  induction running generalizing rest with
  | nil => cases h
  | cons t running ih =>
    unfold takeEnding at h
    split at h
    · rename_i hdue
      simp only [Option.some.injEq, Prod.mk.injEq] at h
      obtain ⟨rfl, rfl⟩ := h
      exact ⟨[], running, by rw [← hdue]; rfl, rfl⟩
    · obtain ⟨⟨job', rest'⟩, hfound, heq⟩ := Option.map_eq_some_iff.mp h
      simp only [Prod.mk.injEq] at heq
      obtain ⟨rfl, rfl⟩ := heq
      obtain ⟨before, after, rfl, rfl⟩ := ih hfound
      exact ⟨t :: before, after, rfl, rfl⟩

theorem takeEnding_eq_none {time : Nat} (h : takeEnding time running = none) :
    ∀ t ∈ running, t.due ≠ time := by
  induction running with
  | nil => intro t ht; cases ht
  | cons t running ih =>
    unfold takeEnding at h
    split at h
    · cases h
    · rename_i hdue
      intro u hu
      rcases List.mem_cons.mp hu with rfl | hu
      · exact hdue
      · exact ih (Option.map_eq_none_iff.mp h) u hu

end Workshop

end DialectBridge
