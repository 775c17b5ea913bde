import DialectBridge.Command.Arguments

/-!
# The numbers on a command line

Whatever is read from a command line, the numbers in its flags fit 64 bits: a number is read once, where
its flag is set, and nothing that is read later changes it.

* `Flags.Fits`, `Reader.Fits` — flags with such numbers, and a reader that has read no others;
* `setValue_fits`, `Reader.Fits.setSide` — a flag that is set, and the side it is set on;
* `fits_of_parse` — the flags of every command line.
-/

namespace DialectBridge.CommandLine

/-- The numbers in the flags fit 64 bits. -/
structure Flags.Fits (f : Flags) : Prop where
  compileDebounceMs : ∀ n, f.compileDebounceMs = some n → n < UInt64.size
  verifyDebounceMs : ∀ n, f.verifyDebounceMs = some n → n < UInt64.size
  cacheTtlSecs : ∀ n, f.cacheTtlSecs = some n → n < UInt64.size

theorem Flags.fits_none : Flags.Fits {} where
  compileDebounceMs _ h := by cases h
  verifyDebounceMs _ h := by cases h
  cacheTtlSecs _ h := by cases h

theorem Flags.Fits.over {inner outer : Flags} (hinner : inner.Fits) (houter : outer.Fits) :
    (inner.over outer).Fits where
  compileDebounceMs n h := by
    rcases Option.or_eq_some_iff.mp h with h | ⟨-, h⟩
    · exact hinner.compileDebounceMs n h
    · exact houter.compileDebounceMs n h
  verifyDebounceMs n h := by
    rcases Option.or_eq_some_iff.mp h with h | ⟨-, h⟩
    · exact hinner.verifyDebounceMs n h
    · exact houter.verifyDebounceMs n h
  cacheTtlSecs n h := by
    rcases Option.or_eq_some_iff.mp h with h | ⟨-, h⟩
    · exact hinner.cacheTtlSecs n h
    · exact houter.cacheTtlSecs n h

/-! ## Setting a flag -/

theorem bind_eq_ok {ε α β : Type} {x : Except ε α} {f : α → Except ε β} {b : β}
    (h : (x >>= f) = .ok b) : ∃ a, x = .ok a ∧ f a = .ok b := by
  cases x with
  | error e => cases h
  | ok a => exact ⟨a, rfl, h⟩

theorem digits?_lt {bound n : Nat} {cs : List Char} (h : Text.digits? bound cs = some n) :
    n < bound := by
  unfold Text.digits? at h
  split at h
  · cases h
  · split at h
    · rename_i hlt
      exact Option.some.inj h ▸ hlt
    · cases h

theorem number_lt {value : String} {n : Nat} (h : number value = .ok n) : n < UInt64.size := by
  unfold number at h
  split at h
  · rename_i hread
    obtain rfl := Except.ok.inj h
    unfold Text.numeral? at hread
    split at hread <;> exact digits?_lt hread
  · cases h

theorem setOnce_eq_ok {α : Type} {old new : Option α} {value : α} (h : setOnce old value = .ok new) :
    new = some value := by
  cases old with
  | none => exact (Except.ok.inj h).symm
  | some _ => cases h

variable {s t : Side} {r : Reader} {name : Option Name} {flag value : String}

/-- A flag that is set keeps the numbers within 64 bits. -/
theorem setValue_fits (hs : s.flags.Fits) (h : s.setValue name flag value = some (.ok t)) :
    t.flags.Fits := by
  unfold Side.setValue at h
  split at h
  · obtain ⟨_, -, h⟩ := bind_eq_ok (Option.some.inj h)
    obtain ⟨_, -, h⟩ := bind_eq_ok h
    obtain rfl := Except.ok.inj h
    exact { hs with }
  · obtain ⟨_, -, h⟩ := bind_eq_ok (Option.some.inj h)
    obtain rfl := Except.ok.inj h
    exact { hs with }
  · obtain ⟨_, -, h⟩ := bind_eq_ok (Option.some.inj h)
    obtain rfl := Except.ok.inj h
    exact { hs with }
  · obtain ⟨_, -, h⟩ := bind_eq_ok (Option.some.inj h)
    obtain rfl := Except.ok.inj h
    exact { hs with }
  · obtain ⟨ms, hms, h⟩ := bind_eq_ok (Option.some.inj h)
    obtain ⟨_, hset, h⟩ := bind_eq_ok h
    obtain rfl := Except.ok.inj h
    obtain rfl := setOnce_eq_ok hset
    exact { hs with compileDebounceMs := fun n hn => Option.some.inj hn ▸ number_lt hms }
  · obtain ⟨ms, hms, h⟩ := bind_eq_ok (Option.some.inj h)
    obtain ⟨_, hset, h⟩ := bind_eq_ok h
    obtain rfl := Except.ok.inj h
    obtain rfl := setOnce_eq_ok hset
    exact { hs with verifyDebounceMs := fun n hn => Option.some.inj hn ▸ number_lt hms }
  · obtain ⟨secs, hsecs, h⟩ := bind_eq_ok (Option.some.inj h)
    obtain ⟨_, hset, h⟩ := bind_eq_ok h
    obtain rfl := Except.ok.inj h
    obtain rfl := setOnce_eq_ok hset
    exact { hs with cacheTtlSecs := fun n hn => Option.some.inj hn ▸ number_lt hsecs }
  · split at h
    · obtain ⟨_, -, h⟩ := bind_eq_ok (Option.some.inj h)
      obtain ⟨_, -, h⟩ := bind_eq_ok h
      obtain rfl := Except.ok.inj h
      exact hs
    · cases h
  · split at h
    · obtain ⟨_, -, h⟩ := bind_eq_ok (Option.some.inj h)
      obtain ⟨_, -, h⟩ := bind_eq_ok h
      obtain rfl := Except.ok.inj h
      exact hs
    · cases h
  · cases h

theorem raise_fits (hs : s.flags.Fits) (h : s.raise name flag = .ok t) : t.flags.Fits := by
  unfold Side.raise at h
  split at h
  · obtain ⟨_, -, h⟩ := bind_eq_ok h
    obtain rfl := Except.ok.inj h
    exact { hs with }
  · split at h
    · obtain ⟨_, -, h⟩ := bind_eq_ok h
      obtain rfl := Except.ok.inj h
      exact hs
    · cases h
  · split at h
    · obtain ⟨_, -, h⟩ := bind_eq_ok h
      obtain rfl := Except.ok.inj h
      exact hs
    · cases h
  · cases h

theorem position_fits {command : Name} (hs : s.flags.Fits) (h : s.position command value = .ok t) :
    t.flags.Fits := by
  unfold Side.position at h
  split at h
  · cases h
  · obtain ⟨_, -, h⟩ := bind_eq_ok h
    obtain ⟨_, -, h⟩ := bind_eq_ok h
    obtain rfl := Except.ok.inj h
    exact hs

/-! ## Reading on -/

/-- No number has been read that does not fit. -/
structure Reader.Fits (r : Reader) : Prop where
  outer : r.outer.flags.Fits
  inner : ∀ name side, r.inner = some (name, side) → side.flags.Fits

theorem Reader.Fits.side (hr : r.Fits) : r.side.flags.Fits := by
  unfold Reader.side
  split
  · rename_i hinner
    exact hr.inner _ _ hinner
  · exact hr.outer

theorem Reader.Fits.setSide (hr : r.Fits) (ht : t.flags.Fits) : (r.setSide t).Fits := by
  unfold Reader.setSide
  split
  · refine ⟨hr.outer, fun name side hinner => ?_⟩
    cases hinner
    exact ht
  · exact ⟨ht, hr.inner⟩

theorem finish_fits {flags : Flags} {subcommand : Subcommand} (hr : r.Fits)
    (h : r.finish = .ok (.run flags subcommand)) : flags.Fits := by
  obtain ⟨outer, houter, h⟩ := bind_eq_ok h
  have hsettled : outer.flags.Fits := by
    unfold Reader.settled at houter
    split at houter
    · exact Except.ok.inj houter ▸ hr.outer
    · rename_i flag value _
      cases hset : r.outer.setValue none flag value with
      | none =>
        rw [hset] at houter
        cases houter
      | some result =>
        rw [hset] at houter
        obtain rfl : result = .ok outer := houter
        exact setValue_fits hr.outer hset
  split at h
  · cases h
  · rename_i hinner
    have hover := (hr.inner _ _ hinner).over hsettled
    split at h <;> cases h <;> exact hover

theorem readPlain_fits {args : List String} {flags : Flags} {subcommand : Subcommand} (hr : r.Fits)
    (h : readPlain r args = .ok (.run flags subcommand)) : flags.Fits := by
  fun_induction readPlain r args with
  | case1 r => exact finish_fits hr h
  | case2 r value rest hinner => cases h
  | case3 r value rest name side hinner ih =>
    obtain ⟨t, ht, h⟩ := bind_eq_ok h
    exact ih t (hr.setSide (position_fits (hr.inner name side hinner) ht)) h

/-- Short flags lead to such a reader, or to a request without flags. -/
def ShortResult.Fits : ShortResult → Prop
  | .go next => next.Fits
  | .stop request => ∀ flags subcommand, request ≠ .run flags subcommand

theorem readShort_fits {letters : List Char} {result : ShortResult} (hr : r.Fits)
    (h : readShort r letters = .ok result) : result.Fits := by
  fun_induction readShort r letters with
  | case1 r =>
    cases h
    exact hr
  | case2 r rest ih =>
    obtain ⟨t, ht, h⟩ := bind_eq_ok h
    exact ih t (hr.setSide (raise_fits hr.side ht)) h
  | case3 r rest =>
    cases h
    intro flags subcommand hrun
    cases hrun
  | case4 r rest hinner =>
    cases h
    intro flags subcommand hrun
    cases hrun
  | case5 r rest hinner => cases h
  | case6 => cases h

/-- **What is read later leaves the numbers within 64 bits.** -/
theorem read_fits {args : List String} {flags : Flags} {subcommand : Subcommand} (hr : r.Fits)
    (h : read r args = .ok (.run flags subcommand)) : flags.Fits := by
  fun_induction read r args with
  | case1 r => exact finish_fits hr h
  | case2 r arg rest hform => exact readPlain_fits hr h
  | case3 r arg rest value hform name side hinner ih =>
    obtain ⟨t, ht, h⟩ := bind_eq_ok h
    exact ih t (hr.setSide (position_fits (hr.inner name side hinner) ht)) h
  | case4 r arg rest value hform hinner name hname ih =>
    refine ih ⟨hr.outer, fun name side hinner => ?_⟩ h
    cases hinner
    exact Flags.fits_none
  | case5 r arg rest hinner hform hname =>
    unfold helpTopic at h
    split at h
    · cases h
    · split at h <;> cases h
    · cases h
  | case6 => cases h
  | case7 r arg rest letters hform ih =>
    obtain ⟨result, hresult, h⟩ := bind_eq_ok h
    cases result with
    | go next => exact ih next (readShort_fits hr hresult) h
    | stop request => exact absurd (Except.ok.inj h) (readShort_fits hr hresult flags subcommand)
  | case8 => cases h
  | case9 => cases h
  | case10 => cases h
  | case11 r arg rest flag value hform side hside ih =>
    obtain ⟨t, ht, h⟩ := bind_eq_ok h
    exact ih t (hr.setSide (setValue_fits hr.side (ht ▸ hside))) h
  | case12 => cases h
  | case13 => cases h
  | case14 => cases h
  | case15 r arg flag hhelp hversion hform htakes value rest hlooks hlast ih =>
    exact ih ⟨hr.outer, hr.inner⟩ h
  | case16 r arg flag hhelp hversion hform htakes value rest hlooks hlast side hside ih =>
    obtain ⟨t, ht, h⟩ := bind_eq_ok h
    exact ih t (hr.setSide (setValue_fits hr.side (ht ▸ hside))) h
  | case17 => cases h
  | case18 r arg rest flag hhelp hversion hform htakes ih =>
    obtain ⟨t, ht, h⟩ := bind_eq_ok h
    exact ih t (hr.setSide (raise_fits hr.side ht)) h

/-- **The numbers in the flags of a command line fit 64 bits.** -/
theorem fits_of_parse {args : List String} {flags : Flags} {subcommand : Subcommand}
    (h : parse args = .ok (.run flags subcommand)) : flags.Fits :=
  read_fits ⟨Flags.fits_none, fun _ _ hinner => by cases hinner⟩ h

end DialectBridge.CommandLine
