import DialectBridge.Timing.Store
import Mathlib.Data.List.Nodup

/-!
# What a store shows

A store is seen through `live?`, the entry of a key that can be used at a time.  Expired entries may
still be stored, and two stores that differ in them show the same.

* `get_fst`, `put_fst` — what is given back, read off from what is shown;
* `live?_get`, `live?_purge`, `live?_put_of_some`, `live?_put_of_none` — what is shown afterwards, at
  once and at every later time;
* `Tidy` — every key is stored once, which all operations keep up;
* `Agree` — two stores show the same from now on, whatever expired entries either of them keeps.
-/

namespace DialectBridge.Store

variable {κ ν : Type} {s t : Store κ ν} {now later : Nat} {key k : κ} {value : ν} {e e' : Entry κ ν}

/-- No key is stored twice. -/
def Tidy (s : Store κ ν) : Prop :=
  (s.entries.map Entry.key).Nodup

theorem Tidy.unique (h : s.Tidy) (he : e ∈ s.entries) (he' : e' ∈ s.entries)
    (hkey : e.key = e'.key) : e = e' :=
  List.inj_on_of_nodup_map h he he' hkey

theorem Tidy.of_sublist {entries : List (Entry κ ν)} (h : s.Tidy)
    (hsub : entries.Sublist s.entries) : Tidy { s with entries } :=
  List.Nodup.sublist (hsub.map _) h

theorem live_mono (hle : now ≤ later) (h : e.live later = true) : e.live now = true := by
  simp only [Entry.live, decide_eq_true_eq] at h ⊢
  omega

/-! ## Purging -/

theorem purge_entries : (s.purge now).2.entries = s.entries.filter (Entry.live now) := rfl

@[simp] theorem purge_lifetime : (s.purge now).2.lifetime = s.lifetime := rfl

/-- As many entries are purged as have expired. -/
theorem purge_fst : (s.purge now).1 = s.entries.countP fun e => !e.live now := by
  have hsplit := List.length_eq_countP_add_countP (Entry.live now) (l := s.entries)
  have hdead : s.entries.countP (fun e => decide ¬e.live now = true) =
      s.entries.countP fun e => !e.live now := by simp
  show s.entries.length - (s.entries.filter (Entry.live now)).length = _
  rw [← List.countP_eq_length_filter, hsplit, hdead]
  omega

theorem Tidy.purge (h : s.Tidy) : (s.purge now).2.Tidy :=
  h.of_sublist List.filter_sublist

/-! ## What is shown -/

variable [DecidableEq κ]

/-- The entry of a key that can be used at a time. -/
def live? (s : Store κ ν) (now : Nat) (key : κ) : Option (Entry κ ν) :=
  s.entries.find? fun e => e.live now && e.key = key

theorem live?_some (h : s.live? now key = some e) :
    e ∈ s.entries ∧ e.key = key ∧ e.live now = true := by
  have hp := List.find?_some h
  simp only [Bool.and_eq_true, decide_eq_true_eq] at hp
  exact ⟨List.mem_of_find?_eq_some h, hp.2, hp.1⟩

theorem live?_eq_none_iff :
    s.live? now key = none ↔ ∀ e ∈ s.entries, e.key = key → e.live now = false := by
  simp only [live?, List.find?_eq_none, Bool.and_eq_true, decide_eq_true_eq, not_and]
  constructor
  · intro h e he hkey
    exact Bool.eq_false_iff.mpr fun hlive => h e he hlive hkey
  · intro h e he hlive hkey
    rw [h e he hkey] at hlive
    cases hlive

theorem Tidy.live?_eq_some_iff (h : s.Tidy) :
    s.live? now key = some e ↔ e ∈ s.entries ∧ e.key = key ∧ e.live now = true := by
  refine ⟨live?_some, ?_⟩
  rintro ⟨he, rfl, hlive⟩
  cases hfound : s.live? now e.key with
  | none =>
    rw [live?_eq_none_iff.mp hfound e he rfl] at hlive
    cases hlive
  | some e' =>
    obtain ⟨he', hkey, -⟩ := live?_some hfound
    rw [h.unique he' he hkey]

theorem live?_none_mono (hle : now ≤ later) (h : s.live? now key = none) :
    s.live? later key = none := by
  rw [live?_eq_none_iff] at h ⊢
  intro e he hkey
  have hdead := h e he hkey
  simp only [Entry.live, decide_eq_false_iff_not] at hdead ⊢
  omega

/-- Two stores with the same living entries show the same. -/
theorem live?_congr (hs : s.Tidy) (ht : t.Tidy)
    (h : ∀ e : Entry κ ν, e.live now = true → e.key = key → (e ∈ s.entries ↔ e ∈ t.entries)) :
    s.live? now key = t.live? now key := by
  ext e
  rw [hs.live?_eq_some_iff, ht.live?_eq_some_iff]
  constructor
  · rintro ⟨he, hkey, hlive⟩
    exact ⟨(h e hlive hkey).mp he, hkey, hlive⟩
  · rintro ⟨he, hkey, hlive⟩
    exact ⟨(h e hlive hkey).mpr he, hkey, hlive⟩

/-- Purging drops only what would never be shown again. -/
theorem live?_purge (h : s.Tidy) (hle : now ≤ later) :
    (s.purge now).2.live? later k = s.live? later k := by
  refine live?_congr h.purge h fun e hlive _ => ?_
  rw [purge_entries, List.mem_filter]
  exact and_iff_left (live_mono hle hlive)

/-! ## Looking up -/

/-- **All that a look-up can do**: find a living entry, or find none and drop an expired one. -/
theorem get_cases (h : s.Tidy) (now : Nat) (key : κ) :
    (∃ e, s.live? now key = some e ∧ s.get now key = (some e.value, s)) ∨
    (s.live? now key = none ∧ s.get now key = (none, s)) ∨
    (s.live? now key = none ∧
      s.get now key = (none, { s with entries := s.entries.filter fun e => e.key ≠ key })) := by
  unfold get
  cases hfind : s.find? key with
  | none =>
    refine .inr (.inl ⟨live?_eq_none_iff.mpr fun e he hkey => ?_, rfl⟩)
    have := List.find?_eq_none.mp hfind e he
    simp [hkey] at this
  | some e =>
    have he : e ∈ s.entries := List.mem_of_find?_eq_some hfind
    have hkey : e.key = key := by simpa using List.find?_some hfind
    by_cases hlive : e.live now = true
    · exact .inl ⟨e, h.live?_eq_some_iff.mpr ⟨he, hkey, hlive⟩, if_pos hlive⟩
    · refine .inr (.inr ⟨live?_eq_none_iff.mpr fun e' he' hkey' => ?_, if_neg hlive⟩)
      rw [h.unique he' he (hkey'.trans hkey.symm)]
      exact Bool.eq_false_iff.mpr hlive

theorem get_fst (h : s.Tidy) (now : Nat) (key : κ) :
    (s.get now key).1 = (s.live? now key).map Entry.value := by
  obtain ⟨e, hlive, hget⟩ | ⟨hlive, hget⟩ | ⟨hlive, hget⟩ := get_cases h now key <;>
    rw [hlive, hget] <;> rfl

@[simp] theorem get_lifetime : (s.get now key).2.lifetime = s.lifetime := by
  unfold get
  split
  · rfl
  · split <;> rfl

theorem Tidy.get (h : s.Tidy) (now : Nat) (key : κ) : (s.get now key).2.Tidy := by
  obtain ⟨e, -, hget⟩ | ⟨-, hget⟩ | ⟨-, hget⟩ := get_cases h now key <;> rw [hget]
  · exact h
  · exact h
  · exact h.of_sublist List.filter_sublist

theorem mem_of_mem_get (he : e ∈ (s.get now key).2.entries) : e ∈ s.entries := by
  unfold get at he
  split at he
  · exact he
  · split at he
    · exact he
    · exact (List.mem_filter.mp he).1

/-- What is found was stored. -/
theorem exists_mem_of_get (h : (s.get now key).1 = some value) :
    ∃ e ∈ s.entries, e.key = key ∧ e.value = value := by
  unfold get at h
  split at h
  · cases h
  · rename_i e hfind
    split at h
    · have hkey : e.key = key := by simpa using List.find?_some hfind
      exact ⟨e, List.mem_of_find?_eq_some hfind, hkey, Option.some.inj h⟩
    · cases h

theorem live?_get (h : s.Tidy) (hle : now ≤ later) :
    (s.get now key).2.live? later k = s.live? later k := by
  have htidy := h.get now key
  obtain ⟨e, -, hget⟩ | ⟨-, hget⟩ | ⟨hnone, hget⟩ := get_cases h now key <;> rw [hget] at htidy ⊢
  refine live?_congr htidy h fun e hlive _ => ?_
  rw [List.mem_filter, and_iff_left_iff_imp]
  -- an entry of the dropped key would have been found alive
  intro he
  rw [decide_eq_true_eq]
  intro hkey
  have hdead := live?_eq_none_iff.mp hnone e he hkey
  rw [live_mono hle hlive] at hdead
  cases hdead

/-! ## Storing -/

theorem timeAfter?_of_lt {ms : Nat} (h : now + ms < timeBound) : timeAfter? now ms = some (now + ms) :=
  if_pos h

theorem timeAfter?_of_ge {ms : Nat} (h : timeBound ≤ now + ms) : timeAfter? now ms = none :=
  if_neg (Nat.not_lt.mpr h)

/-- **All that storing can do**, once the expired entries are gone: keep a living entry, add one, or
fail. -/
theorem put_cases (s : Store κ ν) (now : Nat) (key : κ) (value : ν) :
    (∃ e, s.live? now key = some e ∧ s.put now key value = (some e.value, (s.purge now).2)) ∨
    (s.live? now key = none ∧ now + s.lifetime < timeBound ∧
      s.put now key value = (some value, { (s.purge now).2 with
        entries := (s.purge now).2.entries ++ [⟨key, value, now + s.lifetime⟩] })) ∨
    (s.live? now key = none ∧ timeBound ≤ now + s.lifetime ∧
      s.put now key value = (none, (s.purge now).2)) := by
  have hfind : (s.purge now).2.find? key = s.live? now key := by
    unfold find? live?
    rw [purge_entries, List.find?_filter]
    congr 1
    funext e
    simp
  unfold put
  simp only [hfind, purge_lifetime]
  cases hlive : s.live? now key with
  | some e => exact .inl ⟨e, rfl, rfl⟩
  | none =>
    by_cases hroom : now + s.lifetime < timeBound
    · refine .inr (.inl ⟨rfl, hroom, ?_⟩)
      simp only [timeAfter?_of_lt hroom]
    · have hfull := Nat.le_of_not_lt hroom
      refine .inr (.inr ⟨rfl, hfull, ?_⟩)
      simp only [timeAfter?_of_ge hfull]

theorem put_fst (s : Store κ ν) (now : Nat) (key : κ) (value : ν) :
    (s.put now key value).1 =
      ((s.live? now key).map Entry.value).or ((timeAfter? now s.lifetime).map fun _ => value) := by
  obtain ⟨e, hlive, hput⟩ | ⟨hlive, hroom, hput⟩ | ⟨hlive, hfull, hput⟩ := put_cases s now key value
  · rw [hlive, hput]
    rfl
  · rw [hlive, hput, timeAfter?_of_lt hroom]
    rfl
  · rw [hlive, hput, timeAfter?_of_ge hfull]
    rfl

/-- Storing fails if there is no living entry and the new one would expire too late. -/
theorem put_fst_eq_none_iff :
    (s.put now key value).1 = none ↔ s.live? now key = none ∧ timeBound ≤ now + s.lifetime := by
  obtain ⟨e, hlive, hput⟩ | ⟨hlive, hroom, hput⟩ | ⟨hlive, hfull, hput⟩ := put_cases s now key value
  · simp [hlive, hput]
  · simp [hlive, hput, hroom]
  · simp [hlive, hput, hfull]

@[simp] theorem put_lifetime : (s.put now key value).2.lifetime = s.lifetime := by
  obtain ⟨e, -, hput⟩ | ⟨-, -, hput⟩ | ⟨-, -, hput⟩ := put_cases s now key value <;> rw [hput] <;> rfl

theorem Tidy.put (h : s.Tidy) (now : Nat) (key : κ) (value : ν) : (s.put now key value).2.Tidy := by
  obtain ⟨e, -, hput⟩ | ⟨hnone, -, hput⟩ | ⟨-, -, hput⟩ := put_cases s now key value <;> rw [hput]
  · exact h.purge
  · unfold Tidy
    rw [List.map_append, List.nodup_append]
    refine ⟨h.purge, by simp, fun k hk k' hk' hkk' => ?_⟩
    rw [List.map_cons, List.map_nil, List.mem_singleton] at hk'
    obtain ⟨e, he, rfl⟩ := List.mem_map.mp hk
    rw [purge_entries, List.mem_filter] at he
    have hdead := live?_eq_none_iff.mp hnone e he.1 (hkk'.trans hk')
    rw [he.2] at hdead
    cases hdead
  · exact h.purge

/-- A stored value stays as it is. -/
theorem live?_put_of_some (h : s.Tidy) (hle : now ≤ later) (hlive : s.live? now key = some e) :
    (s.put now key value).2.live? later k = s.live? later k := by
  obtain ⟨e, -, hput⟩ | ⟨hnone, -⟩ | ⟨hnone, -⟩ := put_cases s now key value
  · rw [hput]
    exact live?_purge h hle
  · rw [hnone] at hlive
    cases hlive
  · rw [hnone] at hlive
    cases hlive

/-- A new value is shown until it expires, if it can be stored; other keys are not touched. -/
theorem live?_put_of_none (h : s.Tidy) (hle : now ≤ later) (hnone : s.live? now key = none) :
    (s.put now key value).2.live? later k =
      if k = key then
        if later < now + s.lifetime ∧ now + s.lifetime < timeBound then
          some ⟨key, value, now + s.lifetime⟩
        else none
      else s.live? later k := by
  have hgone : s.live? later key = none := live?_none_mono hle hnone
  obtain ⟨e, hlive, -⟩ | ⟨-, hroom, hput⟩ | ⟨-, hfull, hput⟩ := put_cases s now key value
  · rw [hnone] at hlive
    cases hlive
  · have hold := live?_purge (k := k) h hle
    rw [hput]
    simp only [live?, List.find?_append] at hold hgone ⊢
    rw [hold, List.find?_singleton]
    by_cases hk : k = key
    · subst hk
      rw [hgone]
      simp [Entry.live, hroom]
    · have hother : ¬key = k := fun heq => hk heq.symm
      simp [hk, hother]
  · rw [hput, live?_purge h hle]
    by_cases hk : k = key
    · subst hk
      simp [hgone, Nat.not_lt.mpr hfull]
    · simp [hk]

theorem mem_of_mem_put (he : e ∈ (s.put now key value).2.entries) :
    e ∈ s.entries ∨ e = ⟨key, value, now + s.lifetime⟩ := by
  obtain ⟨e', -, hput⟩ | ⟨-, -, hput⟩ | ⟨-, -, hput⟩ := put_cases s now key value <;> rw [hput] at he
  · exact .inl (List.mem_filter.mp he).1
  · rcases List.mem_append.mp he with he | he
    · exact .inl (List.mem_filter.mp he).1
    · exact .inr (List.mem_singleton.mp he)
  · exact .inl (List.mem_filter.mp he).1

/-- What is kept is the new value, or was stored before. -/
theorem put_fst_cases {kept : ν} (h : (s.put now key value).1 = some kept) :
    kept = value ∨ ∃ e ∈ s.entries, e.key = key ∧ e.value = kept := by
  obtain ⟨e, hlive, hput⟩ | ⟨-, -, hput⟩ | ⟨-, -, hput⟩ := put_cases s now key value <;> rw [hput] at h
  · obtain ⟨he, hkey, -⟩ := live?_some hlive
    exact .inr ⟨e, he, hkey, Option.some.inj h⟩
  · exact .inl (Option.some.inj h).symm
  · cases h

/-- After storing, what is stored lives, except for a new value without a lifetime. -/
theorem mem_put (he : e ∈ (s.put now key value).2.entries) :
    e.live now = true ∨ s.lifetime = 0 ∧ e = ⟨key, value, now⟩ := by
  obtain ⟨e', -, hput⟩ | ⟨-, -, hput⟩ | ⟨-, -, hput⟩ := put_cases s now key value <;> rw [hput] at he
  · exact .inl (List.mem_filter.mp he).2
  · rcases List.mem_append.mp he with he | he
    · exact .inl (List.mem_filter.mp he).2
    · rw [List.mem_singleton] at he
      subst he
      by_cases hzero : s.lifetime = 0
      · exact .inr ⟨hzero, by rw [hzero]; rfl⟩
      · left
        simp only [Entry.live, decide_eq_true_eq]
        omega
  · exact .inl (List.mem_filter.mp he).2

/-! ## Stores that show the same -/

/-- Two stores show the same entries from a time on, and let values live equally long. -/
structure Agree (now : Nat) (s t : Store κ ν) : Prop where
  lifetime : s.lifetime = t.lifetime
  live : ∀ later, now ≤ later → ∀ key, s.live? later key = t.live? later key

theorem Agree.refl (s : Store κ ν) : Agree now s s :=
  ⟨rfl, fun _ _ _ => rfl⟩

theorem Agree.mono (h : Agree now s t) (hle : now ≤ later) : Agree later s t :=
  ⟨h.lifetime, fun next hnext => h.live next (Nat.le_trans hle hnext)⟩

theorem Agree.get_left (h : Agree now s t) (hs : s.Tidy) (key : κ) :
    Agree now (s.get now key).2 t :=
  ⟨by rw [get_lifetime, h.lifetime],
    fun later hle k => (live?_get hs hle).trans (h.live later hle k)⟩

theorem Agree.purge_left (h : Agree now s t) (hs : s.Tidy) : Agree now (s.purge now).2 t :=
  ⟨h.lifetime, fun later hle k => (live?_purge hs hle).trans (h.live later hle k)⟩

theorem Agree.purge (h : Agree now s t) (hs : s.Tidy) (ht : t.Tidy) :
    Agree now (s.purge now).2 (t.purge now).2 := by
  refine ⟨h.lifetime, fun later hle k => ?_⟩
  rw [live?_purge hs hle, live?_purge ht hle, h.live later hle]

theorem Agree.get (h : Agree now s t) (hs : s.Tidy) (ht : t.Tidy) (key : κ) :
    (s.get now key).1 = (t.get now key).1 ∧ Agree now (s.get now key).2 (t.get now key).2 := by
  refine ⟨?_, by rw [get_lifetime, get_lifetime, h.lifetime], fun later hle k => ?_⟩
  · rw [get_fst hs, get_fst ht, h.live now (Nat.le_refl _)]
  · rw [live?_get hs hle, live?_get ht hle, h.live later hle]

theorem Agree.put (h : Agree now s t) (hs : s.Tidy) (ht : t.Tidy) (key : κ) (value : ν) :
    (s.put now key value).1 = (t.put now key value).1 ∧
      Agree now (s.put now key value).2 (t.put now key value).2 := by
  have hnow := h.live now (Nat.le_refl _) key
  refine ⟨by rw [put_fst, put_fst, hnow, h.lifetime],
    by rw [put_lifetime, put_lifetime, h.lifetime], fun later hle k => ?_⟩
  cases hlive : t.live? now key with
  | some e =>
    rw [live?_put_of_some hs hle (hnow.trans hlive), live?_put_of_some ht hle hlive,
      h.live later hle]
  | none =>
    rw [live?_put_of_none hs hle (hnow.trans hlive), live?_put_of_none ht hle hlive,
      h.live later hle, h.lifetime]

end DialectBridge.Store
