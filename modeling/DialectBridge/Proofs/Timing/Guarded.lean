import DialectBridge.Proofs.Timing.Cache
import DialectBridge.Timing.Guarded

/-!
# A cache behind a lock over its whole history

Until a use fails, a cache behind a lock is what it would be without the lock.  The first value that
cannot be stored, because it would expire at a time without a name, ends this: from then on every use
fails, and the entries stay as they are.

* `use_cases` — all that a use can do, to the entries and to the lock;
* `bare_after` — as long as the lock is whole, the history is that of the cache alone;
* `poisoned_after_iff` — when the lock is poisoned;
* `same_after` — asking and purging leave no trace, neither in the answers nor in the lock;
* `history_refinement` — what a cache behind a lock answers after any history, and when it fails.
-/

namespace DialectBridge.Guarded

open Cache (Use CollisionFree)

variable {ν : Type}

/-- A cache behind a lock, and the time. -/
structure Clocked (ν : Type) where
  now : Nat
  cache : Guarded ν

namespace Clocked

def use (c : Clocked ν) : Use ν → Clocked ν
  | .get text => { c with cache := (c.cache.get c.now text).2 }
  | .put text value => { c with cache := (c.cache.put c.now text value).2 }
  | .purge => { c with cache := (c.cache.purge c.now).2 }
  | .advance ms => { c with now := c.now + ms }

/-- The cache without its lock. -/
def bare (c : Clocked ν) : Cache.Clocked ν :=
  ⟨c.now, c.cache.toCache⟩

/-- There is a living result for a text. -/
def Holds (c : Clocked ν) (text : String) : Prop :=
  ∃ e ∈ c.cache.store.entries, e.key = c.cache.key text ∧ e.live c.now = true

/-- A use that cannot be done: a value is to be stored, and would expire too late. -/
def Fails (c : Clocked ν) : Use ν → Prop
  | .put text _ => ¬c.Holds text ∧ timeBound ≤ c.now + c.cache.store.lifetime
  | _ => False

end Clocked

/-- A cache behind a lock after a history of uses, from the empty one on. -/
def after (space : String) (lifetime : Nat) (uses : List (Use ν)) : Clocked ν :=
  uses.foldl Clocked.use ⟨0, .empty space lifetime⟩

/-- A value was put for a text at a time when there was no living one. -/
def Inserted (space : String) (lifetime : Nat) (uses : List (Use ν)) (text : String) (value : ν)
    (time : Nat) : Prop :=
  ∃ before rest, uses = before ++ .put text value :: rest ∧
    (after space lifetime before).now = time ∧ ¬(after space lifetime before).Holds text

variable {space text : String} {lifetime time now : Nat} {uses : List (Use ν)} {value : ν}
  {c c' : Clocked ν} {g : Guarded ν}

theorem after_concat (uses : List (Use ν)) (use : Use ν) :
    after space lifetime (uses ++ [use]) = (after space lifetime uses).use use := by
  simp only [after, List.foldl_append, List.foldl_cons, List.foldl_nil]

theorem not_holds_iff : ¬c.Holds text ↔ c.cache.store.live? c.now (c.cache.key text) = none :=
  Cache.not_holds_iff (c := c.bare)

/-! ## One use -/

theorem get_of_poisoned (h : g.poisoned = true) : g.get now text = (.failed, g) :=
  if_pos h

theorem put_of_poisoned (h : g.poisoned = true) : g.put now text value = (none, g) :=
  if_pos h

theorem purge_of_poisoned (h : g.poisoned = true) : g.purge now = (none, g) :=
  if_pos h

/-- Behind a whole lock, a look-up finds what the cache has. -/
theorem get_of_whole (h : g.poisoned = false) :
    g.get now text =
      (((g.toCache.get now text).1.map Lookup.hit).getD .miss,
        ⟨(g.toCache.get now text).2, false⟩) := by
  unfold get
  rw [h]
  rcases g.toCache.get now text with ⟨_ | value, cache⟩ <;> rfl

theorem get_eq_hit_iff (h : g.poisoned = false) :
    (g.get now text).1 = .hit value ↔ (g.toCache.get now text).1 = some value := by
  rw [get_of_whole h]
  cases (g.toCache.get now text).1 with
  | none => simp
  | some found => simp

theorem get_ne_failed (h : g.poisoned = false) : (g.get now text).1 ≠ .failed := by
  rw [get_of_whole h]
  cases (g.toCache.get now text).1 with
  | none => simp
  | some found => simp

theorem put_of_whole (h : g.poisoned = false) :
    g.put now text value =
      ((g.toCache.put now text value).1,
        ⟨(g.toCache.put now text value).2, (g.toCache.put now text value).1.isNone⟩) := by
  unfold put
  rw [h]
  rfl

theorem poisoned_of_get (h : (g.get now text).1 = .failed) :
    (g.get now text).2.poisoned = true := by
  cases hlock : g.poisoned with
  | true => rwa [get_of_poisoned hlock]
  | false => exact absurd h (get_ne_failed hlock)

theorem poisoned_of_put (h : (g.put now text value).1 = none) :
    (g.put now text value).2.poisoned = true := by
  cases hlock : g.poisoned with
  | true => rwa [put_of_poisoned hlock]
  | false =>
    rw [put_of_whole hlock] at h ⊢
    exact Option.isNone_iff_eq_none.mpr h

theorem purge_of_whole (h : g.poisoned = false) :
    g.purge now = (some (g.toCache.purge now).1, ⟨(g.toCache.purge now).2, false⟩) := by
  unfold purge
  rw [h]
  rfl

theorem mem_of_mem_get {e : Entry Fingerprint ν} (he : e ∈ (g.get now text).2.store.entries) :
    e ∈ g.store.entries := by
  cases hlock : g.poisoned with
  | true => rwa [get_of_poisoned hlock] at he
  | false =>
    rw [get_of_whole hlock] at he
    exact Store.mem_of_mem_get he

theorem mem_of_mem_put {e : Entry Fingerprint ν} (he : e ∈ (g.put now text value).2.store.entries) :
    e ∈ g.store.entries ∨ e = ⟨g.key text, value, now + g.store.lifetime⟩ := by
  cases hlock : g.poisoned with
  | true =>
    rw [put_of_poisoned hlock] at he
    exact .inl he
  | false =>
    rw [put_of_whole hlock] at he
    exact Store.mem_of_mem_put he

/-- What is found was stored. -/
theorem exists_mem_of_get (h : (g.get now text).1 = .hit value) :
    ∃ e ∈ g.store.entries, e.key = g.key text ∧ e.value = value := by
  cases hlock : g.poisoned with
  | true => rw [get_of_poisoned hlock] at h; cases h
  | false => exact Store.exists_mem_of_get ((get_eq_hit_iff hlock).mp h)

/-- What is kept is the new value, or was stored before. -/
theorem put_fst_cases {kept : ν} (h : (g.put now text value).1 = some kept) :
    kept = value ∨ ∃ e ∈ g.store.entries, e.key = g.key text ∧ e.value = kept := by
  cases hlock : g.poisoned with
  | true => rw [put_of_poisoned hlock] at h; cases h
  | false =>
    rw [put_of_whole hlock] at h
    exact Store.put_fst_cases h

/-- **All that a use can do.**  A poisoned lock lets nothing through but time; behind a whole one the
cache is used, and the lock is poisoned if that fails. -/
theorem use_cases (c : Clocked ν) (use : Use ν) :
    (c.cache.poisoned = true ∧ c.use use = ⟨(c.bare.use use).now, c.cache⟩) ∨
    (c.cache.poisoned = false ∧ (c.use use).bare = c.bare.use use ∧
      ((c.use use).cache.poisoned = true ↔ c.Fails use)) := by
  cases hlock : c.cache.poisoned with
  | true =>
    refine .inl ⟨rfl, ?_⟩
    cases use with
    | get text => simp only [Clocked.use, get_of_poisoned hlock]; rfl
    | put text value => simp only [Clocked.use, put_of_poisoned hlock]; rfl
    | purge => simp only [Clocked.use, purge_of_poisoned hlock]; rfl
    | advance ms => rfl
  | false =>
    refine .inr ⟨rfl, ?_⟩
    cases use with
    | get text =>
      simp only [Clocked.use, get_of_whole hlock]
      exact ⟨rfl, by simp [Clocked.Fails]⟩
    | put text value =>
      simp only [Clocked.use, put_of_whole hlock]
      refine ⟨rfl, ?_⟩
      -- storing fails just if nothing living is found and there is no time to expire at
      rw [Option.isNone_iff_eq_none, Clocked.Fails, not_holds_iff]
      exact Store.put_fst_eq_none_iff
    | purge =>
      simp only [Clocked.use, purge_of_whole hlock]
      exact ⟨rfl, by simp [Clocked.Fails]⟩
    | advance ms => exact ⟨rfl, by simp [Clocked.use, Clocked.Fails, hlock]⟩

theorem poisoned_use (h : c.cache.poisoned = true) (use : Use ν) :
    (c.use use).cache = c.cache := by
  obtain ⟨-, huse⟩ | ⟨hwhole, -⟩ := use_cases c use
  · rw [huse]
  · rw [h] at hwhole
    cases hwhole

theorem whole_of_use {use : Use ν} (h : (c.use use).cache.poisoned = false) :
    c.cache.poisoned = false := by
  cases hlock : c.cache.poisoned with
  | false => rfl
  | true => rw [poisoned_use hlock, hlock] at h; cases h

theorem bare_use {use : Use ν} (h : c.cache.poisoned = false) : (c.use use).bare = c.bare.use use := by
  obtain ⟨hlock, -⟩ | ⟨-, huse, -⟩ := use_cases c use
  · rw [h] at hlock
    cases hlock
  · exact huse

theorem now_use (c : Clocked ν) (use : Use ν) : (c.use use).now = (c.bare.use use).now := by
  obtain ⟨-, huse⟩ | ⟨-, huse, -⟩ := use_cases c use
  · rw [huse]
  · exact congrArg Cache.Clocked.now huse

theorem now_le_use (c : Clocked ν) (use : Use ν) : c.now ≤ (c.use use).now := by
  rw [now_use]
  exact Cache.now_le_use c.bare use

theorem space_use (c : Clocked ν) (use : Use ν) : (c.use use).cache.space = c.cache.space := by
  obtain ⟨-, huse⟩ | ⟨-, huse, -⟩ := use_cases c use
  · rw [huse]
  · exact (congrArg (fun b => b.cache.space) huse).trans (Cache.use_space c.bare use)

theorem lifetime_use (c : Clocked ν) (use : Use ν) :
    (c.use use).cache.store.lifetime = c.cache.store.lifetime := by
  obtain ⟨-, huse⟩ | ⟨-, huse, -⟩ := use_cases c use
  · rw [huse]
  · exact (congrArg (fun b => b.cache.store.lifetime) huse).trans (Cache.use_lifetime c.bare use)

theorem tidy_use (h : c.cache.store.Tidy) (use : Use ν) : (c.use use).cache.store.Tidy := by
  obtain ⟨-, huse⟩ | ⟨-, huse, -⟩ := use_cases c use
  · rw [huse]
    exact h
  · have hbare := Cache.tidy_use (c := c.bare) h use
    rw [← huse] at hbare
    exact hbare

/-- **A living entry is safe from every use**, and from the failure of one. -/
theorem live_use {e : Entry Fingerprint ν} (h : c.cache.store.Tidy) (use : Use ν)
    (he : e ∈ c.cache.store.entries) (hlive : e.live c.now = true) :
    e ∈ (c.use use).cache.store.entries ∧
      ∀ e' ∈ (c.use use).cache.store.entries, e'.key = e.key → e' = e := by
  obtain ⟨-, huse⟩ | ⟨-, huse, -⟩ := use_cases c use
  · rw [huse]
    exact ⟨he, fun e' he' hkey => h.unique he' he hkey⟩
  · have hsafe := Cache.live_use (c := c.bare) h use he hlive
    rw [← huse] at hsafe
    exact hsafe

/-! ## A history of uses -/

@[simp] theorem after_lifetime (uses : List (Use ν)) :
    (after space lifetime uses).cache.store.lifetime = lifetime := by
  induction uses using List.reverseRecOn with
  | nil => rfl
  | append_singleton uses use ih => rw [after_concat, lifetime_use, ih]

theorem after_key (uses : List (Use ν)) (text : String) :
    (after space lifetime uses).cache.key text = Fingerprint.of space text := by
  have hspace : (after space lifetime uses).cache.space = space := by
    induction uses using List.reverseRecOn with
    | nil => rfl
    | append_singleton uses use ih => rw [after_concat, space_use, ih]
  rw [Cache.key, hspace]

theorem tidy_after (uses : List (Use ν)) : (after space lifetime uses).cache.store.Tidy := by
  induction uses using List.reverseRecOn with
  | nil => exact List.nodup_nil
  | append_singleton uses use ih =>
    rw [after_concat]
    exact tidy_use ih use

/-- **As long as the lock is whole**, the history is that of the cache alone. -/
theorem bare_after (h : (after space lifetime uses).cache.poisoned = false) :
    (after space lifetime uses).bare = Cache.after space lifetime uses := by
  induction uses using List.reverseRecOn with
  | nil => rfl
  | append_singleton uses use ih =>
    rw [after_concat] at h ⊢
    have hwhole := whole_of_use h
    rw [bare_use hwhole, ih hwhole, Cache.after_concat]

theorem now_after_le (before rest : List (Use ν)) :
    (after space lifetime before).now ≤ (after space lifetime (before ++ rest)).now := by
  induction rest using List.reverseRecOn with
  | nil => exact Nat.le_of_eq (by rw [List.append_nil])
  | append_singleton rest use ih =>
    rw [← List.append_assoc, after_concat]
    exact Nat.le_trans ih (now_le_use _ use)

theorem whole_of_append {before rest : List (Use ν)}
    (h : (after space lifetime (before ++ rest)).cache.poisoned = false) :
    (after space lifetime before).cache.poisoned = false := by
  induction rest using List.reverseRecOn with
  | nil => rwa [List.append_nil] at h
  | append_singleton rest use ih =>
    rw [← List.append_assoc, after_concat] at h
    exact ih (whole_of_use h)

/-- **The lock is poisoned** by the first value that was to be stored too late. -/
theorem poisoned_after_iff :
    (after space lifetime uses).cache.poisoned = true ↔
      ∃ before text value rest, uses = before ++ .put text value :: rest ∧
        ¬(after space lifetime before).Holds text ∧
        timeBound ≤ (after space lifetime before).now + lifetime := by
  constructor
  · intro h
    induction uses using List.reverseRecOn with
    | nil => cases h
    | append_singleton uses use ih =>
      rw [after_concat] at h
      obtain ⟨hlock, -⟩ | ⟨-, -, hfails⟩ := use_cases (after space lifetime uses) use
      · obtain ⟨before, text, value, rest, rfl, hfailed⟩ := ih hlock
        exact ⟨before, text, value, rest ++ [use], by simp, hfailed⟩
      · have hfailed := hfails.mp h
        cases use with
        | put text value =>
          rw [Clocked.Fails, after_lifetime] at hfailed
          exact ⟨uses, text, value, [], rfl, hfailed⟩
        | get text => cases hfailed
        | purge => cases hfailed
        | advance ms => cases hfailed
  · rintro ⟨before, text, value, rest, rfl, hfailed⟩
    by_contra hlock
    rw [Bool.not_eq_true, List.append_cons] at hlock
    have hput := whole_of_append hlock
    rw [after_concat] at hput
    obtain ⟨hlocked, -⟩ | ⟨-, -, hfails⟩ :=
      use_cases (after space lifetime before) (.put text value)
    · rw [whole_of_use hput] at hlocked
      cases hlocked
    · rw [hfails.mpr (by rw [Clocked.Fails, after_lifetime]; exact hfailed)] at hput
      cases hput

theorem whole_of_lt (h : (after space lifetime uses).now + lifetime < timeBound) :
    (after space lifetime uses).cache.poisoned = false := by
  by_contra hlock
  rw [Bool.not_eq_false] at hlock
  obtain ⟨before, text, value, rest, rfl, -, hlate⟩ := poisoned_after_iff.mp hlock
  have hle : (after space lifetime before).now ≤
      (after space lifetime (before ++ .put text value :: rest)).now := now_after_le _ _
  omega

/-- Behind a whole lock nothing has failed, so what was put without finding a living value was
stored. -/
theorem inserted_iff (h : (after space lifetime uses).cache.poisoned = false) :
    Inserted space lifetime uses text value time ↔
      Cache.Inserted space lifetime uses text value time := by
  have hbare : ∀ before rest, uses = before ++ .put text value :: rest →
      (after space lifetime before).bare = Cache.after space lifetime before := by
    rintro before rest rfl
    exact bare_after (whole_of_append h)
  constructor
  · rintro ⟨before, rest, huses, rfl, hnone⟩
    have hroom : (after space lifetime before).now + lifetime < timeBound := by
      by_contra hfull
      rw [poisoned_after_iff.mpr
        ⟨before, text, value, rest, huses, hnone, Nat.le_of_not_lt hfull⟩] at h
      cases h
    refine ⟨before, rest, huses, ?_, ?_, hroom⟩
    · rw [← hbare before rest huses]
      rfl
    · rw [← hbare before rest huses]
      exact hnone
  · rintro ⟨before, rest, huses, htime, hnone, -⟩
    rw [← hbare before rest huses] at htime hnone
    exact ⟨before, rest, huses, htime, hnone⟩

/-! ## Asking leaves no trace -/

/-- Two caches behind locks show the same from now on: both are poisoned, or they show the same
entries. -/
structure Clocked.Same (c c' : Clocked ν) : Prop where
  now : c'.now = c.now
  poisoned : c'.cache.poisoned = c.cache.poisoned
  alike : c.cache.poisoned = false → c.bare.Alike c'.bare

theorem Clocked.Same.get_eq (h : c.Same c') (htidy : c.cache.store.Tidy)
    (htidy' : c'.cache.store.Tidy) (text : String) :
    (c'.cache.get c'.now text).1 = (c.cache.get c.now text).1 := by
  cases hlock : c.cache.poisoned with
  | true => rw [get_of_poisoned hlock, get_of_poisoned (h.poisoned.trans hlock)]
  | false =>
    rw [get_of_whole hlock, get_of_whole (h.poisoned.trans hlock)]
    exact congrArg (fun found => (Option.map Lookup.hit found).getD .miss)
      ((h.alike hlock).get_eq htidy htidy' text)

theorem Clocked.Same.put_eq (h : c.Same c') (htidy : c.cache.store.Tidy)
    (htidy' : c'.cache.store.Tidy) (text : String) (value : ν) :
    (c'.cache.put c'.now text value).1 = (c.cache.put c.now text value).1 := by
  cases hlock : c.cache.poisoned with
  | true => rw [put_of_poisoned hlock, put_of_poisoned (h.poisoned.trans hlock)]
  | false =>
    rw [put_of_whole hlock, put_of_whole (h.poisoned.trans hlock)]
    exact (h.alike hlock).put_eq htidy htidy' text value

theorem Clocked.Same.fails_iff (h : c.Same c') (hlock : c.cache.poisoned = false) (use : Use ν) :
    c'.Fails use ↔ c.Fails use := by
  have halike := h.alike hlock
  have hkey (text : String) : c'.cache.key text = c.cache.key text := halike.key_eq text
  have hlifetime : c.cache.store.lifetime = c'.cache.store.lifetime := halike.store.lifetime
  have hlive (key : Fingerprint) : c.cache.store.live? c.now key = c'.cache.store.live? c.now key :=
    halike.store.live c.now (Nat.le_refl _) key
  cases use with
  | put text value => simp only [Clocked.Fails, not_holds_iff, h.now, hkey, hlive, hlifetime]
  | get text => exact Iff.rfl
  | purge => exact Iff.rfl
  | advance ms => exact Iff.rfl

/-- Caches that show the same still do so after the same use. -/
theorem Clocked.Same.use (h : c.Same c') (htidy : c.cache.store.Tidy)
    (htidy' : c'.cache.store.Tidy) (use : Use ν) : (c.use use).Same (c'.use use) := by
  have hnow : (c'.use use).now = (c.use use).now := by
    rw [now_use, now_use]
    cases use <;> simp [Clocked.bare, Cache.Clocked.use, h.now]
  obtain ⟨hlock, huse⟩ | ⟨hlock, huse, hfails⟩ := use_cases c use
  · have hlock' := h.poisoned.trans hlock
    have hstays : (c.use use).cache.poisoned = true := by rw [poisoned_use hlock, hlock]
    refine ⟨hnow, ?_, fun hwhole => ?_⟩
    · rw [hstays, poisoned_use hlock', hlock']
    · rw [hstays] at hwhole
      cases hwhole
  · have hlock' := h.poisoned.trans hlock
    obtain ⟨hpoisoned, -⟩ | ⟨-, huse', hfails'⟩ := use_cases c' use
    · rw [hlock'] at hpoisoned
      cases hpoisoned
    · refine ⟨hnow, ?_, fun _ => ?_⟩
      · rw [Bool.eq_iff_iff, hfails', hfails, h.fails_iff hlock]
      · rw [huse, huse']
        exact (h.alike hlock).use htidy htidy' use

/-- A cache that is only asked, or tidied up, shows the same as before. -/
theorem Clocked.Same.asked (h : c.Same c') (htidy : c.cache.store.Tidy) (use : Use ν)
    (hasks : use.writes = false) : (c.use use).Same c' := by
  have hnow : (c.use use).now = c.now := by
    cases use with
    | get text => rfl
    | purge => rfl
    | put text value => cases hasks
    | advance ms => cases hasks
  obtain ⟨hlock, -⟩ | ⟨hlock, huse, hfails⟩ := use_cases c use
  · have hcache := poisoned_use hlock use
    refine ⟨h.now.trans hnow.symm, by rw [hcache, h.poisoned], fun hwhole => ?_⟩
    rw [hcache, hlock] at hwhole
    cases hwhole
  · have hstays : (c.use use).cache.poisoned = false := by
      rw [← Bool.not_eq_true, hfails]
      cases use with
      | get text => exact not_false
      | purge => exact not_false
      | put text value => cases hasks
      | advance ms => cases hasks
    refine ⟨h.now.trans hnow.symm, by rw [hstays, h.poisoned, hlock], fun _ => ?_⟩
    rw [huse]
    exact (h.alike hlock).asked htidy use hasks

/-- A cache shows the same as one that was used for storing only. -/
theorem same_after (space : String) (lifetime : Nat) (uses : List (Use ν)) :
    (after space lifetime uses).Same (after space lifetime (uses.filter Use.writes)) := by
  induction uses using List.reverseRecOn with
  | nil => exact ⟨rfl, rfl, fun _ => ⟨rfl, rfl, .refl _⟩⟩
  | append_singleton uses use ih =>
    rw [List.filter_append, after_concat]
    cases hwrites : use.writes with
    | true =>
      rw [List.filter_cons_of_pos hwrites, List.filter_nil, after_concat]
      exact ih.use (tidy_after _) (tidy_after _) use
    | false =>
      rw [List.filter_cons_of_neg (by simp [hwrites]), List.filter_nil, List.append_nil]
      exact ih.asked (tidy_after _) use hwrites

/-! ## A function behind the cache -/

/-- The cache holds nothing but values of a function, and its lock is whole. -/
structure Serves (lifetime : Nat) (f : String → Option ν) (texts : List String) (g : Guarded ν) :
    Prop where
  cache : g.toCache.Serves f texts
  lifetime_eq : g.store.lifetime = lifetime
  whole : g.poisoned = false

variable {f : String → Option ν} {texts : List String}

theorem Serves.get_eq (h : g.Serves lifetime f texts) (htext : text ∈ texts)
    (hget : (g.get now text).1 = .hit value) : f text = some value :=
  h.cache.get_eq htext ((get_eq_hit_iff h.whole).mp hget)

theorem Serves.get (h : g.Serves lifetime f texts) (now : Nat) (text : String) :
    (g.get now text).2.Serves lifetime f texts := by
  rw [get_of_whole h.whole]
  exact ⟨h.cache.get now text, Store.get_lifetime.trans h.lifetime_eq, rfl⟩

theorem Serves.put_eq (h : g.Serves lifetime f texts) (htext : text ∈ texts)
    (hvalue : f text = some value) (hroom : now + lifetime < timeBound) :
    (g.put now text value).1 = some value := by
  rw [put_of_whole h.whole]
  exact h.cache.put_eq htext hvalue (h.lifetime_eq.symm ▸ hroom)

theorem Serves.put (h : g.Serves lifetime f texts) (htext : text ∈ texts)
    (hvalue : f text = some value) (hroom : now + lifetime < timeBound) :
    (g.put now text value).2.Serves lifetime f texts := by
  have hkept := h.cache.put_eq htext hvalue (h.lifetime_eq.symm ▸ hroom)
  rw [put_of_whole h.whole]
  refine ⟨h.cache.put now htext hvalue, Store.put_lifetime.trans h.lifetime_eq, ?_⟩
  rw [hkept]
  rfl

/-! ## The theorem -/

/-- Behind a whole lock, a value is found exactly if it was put, found no living one then, and has
not expired. -/
theorem get_after_iff (hfree : CollisionFree space (text :: uses.filterMap Use.text?))
    (hlock : (after space lifetime uses).cache.poisoned = false) :
    ((after space lifetime uses).cache.get (after space lifetime uses).now text).1 = .hit value ↔
      ∃ time, Inserted space lifetime uses text value time ∧
        (after space lifetime uses).now < time + lifetime := by
  have hfound : ((Cache.after space lifetime uses).cache.get (Cache.after space lifetime uses).now
      text).1 = some value ↔ ∃ time, Cache.Inserted space lifetime uses text value time ∧
        (Cache.after space lifetime uses).now < time + lifetime :=
    Cache.get_eq_some_iff hfree
  rw [← bare_after hlock] at hfound
  simp only [inserted_iff hlock]
  exact (get_eq_hit_iff hlock).trans hfound

theorem put_after (hlock : (after space lifetime uses).cache.poisoned = false) (value : ν) :
    ((after space lifetime uses).cache.put (after space lifetime uses).now text value).1 =
      (((after space lifetime uses).cache.store.live? (after space lifetime uses).now
        ((after space lifetime uses).cache.key text)).map Entry.value).or
        ((timeAfter? (after space lifetime uses).now lifetime).map fun _ => value) := by
  rw [put_of_whole hlock]
  refine (Store.put_fst _ _ _ _).trans ?_
  rw [after_lifetime]

/-- **A cache refines its history, as long as every time has a name.**  After any uses, if no two
texts used have the same fingerprint:

1. the cache is poisoned exactly if a value was put, found no living one, and would have expired at a
   time that the clock cannot name; so it never is while a lifetime from now ends at a time with a
   name;
2. a poisoned cache fails whatever it is used for;
3. otherwise a text has a value exactly if that value was put for it, found no living one then, and
   has not expired; putting gives the living value if there is one, and else the new one, or fails if
   that would expire too late; purging tells how many entries have expired; and nothing expired is
   left after putting, except a value without a lifetime;
4. no use evicts a living entry, changes it or lets it live longer;
5. looking up and purging, however often and wherever in the history, change no answer. -/
theorem history_refinement (space : String) (lifetime : Nat) (uses : List (Use ν)) (text : String)
    (hfree : CollisionFree space (text :: uses.filterMap Use.text?)) :
    let c := after space lifetime uses
    (c.cache.poisoned = true ↔
      ∃ before other value rest, uses = before ++ .put other value :: rest ∧
        ¬(after space lifetime before).Holds other ∧
        timeBound ≤ (after space lifetime before).now + lifetime) ∧
    (c.now + lifetime < timeBound → c.cache.poisoned = false) ∧
    (c.cache.poisoned = true →
      (c.cache.get c.now text).1 = .failed ∧ (∀ value, (c.cache.put c.now text value).1 = none) ∧
        (c.cache.purge c.now).1 = none) ∧
    (c.cache.poisoned = false →
      (c.cache.get c.now text).1 ≠ .failed ∧
      (∀ value, (c.cache.get c.now text).1 = .hit value ↔
        ∃ time, Inserted space lifetime uses text value time ∧ c.now < time + lifetime) ∧
      (∀ value,
        (∀ e ∈ c.cache.store.entries, e.key = c.cache.key text → e.live c.now = true →
          (c.cache.put c.now text value).1 = some e.value) ∧
        (¬c.Holds text → (c.cache.put c.now text value).1 =
          if c.now + lifetime < timeBound then some value else none)) ∧
      (c.cache.purge c.now).1 = some (c.cache.store.entries.countP fun e => !e.live c.now) ∧
      (∀ value, ∀ e ∈ (c.cache.put c.now text value).2.store.entries,
        e.live c.now = true ∨ lifetime = 0 ∧ e = ⟨c.cache.key text, value, c.now⟩)) ∧
    (∀ use, ∀ e ∈ c.cache.store.entries, e.live c.now = true →
      e ∈ (c.use use).cache.store.entries ∧
        ∀ e' ∈ (c.use use).cache.store.entries, e'.key = e.key → e' = e) ∧
    (∀ uses' : List (Use ν), uses'.filter Use.writes = uses.filter Use.writes →
      let c' := after space lifetime uses'
      (c'.cache.get c'.now text).1 = (c.cache.get c.now text).1 ∧
        ∀ value, (c'.cache.put c'.now text value).1 = (c.cache.put c.now text value).1) := by
  intro c
  have htidy : c.cache.store.Tidy := tidy_after uses
  refine ⟨poisoned_after_iff, whole_of_lt, fun hlock => ⟨?_, fun value => ?_, ?_⟩, fun hlock =>
    ⟨get_ne_failed hlock, fun value => get_after_iff hfree hlock, fun value => ⟨?_, ?_⟩, ?_, ?_⟩,
    fun use e he hlive => live_use htidy use he hlive, ?_⟩
  · rw [get_of_poisoned hlock]
  · rw [put_of_poisoned hlock]
  · rw [purge_of_poisoned hlock]
  · intro e he hkey hlive
    have hshown := htidy.live?_eq_some_iff.mpr ⟨he, hkey, hlive⟩
    rw [put_after hlock, hshown]
    rfl
  · intro hnone
    rw [put_after hlock, not_holds_iff.mp hnone]
    by_cases hroom : c.now + lifetime < timeBound
    · rw [if_pos hroom, Store.timeAfter?_of_lt hroom]
      rfl
    · rw [if_neg hroom, Store.timeAfter?_of_ge (Nat.le_of_not_lt hroom)]
      rfl
  · rw [purge_of_whole hlock]
    exact congrArg some Store.purge_fst
  · intro value e he
    rw [put_of_whole hlock] at he
    have hleft := Store.mem_put he
    rwa [after_lifetime] at hleft
  · intro uses' hwrites
    have hcore := same_after space lifetime uses
    have hcore' := same_after space lifetime uses'
    rw [hwrites] at hcore'
    refine ⟨?_, fun value => ?_⟩
    · rw [← hcore'.get_eq (tidy_after _) (tidy_after _), hcore.get_eq htidy (tidy_after _)]
    · rw [← hcore'.put_eq (tidy_after _) (tidy_after _), hcore.put_eq htidy (tidy_after _)]

/-- Two texts are stored; the second value for one of them comes too early, and the third one after
the first has expired. -/
def busyHistory : List (Use Nat) :=
  [.put "a" 1, .advance 4, .put "a" 2, .put "b" 3, .advance 5, .get "b", .advance 1, .purge,
    .put "a" 4, .advance 3]

/-- With a short lifetime the last value is found; with a lifetime of 2^64 seconds the first one
cannot be stored, and nothing is found any more. -/
theorem history_refinement_busyHistory :
    CollisionFree "compile" ("a" :: busyHistory.filterMap Use.text?) ∧
      ((after "compile" 10 busyHistory).cache.get 13 "a").1 = .hit 4 ∧
      ((after "compile" 10 (busyHistory.filter Use.writes)).cache.get 13 "a").1 = .hit 4 ∧
      ((after "compile" (UInt64.size * 1000) busyHistory).cache.get 13 "a").1 = .failed := by
  have hfree : CollisionFree "compile" ("a" :: busyHistory.filterMap Use.text?) := by
    unfold CollisionFree
    decide +kernel
  have hexpired : ¬(after "compile" 10 (busyHistory.take 8)).Holds "a" := by
    rw [not_holds_iff]
    decide +kernel
  obtain ⟨-, hwhole, -, hanswers, -, hasked⟩ :=
    history_refinement "compile" 10 busyHistory "a" hfree
  have hget := ((hanswers (hwhole (by decide +kernel))).2.1 4).mpr
    ⟨10, ⟨busyHistory.take 8, [.advance 3], rfl, by decide +kernel, hexpired⟩, by decide +kernel⟩
  have hagain := (hasked (busyHistory.filter Use.writes) rfl).1.trans hget
  have hfails : ¬(after "compile" (UInt64.size * 1000) ([] : List (Use Nat))).Holds "a" := by
    rintro ⟨e, he, -⟩
    cases he
  obtain ⟨hpoisoned, -, hfailed, -⟩ :=
    history_refinement "compile" (UInt64.size * 1000) busyHistory "a" hfree
  exact ⟨hfree, hget, hagain,
    (hfailed (hpoisoned.mpr ⟨[], "a", 1, _, rfl, hfails, by decide⟩)).1⟩

end DialectBridge.Guarded
