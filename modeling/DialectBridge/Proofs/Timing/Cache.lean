import DialectBridge.Proofs.Timing.Store
import DialectBridge.Timing.Cache
import Mathlib.Data.List.Induction

/-!
# A cache over its whole history

A cache is used again and again while time passes.  What it answers can be told from the history of
its uses alone: a text has the value that was stored for it last, when there was no living one, for as
long as that value lives.

* `Inserted` — a use in a history that stored its value, and when;
* `live?_after` — the living entries after a history are the insertions that have not expired;
* `live_use` — no use touches a living entry;
* `alike_after` — asking and purging leave no trace in what a cache shows;
* `get_eq_some_iff`, `put_after` — what the answers are;
* `Serves` — with a function behind it, a cache adds nothing of its own.
-/

namespace DialectBridge.Cache

variable {ν : Type}

/-- What is done with a cache, and the passing of time. -/
inductive Use (ν : Type) where
  | get (text : String)
  | put (text : String) (value : ν)
  | purge
  | advance (ms : Nat)
  deriving DecidableEq, Repr

/-- The text a use is about. -/
def Use.text? : Use ν → Option String
  | .get text => some text
  | .put text _ => some text
  | _ => none

/-- Storing and the passing of time; the other uses only ask, or tidy up. -/
def Use.writes : Use ν → Bool
  | .put _ _ => true
  | .advance _ => true
  | _ => false

/-- A cache and the time. -/
structure Clocked (ν : Type) where
  now : Nat
  cache : Cache ν

def Clocked.use (c : Clocked ν) : Use ν → Clocked ν
  | .get text => { c with cache := (c.cache.get c.now text).2 }
  | .put text value => { c with cache := (c.cache.put c.now text value).2 }
  | .purge => { c with cache := (c.cache.purge c.now).2 }
  | .advance ms => { c with now := c.now + ms }

/-- A cache after a history of uses, from the empty one on. -/
def after (space : String) (lifetime : Nat) (uses : List (Use ν)) : Clocked ν :=
  uses.foldl Clocked.use ⟨0, .empty space lifetime⟩

/-- There is a living result for a text. -/
def Clocked.Holds (c : Clocked ν) (text : String) : Prop :=
  ∃ e ∈ c.cache.store.entries, e.key = c.cache.key text ∧ e.live c.now = true

/-- A value was stored for a text at a time: there was no living one, and it did not fail. -/
def Inserted (space : String) (lifetime : Nat) (uses : List (Use ν)) (text : String) (value : ν)
    (time : Nat) : Prop :=
  ∃ before rest, uses = before ++ .put text value :: rest ∧
    (after space lifetime before).now = time ∧ ¬(after space lifetime before).Holds text ∧
    time + lifetime < timeBound

/-- No two of some texts have the same fingerprint. -/
def CollisionFree (space : String) (texts : List String) : Prop :=
  ∀ a ∈ texts, ∀ b ∈ texts, Fingerprint.of space a = Fingerprint.of space b → a = b

variable {space text : String} {lifetime later time : Nat} {uses : List (Use ν)} {value : ν}
  {c c' : Clocked ν} {key : Fingerprint} {e : Entry Fingerprint ν}

theorem after_concat (uses : List (Use ν)) (use : Use ν) :
    after space lifetime (uses ++ [use]) = (after space lifetime uses).use use := by
  simp only [after, List.foldl_append, List.foldl_cons, List.foldl_nil]

theorem not_holds_iff : ¬c.Holds text ↔ c.cache.store.live? c.now (c.cache.key text) = none := by
  rw [Store.live?_eq_none_iff]
  simp only [Clocked.Holds, not_exists, not_and, Bool.not_eq_true]

/-! ## One use -/

theorem use_space (c : Clocked ν) (use : Use ν) : (c.use use).cache.space = c.cache.space := by
  cases use <;> rfl

theorem use_lifetime (c : Clocked ν) (use : Use ν) :
    (c.use use).cache.store.lifetime = c.cache.store.lifetime := by
  cases use with
  | get text => exact Store.get_lifetime
  | put text value => exact Store.put_lifetime
  | purge => exact Store.purge_lifetime
  | advance ms => rfl

theorem now_le_use (c : Clocked ν) (use : Use ν) : c.now ≤ (c.use use).now := by
  cases use with
  | advance ms => exact Nat.le_add_right _ _
  | _ => exact Nat.le_refl _

theorem tidy_use (h : c.cache.store.Tidy) (use : Use ν) : (c.use use).cache.store.Tidy := by
  cases use with
  | get text => exact h.get _ _
  | put text value => exact h.put _ _ _
  | purge => exact h.purge
  | advance ms => exact h

/-- What is shown stays shown while it lives, whatever the cache is used for. -/
theorem live?_use (h : c.cache.store.Tidy) (use : Use ν)
    (hshown : c.cache.store.live? c.now key = some e) :
    (c.use use).cache.store.live? c.now key = some e := by
  cases use with
  | get text => exact (Store.live?_get h (Nat.le_refl _)).trans hshown
  | purge => exact (Store.live?_purge h (Nat.le_refl _)).trans hshown
  | advance ms => exact hshown
  | put text value =>
    cases hfound : c.cache.store.live? c.now (c.cache.key text) with
    | some found => exact (Store.live?_put_of_some h (Nat.le_refl _) hfound).trans hshown
    | none =>
      -- a new entry has another key, since this one would have been found
      have hother : key ≠ c.cache.key text := by
        intro hkey
        rw [hkey, hfound] at hshown
        cases hshown
      exact (Store.live?_put_of_none h (Nat.le_refl _) hfound).trans ((if_neg hother).trans hshown)

/-- **A living entry is safe from every use**: it stays as it is, and stays the only one of its key. -/
theorem live_use (h : c.cache.store.Tidy) (use : Use ν) (he : e ∈ c.cache.store.entries)
    (hlive : e.live c.now = true) :
    e ∈ (c.use use).cache.store.entries ∧
      ∀ e' ∈ (c.use use).cache.store.entries, e'.key = e.key → e' = e := by
  have hshown := live?_use h use (h.live?_eq_some_iff.mpr ⟨he, rfl, hlive⟩)
  have hstays := (Store.live?_some hshown).1
  exact ⟨hstays, fun e' he' hkey => (tidy_use h use).unique he' hstays hkey⟩

/-! ## A history of uses -/

@[simp] theorem after_space (uses : List (Use ν)) :
    (after space lifetime uses).cache.space = space := by
  induction uses using List.reverseRecOn with
  | nil => rfl
  | append_singleton uses use ih => rw [after_concat, use_space, ih]

@[simp] theorem after_lifetime (uses : List (Use ν)) :
    (after space lifetime uses).cache.store.lifetime = lifetime := by
  induction uses using List.reverseRecOn with
  | nil => rfl
  | append_singleton uses use ih => rw [after_concat, use_lifetime, ih]

theorem tidy_after (uses : List (Use ν)) : (after space lifetime uses).cache.store.Tidy := by
  induction uses using List.reverseRecOn with
  | nil => exact List.nodup_nil
  | append_singleton uses use ih =>
    rw [after_concat]
    exact tidy_use ih use

theorem after_key (uses : List (Use ν)) (text : String) :
    (after space lifetime uses).cache.key text = Fingerprint.of space text := by
  rw [Cache.key, after_space]

/-- A use adds an insertion if it stores a value. -/
theorem inserted_concat (use : Use ν) :
    Inserted space lifetime (uses ++ [use]) text value time ↔
      Inserted space lifetime uses text value time ∨
        use = .put text value ∧ (after space lifetime uses).now = time ∧
          ¬(after space lifetime uses).Holds text ∧ time + lifetime < timeBound := by
  constructor
  · rintro ⟨before, rest, huses, hinsert⟩
    rcases rest.eq_nil_or_concat with rfl | ⟨rest, last, rfl⟩
    · obtain ⟨rfl, hlast⟩ := List.append_inj' huses rfl
      rw [List.cons.injEq] at hlast
      exact .inr ⟨hlast.1, hinsert⟩
    · rw [List.concat_eq_append, ← List.cons_append, ← List.append_assoc] at huses
      exact .inl ⟨before, rest, (List.append_inj' huses rfl).1, hinsert⟩
  · rintro (⟨before, rest, rfl, hinsert⟩ | ⟨rfl, hinsert⟩)
    · exact ⟨before, rest ++ [use], by simp, hinsert⟩
    · exact ⟨uses, [], rfl, hinsert⟩

/-- An entry that an insertion of a history gave rise to, and that lives at a time. -/
def Recorded (space : String) (lifetime : Nat) (uses : List (Use ν)) (later : Nat)
    (key : Fingerprint) (e : Entry Fingerprint ν) : Prop :=
  ∃ text value time, Inserted space lifetime uses text value time ∧
    Fingerprint.of space text = key ∧ e = ⟨key, value, time + lifetime⟩ ∧ later < time + lifetime

theorem recorded_concat_of_asking {use : Use ν} (h : ∀ text value, use ≠ .put text value) :
    Recorded space lifetime (uses ++ [use]) later key e ↔
      Recorded space lifetime uses later key e := by
  have hsame : ∀ text value time, Inserted space lifetime (uses ++ [use]) text value time ↔
      Inserted space lifetime uses text value time := by
    intro text value time
    rw [inserted_concat, or_iff_left]
    rintro ⟨huse, -⟩
    exact h text value huse
  simp only [Recorded, hsame]

theorem recorded_concat_put (text : String) (value : ν) :
    Recorded space lifetime (uses ++ [.put text value]) later key e ↔
      Recorded space lifetime uses later key e ∨
        (¬(after space lifetime uses).Holds text ∧
            (after space lifetime uses).now + lifetime < timeBound) ∧
          Fingerprint.of space text = key ∧
          e = ⟨key, value, (after space lifetime uses).now + lifetime⟩ ∧
          later < (after space lifetime uses).now + lifetime := by
  constructor
  · rintro ⟨t, v, time, hinserted, hentry⟩
    rcases (inserted_concat _).mp hinserted with hold | ⟨huse, rfl, hnew⟩
    · exact .inl ⟨t, v, time, hold, hentry⟩
    · cases huse
      exact .inr ⟨hnew, hentry⟩
  · rintro (⟨t, v, time, hold, hentry⟩ | ⟨hnew, hentry⟩)
    · exact ⟨t, v, time, (inserted_concat _).mpr (.inl hold), hentry⟩
    · exact ⟨text, value, _, (inserted_concat _).mpr (.inr ⟨rfl, rfl, hnew⟩), hentry⟩

/-- **What a cache shows is what was inserted and lives**, at the end of a history and at every
later time. -/
theorem live?_after (uses : List (Use ν)) (later : Nat)
    (hle : (after space lifetime uses).now ≤ later) (key : Fingerprint)
    (e : Entry Fingerprint ν) :
    (after space lifetime uses).cache.store.live? later key = some e ↔
      Recorded space lifetime uses later key e := by
  induction uses using List.reverseRecOn generalizing later key e with
  | nil =>
    refine ⟨fun h => ?_, ?_⟩
    · cases h
    · rintro ⟨text, value, time, ⟨before, rest, huses, -⟩, -⟩
      exact absurd huses (by simp)
  | append_singleton uses use ih =>
    rw [after_concat] at hle ⊢
    have hold : (after space lifetime uses).now ≤ later := Nat.le_trans (now_le_use _ use) hle
    have htidy : (after space lifetime uses).cache.store.Tidy := tidy_after uses
    cases use with
    | get text =>
      rw [recorded_concat_of_asking (by simp), ← ih later hold]
      show (Store.get _ _ _).2.live? later key = some e ↔ _
      rw [Store.live?_get htidy hold]
    | purge =>
      rw [recorded_concat_of_asking (by simp), ← ih later hold]
      show (Store.purge _ _).2.live? later key = some e ↔ _
      rw [Store.live?_purge htidy hold]
    | advance ms =>
      rw [recorded_concat_of_asking (by simp), ← ih later hold]
      rfl
    | put text value =>
      rw [recorded_concat_put, ← ih later hold]
      show (Store.put _ _ _ _).2.live? later key = some e ↔ _
      by_cases hholds : (after space lifetime uses).Holds text
      · rw [or_iff_left fun h => h.1.1 hholds]
        cases hlive : (after space lifetime uses).cache.store.live? (after space lifetime uses).now
            ((after space lifetime uses).cache.key text) with
        | none => exact absurd hholds (not_holds_iff.mpr hlive)
        | some found => rw [Store.live?_put_of_some htidy hold hlive]
      · have hnone := not_holds_iff.mp hholds
        rw [Store.live?_put_of_none htidy hold hnone, after_key, after_lifetime]
        by_cases hkey : key = Fingerprint.of space text
        · subst hkey
          -- nothing older lives under this key
          have hgone : (after space lifetime uses).cache.store.live? later
              (Fingerprint.of space text) = none := by
            rw [← after_key uses text]
            exact Store.live?_none_mono hold hnone
          rw [if_pos rfl, hgone]
          by_cases hroom : (after space lifetime uses).now + lifetime < timeBound
          · by_cases hlater : later < (after space lifetime uses).now + lifetime
            · simp [hholds, hlater, hroom, eq_comm]
            · simp [hlater]
          · simp [hroom]
        · have hother : ¬Fingerprint.of space text = key := fun heq => hkey heq.symm
          simp [hkey, hother]

/-! ## Asking leaves no trace -/

/-- Two caches show the same, from the same time on. -/
structure Clocked.Alike (c c' : Clocked ν) : Prop where
  now : c'.now = c.now
  space : c'.cache.space = c.cache.space
  store : Store.Agree c.now c.cache.store c'.cache.store

theorem Clocked.Alike.key_eq (h : c.Alike c') (text : String) :
    c'.cache.key text = c.cache.key text := by
  rw [Cache.key, h.space, Cache.key]

theorem Clocked.Alike.get_eq (h : c.Alike c') (htidy : c.cache.store.Tidy)
    (htidy' : c'.cache.store.Tidy) (text : String) :
    (c'.cache.get c'.now text).1 = (c.cache.get c.now text).1 := by
  show (c'.cache.store.get c'.now (c'.cache.key text)).1 = (c.cache.store.get c.now _).1
  rw [h.now, h.key_eq, (h.store.get htidy htidy' _).1]

theorem Clocked.Alike.put_eq (h : c.Alike c') (htidy : c.cache.store.Tidy)
    (htidy' : c'.cache.store.Tidy) (text : String) (value : ν) :
    (c'.cache.put c'.now text value).1 = (c.cache.put c.now text value).1 := by
  show (c'.cache.store.put c'.now (c'.cache.key text) value).1 = (c.cache.store.put c.now _ value).1
  rw [h.now, h.key_eq, (h.store.put htidy htidy' _ value).1]

/-- Caches that show the same still do so after the same use. -/
theorem Clocked.Alike.use (h : c.Alike c') (htidy : c.cache.store.Tidy)
    (htidy' : c'.cache.store.Tidy) (use : Use ν) : (c.use use).Alike (c'.use use) := by
  cases use with
  | get text =>
    refine ⟨h.now, h.space, ?_⟩
    show Store.Agree c.now _ (c'.cache.store.get c'.now (c'.cache.key text)).2
    rw [h.now, h.key_eq]
    exact (h.store.get htidy htidy' _).2
  | put text value =>
    refine ⟨h.now, h.space, ?_⟩
    show Store.Agree c.now _ (c'.cache.store.put c'.now (c'.cache.key text) value).2
    rw [h.now, h.key_eq]
    exact (h.store.put htidy htidy' _ value).2
  | purge =>
    refine ⟨h.now, h.space, ?_⟩
    show Store.Agree c.now _ (c'.cache.store.purge c'.now).2
    rw [h.now]
    exact h.store.purge htidy htidy'
  | advance ms =>
    exact ⟨congrArg (· + ms) h.now, h.space, h.store.mono (Nat.le_add_right _ _)⟩

/-- A cache that is only asked, or tidied up, shows the same as before. -/
theorem Clocked.Alike.asked (h : c.Alike c') (htidy : c.cache.store.Tidy)
    (use : Use ν) (hasks : use.writes = false) : (c.use use).Alike c' := by
  cases use with
  | get text => exact ⟨h.now, h.space, h.store.get_left htidy _⟩
  | purge => exact ⟨h.now, h.space, h.store.purge_left htidy⟩
  | put text value => cases hasks
  | advance ms => cases hasks

/-- A cache shows the same as one that was used for storing only. -/
theorem alike_after (space : String) (lifetime : Nat) (uses : List (Use ν)) :
    (after space lifetime uses).Alike (after space lifetime (uses.filter Use.writes)) := by
  induction uses using List.reverseRecOn with
  | nil => exact ⟨rfl, rfl, .refl _⟩
  | append_singleton uses use ih =>
    rw [List.filter_append, after_concat]
    cases hwrites : use.writes with
    | true =>
      rw [List.filter_cons_of_pos hwrites, List.filter_nil, after_concat]
      exact ih.use (tidy_after _) (tidy_after _) use
    | false =>
      rw [List.filter_cons_of_neg (by simp [hwrites]), List.filter_nil, List.append_nil]
      exact ih.asked (tidy_after _) _ hwrites

/-! ## What the answers are -/

theorem get_after (uses : List (Use ν)) (now : Nat) (text : String) :
    ((after space lifetime uses).cache.get now text).1 =
      ((after space lifetime uses).cache.store.live? now (Fingerprint.of space text)).map
        Entry.value := by
  rw [← after_key uses text]
  exact Store.get_fst (tidy_after uses) _ _

theorem put_after (uses : List (Use ν)) (now : Nat) (text : String) (value : ν) :
    ((after space lifetime uses).cache.put now text value).1 =
      (((after space lifetime uses).cache.store.live? now (Fingerprint.of space text)).map
        Entry.value).or ((timeAfter? now lifetime).map fun _ => value) := by
  have hput := Store.put_fst (after space lifetime uses).cache.store now
    ((after space lifetime uses).cache.key text) value
  rw [after_key, after_lifetime] at hput
  rw [← hput, ← after_key uses text]
  rfl

/-- A value is found for a text if it was inserted and still lives, provided that no other text of
the history has the same fingerprint. -/
theorem get_eq_some_iff (hfree : CollisionFree space (text :: uses.filterMap Use.text?)) :
    ((after space lifetime uses).cache.get (after space lifetime uses).now text).1 = some value ↔
      ∃ time, Inserted space lifetime uses text value time ∧
        (after space lifetime uses).now < time + lifetime := by
  rw [get_after, Option.map_eq_some_iff]
  constructor
  · rintro ⟨e, hlive, rfl⟩
    obtain ⟨t, v, time, hinserted, hkey, rfl, hlater⟩ :=
      (live?_after uses _ (Nat.le_refl _) _ e).mp hlive
    have hused : t ∈ uses.filterMap Use.text? := by
      obtain ⟨before, rest, rfl, -⟩ := hinserted
      simp [Use.text?]
    have hsame : t = text :=
      hfree t (List.mem_cons_of_mem _ hused) text List.mem_cons_self hkey
    exact ⟨time, hsame ▸ hinserted, hlater⟩
  · rintro ⟨time, hinserted, hlater⟩
    exact ⟨_, (live?_after uses _ (Nat.le_refl _) _ _).mpr
      ⟨text, value, time, hinserted, rfl, rfl, hlater⟩, rfl⟩

/-! ## A function behind the cache -/

/-- The cache holds nothing but values of a function, for texts that have fingerprints of their own. -/
structure Serves (f : String → Option ν) (texts : List String) (c : Cache ν) : Prop where
  free : CollisionFree c.space texts
  stored : ∀ entry ∈ c.store.entries, ∃ text ∈ texts, entry.key = c.key text ∧ f text = some entry.value

variable {f : String → Option ν} {texts : List String} {cache : Cache ν}

theorem Serves.eq_of_mem (h : cache.Serves f texts) (htext : text ∈ texts)
    (he : e ∈ cache.store.entries) (hkey : e.key = cache.key text) : f text = some e.value := by
  obtain ⟨other, hother, hkey', hvalue⟩ := h.stored e he
  rw [← hvalue, h.free other hother text htext (hkey'.symm.trans hkey)]

theorem Serves.get_eq {now : Nat} (h : cache.Serves f texts) (htext : text ∈ texts)
    (hget : (cache.get now text).1 = some value) : f text = some value := by
  obtain ⟨e, he, hkey, rfl⟩ := Store.exists_mem_of_get hget
  exact h.eq_of_mem htext he hkey

theorem Serves.get (h : cache.Serves f texts) (now : Nat) (text : String) :
    (cache.get now text).2.Serves f texts :=
  ⟨h.free, fun entry he => h.stored entry (Store.mem_of_mem_get he)⟩

theorem Serves.put_eq {now : Nat} (h : cache.Serves f texts) (htext : text ∈ texts)
    (hvalue : f text = some value) (hroom : now + cache.store.lifetime < timeBound) :
    (cache.put now text value).1 = some value := by
  have hput : (cache.put now text value).1 =
      ((cache.store.live? now (cache.key text)).map Entry.value).or
        ((timeAfter? now cache.store.lifetime).map fun _ => value) :=
    Store.put_fst _ _ _ _
  rw [hput, Store.timeAfter?_of_lt hroom]
  cases hlive : cache.store.live? now (cache.key text) with
  | none => rfl
  | some e =>
    obtain ⟨he, hkey, -⟩ := Store.live?_some hlive
    exact (h.eq_of_mem htext he hkey).symm.trans hvalue

theorem Serves.put (h : cache.Serves f texts) (now : Nat) (htext : text ∈ texts)
    (hvalue : f text = some value) : (cache.put now text value).2.Serves f texts := by
  refine ⟨h.free, fun entry he => ?_⟩
  obtain hold | rfl := Store.mem_of_mem_put he
  · exact h.stored entry hold
  · exact ⟨text, htext, rfl, hvalue⟩

end DialectBridge.Cache
