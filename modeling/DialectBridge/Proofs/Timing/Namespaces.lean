import DialectBridge.Proofs.Text.Utf8
import DialectBridge.Proofs.Timing.Cache

/-!
# Namespaces of one store

A fingerprint is taken of the bytes of a namespace, a zero byte and the bytes of a text.  If the
namespace has no zero in it, these bytes tell the two apart, whatever the text is.  So the caches of
several namespaces could keep their entries in one store: each of them would be answered as if it
had a store to itself.  Only the entries would be shared, and not the lock before them.

* `Fingerprint.preimage_eq_iff` — the bytes that are hashed have one namespace and one text;
* `Store.get_restrict`, `Store.put_restrict` — an operation on one of some keys only needs the
  entries of these keys;
* `restrict_use_other` — to a namespace, storing by another one is no more than purging;
* `restrict_after` — the entries of a namespace in a shared store are those of a cache of its own;
* `namespaces_apart` — no namespace can tell from its answers that it shares the store.
-/

namespace DialectBridge

/-! ## The bytes that are hashed -/

namespace Fingerprint

/-- A namespace without the character that ends it. -/
def NulFree (space : String) : Prop :=
  '\x00' ∉ space.toList

instance (space : String) : Decidable (NulFree space) :=
  inferInstanceAs (Decidable ('\x00' ∉ space.toList))

/-- What is hashed is itself the spelling of a text. -/
theorem preimage_eq_encode (space text : List Char) :
    preimage space text = Text.Utf8.encode (space ++ '\x00' :: text) := by
  have hzero : Text.Utf8.encode ('\x00' :: text) = 0 :: Text.Utf8.encode text := by
    rw [Text.Utf8.encode, List.flatMap_cons, Text.Utf8.utf8EncodeChar_ascii (by decide)]
    rfl
  rw [preimage, Text.Utf8.encode_append, hzero]

/-- A text is cut in one way at its first separator. -/
theorem append_cons_inj_of_first {α : Type} [DecidableEq α] {sep : α}
    {front front' back back' : List α} (h : sep ∉ front) (h' : sep ∉ front') :
    front ++ sep :: back = front' ++ sep :: back' ↔ front = front' ∧ back = back' := by
  have hcut (front back : List α) (hfront : sep ∉ front) :
      (front ++ sep :: back).takeWhile (fun a => a ≠ sep) = front := by
    rw [List.takeWhile_append_of_pos, List.takeWhile_cons_of_neg (by simp), List.append_nil]
    intro a ha
    exact decide_eq_true fun hsep => hfront (hsep ▸ ha)
  constructor
  · intro heq
    have hfront : front = front' := by rw [← hcut front back h, heq, hcut front' back' h']
    subst hfront
    exact ⟨rfl, (List.cons.inj (List.append_cancel_left heq)).2⟩
  · rintro ⟨rfl, rfl⟩
    rfl

/-- **The bytes that are hashed have one namespace and one text.** -/
theorem preimage_eq_iff {a b : String} (ha : NulFree a) (hb : NulFree b) (t u : String) :
    preimage a.toList t.toList = preimage b.toList u.toList ↔ a = b ∧ t = u := by
  rw [preimage_eq_encode, preimage_eq_encode, Text.Utf8.encode_injective.eq_iff,
    append_cons_inj_of_first ha hb, String.toList_inj, String.toList_inj]

end Fingerprint

/-! ## The entries of some keys -/

namespace Store

variable {κ ν : Type} [DecidableEq κ] {s : Store κ ν} {keys : List κ} {key : κ} {now : Nat}

/-- A store with only the entries of some keys. -/
def restrict (keys : List κ) (s : Store κ ν) : Store κ ν :=
  { s with entries := s.entries.filter fun e => e.key ∈ keys }

theorem find?_restrict (h : key ∈ keys) : (s.restrict keys).find? key = s.find? key := by
  unfold find? restrict
  rw [List.find?_filter]
  congr 1
  funext e
  by_cases hkey : e.key = key <;> simp [hkey, h]

theorem purge_restrict : ((s.restrict keys).purge now).2 = (s.purge now).2.restrict keys := by
  simp only [restrict, purge]
  rw [List.filter_comm]

/-- Looking up one of the keys only needs their entries. -/
theorem get_restrict (h : key ∈ keys) :
    (s.restrict keys).get now key = ((s.get now key).1, (s.get now key).2.restrict keys) := by
  unfold get
  rw [find?_restrict h]
  cases s.find? key with
  | none => rfl
  | some e =>
    by_cases hlive : e.live now = true
    · simp only [if_pos hlive]
    · simp only [if_neg hlive, restrict]
      rw [List.filter_comm]

/-- Storing under one of the keys only needs their entries. -/
theorem put_restrict (h : key ∈ keys) (value : ν) :
    (s.restrict keys).put now key value =
      ((s.put now key value).1, (s.put now key value).2.restrict keys) := by
  have hlifetime : ((s.purge now).2.restrict keys).lifetime = (s.purge now).2.lifetime := rfl
  unfold put
  simp only [purge_restrict, find?_restrict h, hlifetime]
  cases (s.purge now).2.find? key with
  | some e => rfl
  | none =>
    cases timeAfter? now (s.purge now).2.lifetime with
    | none => rfl
    | some expires => simp [restrict, h]

/-- Looking up another key leaves the entries of the keys. -/
theorem entries_get_of_not_mem (h : key ∉ keys) :
    ((s.get now key).2.restrict keys).entries = (s.restrict keys).entries := by
  unfold get
  cases s.find? key with
  | none => rfl
  | some e =>
    by_cases hlive : e.live now = true
    · simp only [if_pos hlive]
    · simp only [if_neg hlive, restrict]
      rw [List.filter_comm, List.filter_eq_self]
      intro e' he'
      have hkey : e'.key ∈ keys := by simpa using (List.mem_filter.mp he').2
      exact decide_eq_true fun heq => h (heq ▸ hkey)

/-- Storing under another key drops, of the entries of the keys, those that have expired. -/
theorem entries_put_of_not_mem (h : key ∉ keys) (value : ν) :
    ((s.put now key value).2.restrict keys).entries = ((s.restrict keys).purge now).2.entries := by
  unfold put
  simp only [purge_restrict]
  cases (s.purge now).2.find? key with
  | some e => rfl
  | none =>
    cases timeAfter? now (s.purge now).2.lifetime with
    | none => rfl
    | some expires => simp [restrict, h]

end Store

/-- No two of some byte strings have the same hash. -/
def Blake3.CollisionFree (inputs : List (List UInt8)) : Prop :=
  ∀ p ∈ inputs, ∀ q ∈ inputs, hash p = hash q → p = q

namespace Cache

variable {ν : Type}

/-! ## Sharing the entries -/

/-- The entries that several namespaces share, and the time. -/
structure Shared (ν : Type) where
  now : Nat
  entries : List (Entry Fingerprint ν)

/-- The cache of a namespace over the shared entries; its values have a lifetime of their own. -/
def Shared.view (lifetime : String → Nat) (s : Shared ν) (space : String) : Clocked ν :=
  ⟨s.now, ⟨space, ⟨lifetime space, s.entries⟩⟩⟩

/-- A namespace uses its cache, and leaves the entries to the others. -/
def Shared.use (lifetime : String → Nat) (s : Shared ν) (turn : String × Use ν) : Shared ν :=
  let c := (s.view lifetime turn.1).use turn.2
  ⟨c.now, c.cache.store.entries⟩

/-- The shared entries after the uses of all namespaces, from none on. -/
def Shared.after (lifetime : String → Nat) (turns : List (String × Use ν)) : Shared ν :=
  turns.foldl (Shared.use lifetime) ⟨0, []⟩

/-- Time passes for all namespaces. -/
def Use.isAdvance : Use ν → Bool
  | .advance _ => true
  | _ => false

/-- What a namespace does itself in a shared history, and the passing of time. -/
def own (space : String) (turns : List (String × Use ν)) : List (Use ν) :=
  (turns.filter fun turn => turn.1 = space || turn.2.isAdvance).map Prod.snd

/-- All that is hashed in a shared history. -/
def hashed (turns : List (String × Use ν)) : List (List UInt8) :=
  turns.filterMap fun turn =>
    turn.2.text?.map fun text => Fingerprint.preimage turn.1.toList text.toList

/-- What the use of another namespace is to a cache: whoever stores drops what has expired. -/
def Use.fromOutside : Use ν → List (Use ν)
  | .get _ => []
  | .put _ _ => [.purge]
  | .purge => [.purge]
  | .advance ms => [.advance ms]

/-- What a turn of a shared history is to the cache of a namespace. -/
def seenTurn (space : String) (turn : String × Use ν) : List (Use ν) :=
  if turn.1 = space then [turn.2] else turn.2.fromOutside

/-- What a shared history is to the cache of a namespace. -/
def seen (space : String) (turns : List (String × Use ν)) : List (Use ν) :=
  turns.flatMap (seenTurn space)

/-- A cache with only the entries of some keys. -/
def Clocked.restrict (keys : List Fingerprint) (c : Clocked ν) : Clocked ν :=
  { c with cache := { c.cache with store := c.cache.store.restrict keys } }

variable {lifetime : String → Nat} {s : Shared ν} {space other text : String} {use : Use ν}
  {turns fewer : List (String × Use ν)} {keys : List Fingerprint} {c : Clocked ν}

/-! ## One use of the shared entries -/

theorem view_of_cache (hspace : c.cache.space = space)
    (hlifetime : c.cache.store.lifetime = lifetime space) :
    Shared.view lifetime ⟨c.now, c.cache.store.entries⟩ space = c := by
  subst hspace
  rw [Shared.view, ← hlifetime]

/-- A use by the namespace itself is a use of its cache. -/
theorem view_use_self (s : Shared ν) (space : String) (use : Use ν) :
    (s.use lifetime (space, use)).view lifetime space = (s.view lifetime space).use use := by
  apply view_of_cache
  · exact use_space _ use
  · exact use_lifetime _ use

/-- A use for one of the keys only needs their entries. -/
theorem restrict_use
    (h : ∀ text, use.text? = some text → Fingerprint.of c.cache.space text ∈ keys) :
    (c.use use).restrict keys = (c.restrict keys).use use := by
  have hstore {store store' : Store Fingerprint ν} (heq : store' = store) :
      Clocked.mk c.now ⟨c.cache.space, store⟩ = Clocked.mk c.now ⟨c.cache.space, store'⟩ := by
    rw [heq]
  cases use with
  | get text => exact hstore (congrArg Prod.snd (Store.get_restrict (h text rfl)))
  | put text value => exact hstore (congrArg Prod.snd (Store.put_restrict (h text rfl) value))
  | purge => exact hstore Store.purge_restrict
  | advance ms => rfl

theorem restrict_use_self (h : ∀ text, use.text? = some text → Fingerprint.of space text ∈ keys) :
    ((s.use lifetime (space, use)).view lifetime space).restrict keys =
      ((s.view lifetime space).restrict keys).use use := by
  rw [view_use_self]
  exact restrict_use h

/-- **To a namespace, the use of another one is at most a purge.** -/
theorem restrict_use_other
    (h : ∀ text, use.text? = some text → Fingerprint.of other text ∉ keys) :
    ((s.use lifetime (other, use)).view lifetime space).restrict keys =
      use.fromOutside.foldl Clocked.use ((s.view lifetime space).restrict keys) := by
  -- only the entries matter, since the other namespace has another lifetime
  have hentries {entries entries' : List (Entry Fingerprint ν)} (heq : entries = entries') :
      Clocked.mk s.now ⟨space, ⟨lifetime space, entries⟩⟩ =
        Clocked.mk s.now ⟨space, ⟨lifetime space, entries'⟩⟩ := by rw [heq]
  cases use with
  | get text => exact hentries (Store.entries_get_of_not_mem (h text rfl))
  | put text value => exact hentries (Store.entries_put_of_not_mem (h text rfl) value)
  | purge => exact hentries (congrArg Store.entries Store.purge_restrict).symm
  | advance ms => rfl

/-! ## A shared history -/

/-- Some keys are those of a namespace, as far as a history asks for any. -/
def KeysApart (keys : List Fingerprint) (space : String) (turns : List (String × Use ν)) : Prop :=
  ∀ turn ∈ turns, ∀ text, turn.2.text? = some text →
    (Fingerprint.of turn.1 text ∈ keys ↔ turn.1 = space)

theorem shared_after_concat (turns : List (String × Use ν)) (turn : String × Use ν) :
    Shared.after lifetime (turns ++ [turn]) = (Shared.after lifetime turns).use lifetime turn := by
  simp only [Shared.after, List.foldl_append, List.foldl_cons, List.foldl_nil]

theorem after_append (uses uses' : List (Use ν)) {ttl : Nat} :
    after space ttl (uses ++ uses') = uses'.foldl Clocked.use (after space ttl uses) := by
  rw [after, List.foldl_append, after]

/-- **The entries of a namespace are those of a cache of its own**, which is purged whenever another
namespace stores. -/
theorem restrict_after (h : KeysApart keys space turns) :
    ((Shared.after lifetime turns).view lifetime space).restrict keys =
      after space (lifetime space) (seen space turns) := by
  induction turns using List.reverseRecOn with
  | nil => rfl
  | append_singleton turns turn ih =>
    obtain ⟨name, use⟩ := turn
    have hseen : seen space (turns ++ [(name, use)]) =
        seen space turns ++ seenTurn space (name, use) := by simp [seen]
    have hkeys : ∀ text, use.text? = some text → (Fingerprint.of name text ∈ keys ↔ name = space) :=
      h (name, use) (by simp)
    have hold := ih fun turn hturn => h turn (List.mem_append_left _ hturn)
    rw [shared_after_concat, hseen, after_append, ← hold]
    -- its own uses only need its entries, and those of others have none of its keys
    by_cases hname : name = space
    · subst hname
      rw [restrict_use_self fun text htext => (hkeys text htext).mpr rfl, seenTurn, if_pos rfl]
      rfl
    · rw [restrict_use_other fun text htext hmem => hname ((hkeys text htext).mp hmem), seenTurn,
        if_neg hname]

theorem own_cons (turn : String × Use ν) (turns : List (String × Use ν)) :
    own space (turn :: turns) =
      if turn.1 = space ∨ turn.2.isAdvance = true then turn.2 :: own space turns
      else own space turns := by
  simp only [own, List.filter_cons, Bool.or_eq_true, decide_eq_true_eq]
  split <;> rfl

/-- What is stored in a cache of its own, and when, is what the namespace itself stores. -/
theorem filter_writes_seen (space : String) (turns : List (String × Use ν)) :
    (seen space turns).filter Use.writes = (own space turns).filter Use.writes := by
  induction turns with
  | nil => rfl
  | cons turn turns ih =>
    obtain ⟨name, use⟩ := turn
    have hcons : seen space ((name, use) :: turns) =
        seenTurn space (name, use) ++ seen space turns := List.flatMap_cons
    rw [hcons, List.filter_append, ih, own_cons, seenTurn]
    by_cases hname : name = space
    · rw [if_pos hname, if_pos (.inl hname), ← List.filter_append, List.singleton_append]
    · rw [if_neg hname]
      cases use with
      | advance ms => rw [if_pos (.inr rfl)]; rfl
      | _ => rw [if_neg (by simp [hname, Use.isAdvance])]; rfl

/-- Two histories that store the same lead to the same answers. -/
theorem answers_of_writes {uses uses' : List (Use ν)}
    (h : uses.filter Use.writes = uses'.filter Use.writes) (ttl : Nat) (text : String) :
    let c := after space ttl uses
    let c' := after space ttl uses'
    c.now = c'.now ∧ (c.cache.get c.now text).1 = (c'.cache.get c'.now text).1 ∧
      ∀ value, (c.cache.put c.now text value).1 = (c'.cache.put c'.now text value).1 := by
  intro c c'
  have hcore := alike_after space ttl uses
  have hcore' := alike_after space ttl uses'
  rw [← h] at hcore'
  refine ⟨hcore.now.symm.trans hcore'.now, ?_, fun value => ?_⟩
  · rw [← hcore.get_eq (tidy_after _) (tidy_after _), hcore'.get_eq (tidy_after _) (tidy_after _)]
  · rw [← hcore.put_eq (tidy_after _) (tidy_after _), hcore'.put_eq (tidy_after _) (tidy_after _)]

/-- A namespace is answered as by a cache of its own. -/
theorem answers_shared (lifetime : String → Nat) (h : KeysApart keys space turns)
    (htext : Fingerprint.of space text ∈ keys) :
    let s := (Shared.after lifetime turns).view lifetime space
    let c := after space (lifetime space) (own space turns)
    s.now = c.now ∧ (s.cache.get s.now text).1 = (c.cache.get c.now text).1 ∧
      ∀ value, (s.cache.put s.now text value).1 = (c.cache.put c.now text value).1 := by
  intro s c
  have hown : s.restrict keys = after space (lifetime space) (seen space turns) := restrict_after h
  obtain ⟨hnow, hget, hput⟩ :=
    answers_of_writes (filter_writes_seen space turns) (lifetime space) text
  rw [← hown] at hnow hget hput
  refine ⟨hnow, ?_, fun value => ?_⟩
  · rw [← hget]
    exact (congrArg Prod.fst (Store.get_restrict htext)).symm
  · rw [← hput value]
    exact (congrArg Prod.fst (Store.put_restrict htext value)).symm

/-! ## The keys of a namespace -/

/-- The keys that a namespace asks for in a history. -/
def keysOf (space : String) (turns : List (String × Use ν)) : List Fingerprint :=
  (turns.filter fun turn => turn.1 = space).filterMap fun turn => turn.2.text?.map (.of space)

theorem mem_keysOf {key : Fingerprint} :
    key ∈ keysOf space turns ↔
      ∃ turn ∈ turns, turn.1 = space ∧
        ∃ text, turn.2.text? = some text ∧ Fingerprint.of space text = key := by
  simp [keysOf, and_assoc]

theorem mem_hashed {turn : String × Use ν} (hturn : turn ∈ turns)
    (htext : turn.2.text? = some text) :
    Fingerprint.preimage turn.1.toList text.toList ∈ hashed turns := by
  rw [hashed, List.mem_filterMap]
  exact ⟨turn, hturn, by rw [htext]; rfl⟩

/-- **The keys of a namespace are of no other one**, if nothing that is hashed collides. -/
theorem keysOf_apart (space : String) (hnul : ∀ turn ∈ turns, Fingerprint.NulFree turn.1)
    (hfree : Blake3.CollisionFree (hashed turns)) : KeysApart (keysOf space turns) space turns := by
  intro turn hturn text htext
  rw [mem_keysOf]
  constructor
  · rintro ⟨turn', hturn', hspace, text', htext', hkey⟩
    subst hspace
    have hinput := hfree _ (mem_hashed hturn' htext') _ (mem_hashed hturn htext)
      (congrArg Fingerprint.bytes hkey)
    exact ((Fingerprint.preimage_eq_iff (hnul _ hturn') (hnul _ hturn) _ _).mp hinput).1.symm
  · intro hspace
    exact ⟨turn, hturn, hspace, text, htext, by rw [hspace]⟩

/-! ## The theorem -/

/-- **Namespaces are kept apart.**  For namespaces without a zero, the bytes that are hashed are the
same just if the namespaces and the texts are.  So, if nothing that is hashed in a history of shared
entries collides, whoever asks is answered as by a cache that only this namespace has used; and any
of the uses of the others may be left out of the history, without a change in what is found. -/
theorem namespaces_apart :
    (∀ a b t u : String, Fingerprint.NulFree a → Fingerprint.NulFree b →
      (Fingerprint.preimage a.toList t.toList = Fingerprint.preimage b.toList u.toList ↔
        a = b ∧ t = u)) ∧
    ∀ (lifetime : String → Nat) (turns : List (String × Use ν)) (space text : String),
      (∀ turn ∈ (space, .get text) :: turns, Fingerprint.NulFree turn.1) →
      Blake3.CollisionFree (hashed ((space, .get text) :: turns)) →
      let s := (Shared.after lifetime turns).view lifetime space
      let c := after space (lifetime space) (own space turns)
      (s.now = c.now ∧ (s.cache.get s.now text).1 = (c.cache.get c.now text).1 ∧
        ∀ value, (s.cache.put s.now text value).1 = (c.cache.put c.now text value).1) ∧
      ∀ fewer : List (String × Use ν), fewer.Sublist turns → own space fewer = own space turns →
        let s' := (Shared.after lifetime fewer).view lifetime space
        (s'.cache.get s'.now text).1 = (s.cache.get s.now text).1 := by
  refine ⟨fun a b t u ha hb => Fingerprint.preimage_eq_iff ha hb t u, ?_⟩
  intro lifetime turns space text hnul hfree s c
  have hkeys := keysOf_apart space hnul hfree
  have htext := (hkeys _ List.mem_cons_self text rfl).mpr rfl
  have hall : KeysApart (keysOf space ((space, .get text) :: turns)) space turns :=
    fun turn hturn => hkeys turn (List.mem_cons_of_mem _ hturn)
  have hanswers := answers_shared lifetime hall htext
  refine ⟨hanswers, fun fewer hfewer hown => ?_⟩
  have hsome : KeysApart (keysOf space ((space, .get text) :: turns)) space fewer :=
    fun turn hturn => hall turn (hfewer.subset hturn)
  have hless := answers_shared lifetime hsome htext
  rw [hown] at hless
  exact hless.2.1.trans hanswers.2.1.symm

/-- Results of two kinds under the same text: those of one namespace expire, are stored anew and are
purged while the other one keeps its own. -/
def twoSpaces : List (String × Use (Nat ⊕ String)) :=
  [("compile", .put "x = 1" (.inl 1)), ("verify", .put "x = 1" (.inr "none")),
    ("verify", .get "x = 1"), ("compile", .advance 5), ("verify", .put "x = 1" (.inr "one")),
    ("verify", .advance 3), ("verify", .purge)]

/-- The values of one namespace live longer than those of the other. -/
def unequalLifetime (space : String) : Nat :=
  if space = "compile" then 10 else 3

theorem namespaces_apart_twoSpaces :
    (∀ turn ∈ ("compile", .get "x = 1") :: twoSpaces, Fingerprint.NulFree turn.1) ∧
      Blake3.CollisionFree (hashed (("compile", .get "x = 1") :: twoSpaces)) ∧
      (((Shared.after unequalLifetime twoSpaces).view unequalLifetime "compile").cache.get 8
        "x = 1").1 = some (.inl 1) ∧
      Fingerprint.preimage "compile".toList "\x00x".toList ≠
        Fingerprint.preimage "verify".toList "compile\x00".toList := by
  have hnul : ∀ turn ∈ ("compile", .get "x = 1") :: twoSpaces, Fingerprint.NulFree turn.1 := by
    decide
  have hfree : Blake3.CollisionFree (hashed (("compile", .get "x = 1") :: twoSpaces)) := by
    unfold Blake3.CollisionFree
    decide +kernel
  obtain ⟨hbytes, hanswers⟩ := namespaces_apart (ν := Nat ⊕ String)
  have hget := (hanswers unequalLifetime twoSpaces "compile" "x = 1" hnul hfree).1.2.1
  refine ⟨hnul, hfree, ?_, ?_⟩
  · refine Eq.trans hget ?_
    decide +kernel
  · rw [Ne, hbytes "compile" "verify" _ _ (by decide) (by decide)]
    decide

end Cache

end DialectBridge
