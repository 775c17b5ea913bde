import DialectBridge.Proofs.SourceMap.Vlq

/-!
# The word of the reader

The reader keeps an open group in a signed word of 64 bits.  Three numbers are computed there: the
bits of a digit are moved to their place, they are added to what the group has already, and the
magnitude of a finished group is negated if its lowest bit says so.  A number below 2^62 in its
canonical form takes up to thirteen digits, and none of the three leaves the word.

* `ReadsInWord.step_eq` — a digit that is read in the word adds exactly its bits;
* `readsAll_groups` — the digits of a number are read in the word, whatever is open and whatever
  follows;
* `decode_encode_in_word` — the same of all numbers of a segment, which are read as they were
  written.
-/

namespace DialectBridge.SourceMap.Vlq

/-- A byte is a digit that there is room for, and what is computed of it stays in the word: its bits
in their place, the sum with the open group, and the negation of the magnitude if the group ends. -/
structure ReadsInWord (s : State) (b : UInt8) (d : Nat) : Prop where
  digit : digit? b = some d
  room : s.shift ≤ maxShift
  placed : InWord ((d % 32) <<< s.shift : Nat)
  sum : InWord (s.value + ((d % 32) <<< s.shift : Nat))
  negated : d < 32 → InWord (-((s.value + ((d % 32) <<< s.shift : Nat)) / 2))

/-- Every byte is reached, and is read in the word. -/
def ReadsAllInWord (s : State) (bytes : List UInt8) : Prop :=
  ∀ before b after, bytes = before ++ b :: after →
    ∃ t d, run s before = .ok t ∧ ReadsInWord t b d

variable {s t : State} {b : UInt8} {d : Nat} {bytes : List UInt8}

/-! ## One digit -/

/-- A digit that is read in the word adds its bits, and none of them is lost. -/
theorem ReadsInWord.step_eq (h : ReadsInWord s b d) :
    step s b =
      if 32 ≤ d then .ok ⟨s.fields, s.value + ((d % 32) <<< s.shift : Nat), s.shift + 5, true⟩
      else .ok ⟨signed (s.value + ((d % 32) <<< s.shift : Nat)) :: s.fields, 0, 0, false⟩ := by
  have hwrap := wrap_of_inWord h.placed
  simp only [step, h.digit, if_neg (Nat.not_lt.mpr h.room), hwrap]

/-- A digit is read in the word if the group, with the bits of the digit, is below 2^63. -/
theorem readsInWord_byte {k : Nat} {value : Int} (hd : d < 64) (hk : k ≤ 12) (hvalue : 0 ≤ value)
    (hfit : value + (d % 32 * 2 ^ (5 * k) : Nat) < 2 ^ 63) (fields : List Int) (isOpen : Bool) :
    ReadsInWord ⟨fields, value, 5 * k, isOpen⟩ (byte d) d := by
  have hplace : (d % 32) <<< (5 * k) = d % 32 * 2 ^ (5 * k) := Nat.shiftLeft_eq _ _
  refine ⟨digit?_byte hd, ?_, ?_, ?_, fun _ => ?_⟩
  · show 5 * k ≤ 60
    omega
  all_goals
    simp only [InWord, hplace]
    omega

theorem ReadsAllInWord.cons (hb : ReadsInWord s b d) (hstep : step s b = .ok t)
    (hrest : ReadsAllInWord t bytes) : ReadsAllInWord s (b :: bytes) := by
  intro before b' after hsplit
  cases before with
  | nil =>
    obtain ⟨rfl, rfl⟩ := List.cons.inj hsplit
    exact ⟨s, d, rfl, hb⟩
  | cons first before =>
    obtain ⟨rfl, hbytes⟩ := List.cons.inj hsplit
    obtain ⟨t', d', hrun, hread⟩ := hrest before b' after hbytes
    refine ⟨t', d', ?_, hread⟩
    simp only [run, hstep, hrun]

/-! ## The digits of a number -/

/-- The digits of a value are read in the word, above what the open group has already. -/
theorem readsAll_groups (v : Nat) : ∀ (k : Nat) (fields : List Int) (value : Int) (isOpen : Bool)
    (rest : List UInt8), k ≤ 12 → 0 ≤ value → value + (v * 2 ^ (5 * k) : Nat) < 2 ^ 63 →
    ReadsAllInWord ⟨signed (value + (v * 2 ^ (5 * k) : Nat)) :: fields, 0, 0, false⟩ rest →
    ReadsAllInWord ⟨fields, value, 5 * k, isOpen⟩ ((groups v).map byte ++ rest) := by
  induction v using groups.induct with
  | case1 v h =>
    intro k fields value isOpen rest hk hvalue hfit hrest
    have hlow : v % 32 = v := Nat.mod_eq_of_lt h
    have hread : ReadsInWord ⟨fields, value, 5 * k, isOpen⟩ (byte v) v :=
      readsInWord_byte (by omega) hk hvalue (by rwa [hlow]) fields isOpen
    rw [groups, if_pos h, List.map_singleton, List.singleton_append]
    refine .cons hread ?_ hrest
    rw [hread.step_eq, if_neg (by omega), hlow, Nat.shiftLeft_eq]
  | case2 v h ih =>
    intro k fields value isOpen rest hk hvalue hfit hrest
    have hsplit := low_add_high v k
    have hlow : (32 + v % 32) % 32 = v % 32 := by omega
    have hroom : v * 2 ^ (5 * k) < 2 ^ 63 := by omega
    have hread : ReadsInWord ⟨fields, value, 5 * k, isOpen⟩ (byte (32 + v % 32)) (32 + v % 32) :=
      readsInWord_byte (by omega) hk hvalue (by rw [hlow]; omega) fields isOpen
    rw [groups, if_neg h, List.map_cons, List.cons_append]
    have hstep : step ⟨fields, value, 5 * k, isOpen⟩ (byte (32 + v % 32)) =
        .ok ⟨fields, value + (v % 32 * 2 ^ (5 * k) : Nat), 5 * (k + 1), true⟩ := by
      rw [hread.step_eq, if_pos (by omega), hlow, Nat.shiftLeft_eq]
      rfl
    have hsum : value + (v % 32 * 2 ^ (5 * k) : Nat) + (v / 32 * 2 ^ (5 * (k + 1)) : Nat) =
        value + (v * 2 ^ (5 * k) : Nat) := by omega
    -- what is left of the value has the next place, above what has been read
    refine .cons hread hstep ?_
    refine ih (k + 1) _ _ _ _ (shift_le_of_lt (by omega) hroom) (by omega) (by omega) ?_
    rwa [hsum]

theorem readsAll_encode {n : Int} (h : n.natAbs < 2 ^ 62) (fields : List Int) (rest : List UInt8)
    (hrest : ReadsAllInWord ⟨n :: fields, 0, 0, false⟩ rest) :
    ReadsAllInWord ⟨fields, 0, 0, false⟩ (Text.Utf8.encode (encode n) ++ rest) := by
  have hfit := folded_lt h
  have hvalue : (0 : Int) + (folded n * 2 ^ (5 * 0) : Nat) = folded n := by simp
  rw [encode_bytes]
  refine readsAll_groups (folded n) 0 fields 0 false rest (by omega) (by omega) (by omega) ?_
  rwa [hvalue, signed_folded]

/-! ## The numbers of a segment -/

theorem readsAll_flatMap_encode {ns : List Int} (h : ∀ n ∈ ns, n.natAbs < 2 ^ 62)
    (fields : List Int) :
    ReadsAllInWord ⟨fields, 0, 0, false⟩ (Text.Utf8.encode (ns.flatMap encode)) := by
  induction ns generalizing fields with
  | nil =>
    intro before b after hsplit
    cases before <;> cases hsplit
  | cons n ns ih =>
    rw [List.flatMap_cons, Text.Utf8.encode_append]
    exact readsAll_encode (h n List.mem_cons_self) fields _
      (ih (fun m hm => h m (List.mem_cons_of_mem _ hm)) _)

/-- **Numbers below 2^62 are read as they were written, within the word.**  The canonical digits of
any list of them are read back as the list; each digit is reached, and neither its bits in their
place, nor the sum they are added to, nor the negation at the end of the group leaves a signed word
of 64 bits. -/
theorem decode_encode_in_word (ns : List Int) (h : ∀ n ∈ ns, n.natAbs < 2 ^ 62) :
    decode (ns.flatMap encode) = .ok ns ∧
      ∀ before b after, Text.Utf8.encode (ns.flatMap encode) = before ++ b :: after →
        ∃ s d, run .start before = .ok s ∧ ReadsInWord s b d :=
  ⟨decode_flatMap_encode h, readsAll_flatMap_encode h []⟩

/-- The widest numbers of either sign, which take thirteen digits, and narrow ones between them. -/
def widest : List Int :=
  [2 ^ 62 - 1, 0, 1 - 2 ^ 62, -1]

theorem decode_encode_in_word_widest :
    (∀ n ∈ widest, n.natAbs < 2 ^ 62) ∧
      widest.flatMap encode = "+///////////HA////////////HD".toList ∧
      decode "+///////////HA////////////HD".toList = .ok widest ∧
      ∃ s d, run .start (Text.Utf8.encode "+///////////HA////////////".toList) = .ok s ∧
        ReadsInWord s (byte 7) d := by
  have hbound : ∀ n ∈ widest, n.natAbs < 2 ^ 62 := by decide
  have htext : widest.flatMap encode = "+///////////HA////////////HD".toList := by decide +kernel
  have hsplit : Text.Utf8.encode "+///////////HA////////////HD".toList =
      Text.Utf8.encode "+///////////HA////////////".toList ++ byte 7 :: [byte 3] := by
    decide +kernel
  obtain ⟨hdecode, hreads⟩ := decode_encode_in_word widest hbound
  rw [htext] at hdecode hreads
  exact ⟨hbound, htext, hdecode, hreads _ _ _ hsplit⟩

end DialectBridge.SourceMap.Vlq
