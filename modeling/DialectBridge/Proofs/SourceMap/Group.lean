import DialectBridge.Proofs.SourceMap.Vlq
import DialectBridge.Proofs.Text.Utf8
import Mathlib.Tactic.Ring

/-!
# The groups of a segment

A segment is a row of complete groups.  A group stands for a number however many digits it has
(`Group.number`), but it is read into a 64-bit word (`Group.read`): thirteen digits are taken, which
is one or two bits more than the word has.

* `exists_groups` — every row of digits is complete groups and the beginning of another one;
* `run_group`, `run_open` — what is read of a group, and of a group that is not complete;
* `decode_eq_ok_iff` — what is read of a segment, and of which segments;
* `Group.read_eq_number_iff` — a group is read as the number it stands for just if it fits the word;
* `decode_exact_iff_fits` — the same of all numbers of a segment.
-/

namespace DialectBridge.SourceMap.Vlq

/-- A complete group: five bits of each digit that another one follows, and of the last one. -/
structure Group where
  init : List (Fin 32)
  last : Fin 32
  deriving DecidableEq, Repr

/-- The digits of a group that is not complete. -/
def continuing (bits : List (Fin 32)) : List Nat :=
  bits.map fun b => 32 + b.val

/-- The number that some digits make up, least significant one first. -/
def total (bits : List (Fin 32)) : Nat :=
  bits.foldr (fun b n => b.val + 32 * n) 0

namespace Group

def digits (g : Group) : List Nat :=
  continuing g.init ++ [g.last.val]

/-- The text of a group. -/
def written (g : Group) : List Char :=
  g.digits.map Text.Base64.digit

/-- All the bits of a group, however many. -/
def raw (g : Group) : Nat :=
  total (g.init ++ [g.last])

/-- The number a group stands for: the lowest bit is the sign, the others the magnitude. -/
def number (g : Group) : Int :=
  if g.raw % 2 = 1 then -((g.raw / 2 : Nat) : Int) else (g.raw / 2 : Nat)

/-- The number that is read: the bits beyond the word are dropped, and the highest one of the word
counts as its sign. -/
def read (g : Group) : Int :=
  signed (wrap g.raw)

end Group

/-- The decoder with some fields finished, after the given digits of an open group. -/
def State.within (fields : List Int) (bits : List (Fin 32)) : State :=
  ⟨fields, wrap (total bits), 5 * bits.length, !bits.isEmpty⟩

variable {fields : List Int} {bits init : List (Fin 32)} {b last : Fin 32} {g : Group}

/-! ## The word -/

theorem total_concat (bits : List (Fin 32)) (b : Fin 32) :
    total (bits ++ [b]) = total bits + b.val * 2 ^ (5 * bits.length) := by
  induction bits with
  | nil => simp [total]
  | cons first bits ih =>
    have hpow : 2 ^ (5 * (bits.length + 1)) = 32 * 2 ^ (5 * bits.length) := by
      rw [Nat.mul_add, Nat.pow_add]
      omega
    simp only [total, List.cons_append, List.foldr_cons, List.length_cons] at ih ⊢
    rw [ih, hpow]
    ring

theorem total_lt (bits : List (Fin 32)) : total bits < 2 ^ (5 * bits.length) := by
  induction bits with
  | nil => simp [total]
  | cons first bits ih =>
    have hpow : 2 ^ (5 * (bits.length + 1)) = 32 * 2 ^ (5 * bits.length) := by
      rw [Nat.mul_add, Nat.pow_add]
      omega
    have hfirst := first.isLt
    simp only [total, List.foldr_cons, List.length_cons] at ih ⊢
    omega

theorem total_lt_of_le {k : Nat} (h : bits.length ≤ k) : total bits < 2 ^ (5 * k) :=
  Nat.lt_of_lt_of_le (total_lt bits) (Nat.pow_le_pow_right (by decide) (by omega))

/-- Wrapping, by cases. -/
theorem wrap_eq (n : Int) :
    wrap n = if n % 2 ^ 64 < 2 ^ 63 then n % 2 ^ 64 else n % 2 ^ 64 - 2 ^ 64 := by
  have hsize : UInt64.size = 2 ^ 64 := rfl
  rw [wrap, Int.bmod_def, hsize]
  rfl

/-- The thirteen digits that are taken may be wrapped one by one or all at once: only the last one
reaches the end of the word. -/
theorem wrap_total_concat (h : bits.length ≤ 12) (b : Fin 32) :
    wrap (total bits) + wrap (b.val <<< (5 * bits.length) : Nat) = wrap (total (bits ++ [b])) := by
  have hb := b.isLt
  have hlow : total bits < 2 ^ 60 := total_lt_of_le h
  rw [Nat.shiftLeft_eq, total_concat]
  by_cases hlast : bits.length = 12
  · rw [hlast]
    simp only [wrap_eq]
    omega
  · have hmid : b.val * 2 ^ (5 * bits.length) < 2 ^ 60 := by
      have hpow : 2 ^ (5 * bits.length) ≤ 2 ^ 55 := Nat.pow_le_pow_right (by decide) (by omega)
      calc b.val * 2 ^ (5 * bits.length) ≤ b.val * 2 ^ 55 := Nat.mul_le_mul_left _ hpow
        _ < 2 ^ 60 := by omega
    rw [wrap_of_lt (by omega), wrap_of_lt (by omega), wrap_of_lt (by omega)]
    push_cast
    rfl

/-- **A group is read as the number it stands for just if its bits fit the word.** -/
theorem Group.read_eq_number_iff (h : g.init.length ≤ 12) : g.read = g.number ↔ g.raw < 2 ^ 63 := by
  have hlength : (g.init ++ [g.last]).length ≤ 13 := by
    rw [List.length_append, List.length_singleton]
    omega
  have hraw : g.raw < 2 ^ 65 := total_lt_of_le hlength
  unfold Group.read Group.number signed
  rw [wrap_eq]
  omega

/-! ## One digit -/

theorem within_nil (fields : List Int) : State.within fields [] = ⟨fields, 0, 0, false⟩ := rfl

/-- A digit that another one follows. -/
theorem step_more (h : bits.length ≤ 12) (b : Fin 32) :
    step (.within fields bits) (byte (32 + b.val)) = .ok (.within fields (bits ++ [b])) := by
  have hb := b.isLt
  have hlow : (32 + b.val) % 32 = b.val := by omega
  have hshift : ¬ maxShift < 5 * bits.length := by unfold maxShift; omega
  simp only [step, digit?_byte (show 32 + b.val < 64 by omega), State.within, if_neg hshift, hlow,
    wrap_total_concat h b, if_pos (show 32 ≤ 32 + b.val by omega)]
  simp [Nat.mul_add]

/-- The last digit of a group. -/
theorem step_last (h : bits.length ≤ 12) (b : Fin 32) :
    step (.within fields bits) (byte b.val) =
      .ok (.within (Group.read ⟨bits, b⟩ :: fields) []) := by
  have hb := b.isLt
  have hshift : ¬ maxShift < 5 * bits.length := by unfold maxShift; omega
  simp only [step, digit?_byte (show b.val < 64 by omega), State.within, if_neg hshift,
    Nat.mod_eq_of_lt hb, wrap_total_concat h b, if_neg (show ¬ 32 ≤ b.val by omega)]
  rfl

/-- There is no place for a fourteenth digit. -/
theorem step_full (h : 12 < bits.length) {d : Nat} (hd : d < 64) :
    step (.within fields bits) (byte d) = .error .overflow := by
  have hshift : maxShift < 5 * bits.length := by unfold maxShift; omega
  simp only [step, digit?_byte hd]
  exact if_pos hshift

/-! ## A group -/

/-- A group is read as a whole, or it is too long. -/
theorem run_group (fields : List Int) (bits init : List (Fin 32)) (last : Fin 32)
    (rest : List UInt8) :
    run (.within fields bits) ((continuing init ++ [last.val]).map byte ++ rest) =
      if bits.length + init.length ≤ 12 then
        run (.within (Group.read ⟨bits ++ init, last⟩ :: fields) []) rest
      else .error .overflow := by
  have hlast := last.isLt
  induction init generalizing bits with
  | nil =>
    simp only [continuing, List.map_nil, List.nil_append, List.map_singleton, List.singleton_append,
      run, List.length_nil, Nat.add_zero, List.append_nil]
    by_cases h : bits.length ≤ 12
    · rw [step_last h, if_pos h]
    · rw [step_full (by omega) (by omega), if_neg h]
  | cons b init ih =>
    have hb := b.isLt
    simp only [continuing, List.map_cons, List.cons_append, run, List.length_cons] at ih ⊢
    by_cases h : bits.length ≤ 12
    · rw [step_more h]
      simp only
      rw [ih (bits ++ [b])]
      simp only [List.length_append, List.length_singleton, List.append_assoc,
        List.singleton_append, Nat.add_assoc, Nat.add_comm 1]
    · rw [step_full (by omega) (by omega), if_neg (by omega)]

/-- A group that is not complete stays open, or it is too long. -/
theorem run_open (fields : List Int) (bits tail : List (Fin 32)) (h : bits.length ≤ 13) :
    run (.within fields bits) ((continuing tail).map byte) =
      if bits.length + tail.length ≤ 13 then .ok (.within fields (bits ++ tail))
      else .error .overflow := by
  induction tail generalizing bits with
  | nil => simp [continuing, run, h]
  | cons b tail ih =>
    have hb := b.isLt
    simp only [continuing, List.map_cons, run, List.length_cons] at ih ⊢
    by_cases hlength : bits.length ≤ 12
    · rw [step_more hlength]
      simp only
      rw [ih (bits ++ [b]) (by rw [List.length_append, List.length_singleton]; omega)]
      simp only [List.length_append, List.length_singleton, List.append_assoc,
        List.singleton_append, Nat.add_assoc, Nat.add_comm 1]
    · rw [step_full (by omega) (by omega), if_neg (by omega)]

/-! ## A segment -/

/-- Every row of digits is complete groups, and then the beginning of another one. -/
theorem exists_groups {digits : List Nat} (h : ∀ d ∈ digits, d < 64) :
    ∃ (groups : List Group) (tail : List (Fin 32)),
      digits = groups.flatMap Group.digits ++ continuing tail := by
  induction digits with
  | nil => exact ⟨[], [], rfl⟩
  | cons d digits ih =>
    obtain ⟨groups, tail, rfl⟩ := ih fun d' hd' => h d' (List.mem_cons_of_mem _ hd')
    have hd : d < 64 := h d List.mem_cons_self
    by_cases hlast : d < 32
    · exact ⟨⟨[], ⟨d, hlast⟩⟩ :: groups, tail, rfl⟩
    · -- a digit that another one follows opens the first group there is, or the open one
      have heq : d = 32 + (d - 32) := by omega
      cases groups with
      | nil =>
        refine ⟨[], ⟨d - 32, by omega⟩ :: tail, ?_⟩
        simp only [continuing, List.flatMap_nil, List.nil_append, List.map_cons, ← heq]
      | cons first groups =>
        refine ⟨⟨⟨d - 32, by omega⟩ :: first.init, first.last⟩ :: groups, tail, ?_⟩
        simp only [Group.digits, continuing, List.flatMap_cons, List.map_cons, List.cons_append,
          ← heq]

/-- Complete groups are read one after the other, up to one that is too long. -/
theorem run_groups_append (groups : List Group) (fields : List Int) (rest : List UInt8) :
    run (.within fields []) ((groups.flatMap Group.digits).map byte ++ rest) =
      if ∀ g ∈ groups, g.init.length ≤ 12 then
        run (.within ((groups.map Group.read).reverse ++ fields) []) rest
      else .error .overflow := by
  induction groups generalizing fields with
  | nil => simp
  | cons first groups ih =>
    rw [List.flatMap_cons, List.map_append, List.append_assoc, Group.digits, run_group]
    simp only [List.length_nil, Nat.zero_add, List.nil_append, List.forall_mem_cons]
    by_cases h : first.init.length ≤ 12
    · rw [if_pos h, ih]
      simp only [h, true_and, List.map_cons, List.reverse_cons, List.append_assoc,
        List.singleton_append]
    · rw [if_neg h, if_neg fun hall => h hall.1]

theorem encode_digits {digits : List Nat} (h : ∀ d ∈ digits, d < 64) :
    Text.Utf8.encode (digits.map Text.Base64.digit) = digits.map byte := by
  rw [Text.Utf8.encode_ascii, List.map_map]
  · rfl
  · intro c hc
    obtain ⟨d, hd, rfl⟩ := List.mem_map.mp hc
    exact (base64_digit_plain (h d hd)).1

/-- What the digits of a segment are read as. -/
theorem decode_digits (groups : List Group) (tail : List (Fin 32)) :
    decode ((groups.flatMap Group.digits ++ continuing tail).map Text.Base64.digit) =
      if (∀ g ∈ groups, g.init.length ≤ 12) ∧ tail.length ≤ 13 then
        if tail = [] then .ok (groups.map Group.read) else .error .unterminated
      else .error .overflow := by
  have hdigits : ∀ d ∈ groups.flatMap Group.digits ++ continuing tail, d < 64 := by
    intro d hd
    simp only [List.mem_append, List.mem_flatMap, Group.digits, continuing, List.mem_map,
      List.mem_singleton] at hd
    obtain ⟨g, -, ⟨b, -, rfl⟩ | rfl⟩ | ⟨b, -, rfl⟩ := hd
    · exact Nat.add_lt_add_left b.isLt 32
    · exact Nat.lt_trans g.last.isLt (by decide)
    · exact Nat.add_lt_add_left b.isLt 32
  rw [decode, encode_digits hdigits, List.map_append, State.start, ← within_nil, run_groups_append]
  by_cases hall : ∀ g ∈ groups, g.init.length ≤ 12
  · rw [if_pos hall, run_open _ _ _ (by simp)]
    by_cases hlength : tail.length ≤ 13
    · simp only [List.length_nil, Nat.zero_add, if_pos hlength, if_pos (And.intro hall hlength)]
      cases tail with
      | nil => simp [State.within]
      | cons b tail => simp [State.within]
    · simp only [List.length_nil, Nat.zero_add, if_neg hlength]
      rw [if_neg fun h => hlength h.2]
  · simp only [if_neg hall]
    rw [if_neg fun h => hall h.1]

/-- A byte that is a digit. -/
theorem eq_byte_of_digit? {c : UInt8} {d : Nat} (h : digit? c = some d) : d < 64 ∧ c = byte d := by
  have hall : ∀ n : Fin 256, ∀ d ∈ digit? (UInt8.ofNat n), d < 64 ∧ UInt8.ofNat n = byte d := by
    decide +kernel
  have hbyte := hall ⟨c.toNat, c.toNat_lt⟩ d
  rw [UInt8.ofNat_toNat] at hbyte
  exact hbyte h

/-- Bytes that are read without an error are digits. -/
theorem digits_of_run {s s' : State} {bytes : List UInt8} (h : run s bytes = .ok s') :
    ∃ digits : List Nat, (∀ d ∈ digits, d < 64) ∧ bytes = digits.map byte := by
  induction bytes generalizing s with
  | nil => exact ⟨[], nofun, rfl⟩
  | cons c bytes ih =>
    rw [run] at h
    cases hdigit : digit? c with
    | none => simp [step, hdigit] at h
    | some d =>
      obtain ⟨hd, rfl⟩ := eq_byte_of_digit? hdigit
      cases hstep : step s (byte d) with
      | error e => simp [hstep] at h
      | ok next =>
        rw [hstep] at h
        obtain ⟨digits, hdigits, rfl⟩ := ih h
        exact ⟨d :: digits, List.forall_mem_cons.mpr ⟨hd, hdigits⟩, rfl⟩

/-- A segment that is read without an error is a row of digits. -/
theorem digits_of_decode {segment : List Char} (h : decode segment = .ok fields) :
    ∃ digits : List Nat, (∀ d ∈ digits, d < 64) ∧ segment = digits.map Text.Base64.digit := by
  rw [decode] at h
  cases hrun : run .start (Text.Utf8.encode segment) with
  | error e => simp [hrun] at h
  | ok s =>
    obtain ⟨digits, hdigits, hbytes⟩ := digits_of_run hrun
    rw [← encode_digits hdigits] at hbytes
    exact ⟨digits, hdigits, Text.Utf8.encode_injective hbytes⟩

theorem map_digit_flatMap (groups : List Group) :
    (groups.flatMap Group.digits).map Text.Base64.digit = groups.flatMap Group.written := by
  rw [List.map_flatMap]
  rfl

/-- Complete groups are read as a whole, or one of them is too long. -/
theorem decode_groups (groups : List Group) :
    decode (groups.flatMap Group.written) =
      if ∀ g ∈ groups, g.init.length ≤ 12 then .ok (groups.map Group.read)
      else .error .overflow := by
  have hdecode := decode_digits groups []
  simpa [continuing, map_digit_flatMap] using hdecode

/-- **What is read of a segment**: it is a row of complete groups of at most thirteen digits, and
each of them is read. -/
theorem decode_eq_ok_iff (segment : List Char) (fields : List Int) :
    decode segment = .ok fields ↔
      ∃ groups : List Group, segment = groups.flatMap Group.written ∧
        (∀ g ∈ groups, g.init.length ≤ 12) ∧ fields = groups.map Group.read := by
  constructor
  · intro h
    obtain ⟨digits, hdigits, rfl⟩ := digits_of_decode h
    obtain ⟨groups, tail, rfl⟩ := exists_groups hdigits
    rw [decode_digits] at h
    split at h
    · rename_i hshort
      split at h
      · rename_i htail
        refine ⟨groups, ?_, hshort.1, (Except.ok.inj h).symm⟩
        rw [htail, continuing, List.map_nil, List.append_nil, map_digit_flatMap]
      · cases h
    · cases h
  · rintro ⟨groups, rfl, hshort, rfl⟩
    rw [decode_groups, if_pos hshort]

/-- **Numbers are read exactly where they fit.**  A segment is read if and only if it is a row of
complete groups of at most thirteen digits, and a longer group is an overflow.  The numbers that are
read are those the groups stand for if and only if the bits of each group fit a signed word of 64
bits; the thirteenth digit has two bits of five that do not, and nothing is said of them. -/
theorem decode_exact_iff_fits (segment : List Char) :
    (∀ fields, decode segment = .ok fields ↔
      ∃ groups : List Group, segment = groups.flatMap Group.written ∧
        (∀ g ∈ groups, g.init.length ≤ 12) ∧ fields = groups.map Group.read) ∧
    ∀ groups : List Group, segment = groups.flatMap Group.written →
      ((∃ g ∈ groups, 12 < g.init.length) → decode segment = .error .overflow) ∧
      ∀ fields, decode segment = .ok fields →
        (fields = groups.map Group.number ↔ ∀ g ∈ groups, g.raw < 2 ^ 63) := by
  refine ⟨decode_eq_ok_iff segment, ?_⟩
  rintro groups rfl
  rw [decode_groups]
  constructor
  · rintro ⟨g, hg, hlong⟩
    exact if_neg fun hshort => absurd (hshort g hg) (Nat.not_le_of_lt hlong)
  · intro fields hdecode
    by_cases hshort : ∀ g ∈ groups, g.init.length ≤ 12
    · rw [if_pos hshort] at hdecode
      rw [← Except.ok.inj hdecode, List.map_inj_left]
      exact forall₂_congr fun g hg => Group.read_eq_number_iff (hshort g hg)
    · rw [if_neg hshort] at hdecode
      cases hdecode

/-- A group of thirteen digits whose only bit lies beyond the word: it stands for 2^63, and is read
as nothing. -/
theorem decode_exact_iff_fits_droppedBit :
    let g : Group := ⟨List.replicate 12 0, 16⟩
    "ggggggggggggQ".toList = [g].flatMap Group.written ∧ decode "ggggggggggggQ".toList = .ok [0] ∧
      g.number = 2 ^ 63 ∧ [0] ≠ [g].map Group.number := by
  intro g
  have hwritten : "ggggggggggggQ".toList = [g].flatMap Group.written := by decide +kernel
  have hdecode : decode "ggggggggggggQ".toList = .ok [0] := by decide +kernel
  have hfits := ((decode_exact_iff_fits _).2 [g] hwritten).2 [0] hdecode
  refine ⟨hwritten, hdecode, by decide +kernel, ?_⟩
  rw [Ne, hfits]
  decide +kernel

end DialectBridge.SourceMap.Vlq
