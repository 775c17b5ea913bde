import DialectBridge.Text.Blank
import DialectBridge.Text.DecimalDigit
import DialectBridge.Text.Numeral
import DialectBridge.Text.Utf8
import Mathlib.Data.List.DropRight
import Mathlib.Data.List.TakeDrop

/-!
# ASCII texts, trimmed texts and numerals

What the line-based formats of this library are written with: characters of one byte, lines with
blanks at their ends, and numbers in decimal.

* `Utf8.encode_ascii`, `Utf8.decode?_encode_ascii` — an ASCII text is one byte for each character,
  and is read back from them;
* `trimEnd_append`, `trimEnd_append_eq` — blanks are cut at the end, and nothing else is;
* `trimStart_trimEnd` — the ends of a text may be trimmed in either order;
* `numeral?_decimal` — a number is read back from its decimal digits, unless it is too large;
* `numeral?_eq_some_iff` — which texts are numerals, and of which number;
* `digitRun?_eq_some_iff` — a run of digits is as long as possible.
-/

namespace DialectBridge.Text

namespace Utf8

theorem encode_append (cs ds : List Char) : encode (cs ++ ds) = encode cs ++ encode ds := by
  rw [encode, List.flatMap_append]
  rfl

theorem utf8EncodeChar_ascii {c : Char} (h : c.toNat < 128) :
    String.utf8EncodeChar c = [UInt8.ofNat c.toNat] := by
  rw [String.utf8EncodeChar]
  exact if_pos (Nat.le_of_lt_succ h)

/-- The bytes of an ASCII text are its characters. -/
theorem encode_ascii {cs : List Char} (h : ∀ c ∈ cs, c.toNat < 128) :
    encode cs = cs.map fun c => UInt8.ofNat c.toNat := by
  induction cs with
  | nil => rfl
  | cons c cs ih =>
    have hcs := ih fun c' hc => h c' (List.mem_cons_of_mem _ hc)
    rw [encode] at hcs ⊢
    rw [List.flatMap_cons, utf8EncodeChar_ascii (h c List.mem_cons_self), hcs, List.map_cons,
      List.singleton_append]

theorem take_encode_ascii {cs : List Char} (h : ∀ c ∈ cs, c.toNat < 128) (k : Nat) :
    (encode cs).take k = encode (cs.take k) := by
  rw [encode_ascii h, encode_ascii fun c hc => h c (List.mem_of_mem_take hc), List.map_take]

theorem toNat_ofNat_ascii {c : Char} (h : c.toNat < 128) : (UInt8.ofNat c.toNat).toNat = c.toNat := by
  rw [UInt8.toNat_ofNat', Nat.mod_eq_of_lt (by omega)]

/-- The character of the byte of an ASCII character. -/
theorem ofNat_toNat_ofNat_toNat {c : Char} (h : c.toNat < 128) :
    Char.ofNat (UInt8.ofNat c.toNat).toNat = c := by
  rw [toNat_ofNat_ascii h, Char.ofNat_toNat]

/-- Only a line feed has the byte of a line feed. -/
theorem newline_not_mem_encode {cs : List Char} (h : ∀ c ∈ cs, c.toNat < 128) (hn : '\n' ∉ cs) :
    10 ∉ encode cs := by
  rw [encode_ascii h]
  intro hmem
  obtain ⟨c, hc, heq⟩ := List.mem_map.mp hmem
  have hten : c.toNat = 10 := by rw [← toNat_ofNat_ascii (h c hc), heq]; rfl
  have hnewline : c = '\n' := by rw [← Char.ofNat_toNat c, hten]
  exact hn (hnewline ▸ hc)

theorem step_ascii {c : Char} (h : c.toNat < 128) (items : List (Option Char)) :
    Reader.step ⟨items, none⟩ (UInt8.ofNat c.toNat) = ⟨some c :: items, none⟩ := by
  have hlt : UInt8.ofNat c.toNat < 0x80 := by
    rw [UInt8.lt_iff_toNat_lt, toNat_ofNat_ascii h]
    exact h
  simp only [Reader.step, Reader.lead, if_pos hlt, ofNat_toNat_ofNat_toNat h]

theorem foldl_step_ascii {cs : List Char} (h : ∀ c ∈ cs, c.toNat < 128)
    (items : List (Option Char)) :
    (cs.map fun c => UInt8.ofNat c.toNat).foldl Reader.step ⟨items, none⟩ =
      ⟨(cs.map some).reverse ++ items, none⟩ := by
  induction cs generalizing items with
  | nil => rfl
  | cons c cs ih =>
    rw [List.map_cons, List.foldl_cons, step_ascii (h c List.mem_cons_self),
      ih fun c' hc => h c' (List.mem_cons_of_mem _ hc)]
    simp

/-- An ASCII text is read back from its bytes. -/
theorem decode?_encode_ascii {cs : List Char} (h : ∀ c ∈ cs, c.toNat < 128) :
    decode? (encode cs) = some cs := by
  have hread : cs.mapM some = some cs := by
    simpa using List.mapM_pure (m := Option) (l := cs) (f := id)
  rw [decode?, items, encode_ascii h, foldl_step_ascii h, Reader.finish]
  simpa using hread

end Utf8

/-- Only a colon has a colon for its small letter. -/
theorem eq_colon_of_toLower {c : Char} (h : c.toLower = ':') : c = ':' := by
  unfold Char.toLower at h
  split at h
  · -- a capital letter becomes a letter
    rename_i hupper
    have hval := congrArg (fun c : Char => c.val.toNat) h
    obtain ⟨hlow, hhigh⟩ := hupper
    have hlow : 65 ≤ c.val.toNat := hlow
    have hhigh : c.val.toNat ≤ 90 := hhigh
    have hsum : (c.val + 32).toNat = c.val.toNat + 32 := by
      rw [UInt32.toNat_add, Nat.mod_eq_of_lt]
      · rfl
      · show c.val.toNat + 32 < _
        omega
    have : c.val.toNat + 32 = 58 := hsum.symm.trans hval
    omega
  · exact h

/-! ## Blanks -/

theorem trimEnd_append_blank {blanks : List Char} (h : ∀ c ∈ blanks, isBlank c = true)
    (cs : List Char) : trimEnd (cs ++ blanks) = trimEnd cs := by
  rw [trimEnd, List.reverse_append, List.dropWhile_append_of_pos, trimEnd]
  intro c hc
  exact h c (List.mem_reverse.mp hc)

theorem trimEnd_append {ds : List Char} (hne : ds ≠ []) (h : ∀ c ∈ ds, isBlank c = false)
    (cs : List Char) : trimEnd (cs ++ ds) = cs ++ ds := by
  obtain ⟨init, last, rfl⟩ : ∃ init last, ds = init ++ [last] :=
    ⟨_, _, (List.dropLast_concat_getLast hne).symm⟩
  have hlast : isBlank last = false := h last (by simp)
  rw [trimEnd, ← List.append_assoc, List.reverse_concat, List.dropWhile_cons_of_neg (by simp [hlast])]
  simp

theorem mem_dropWhile_blank {cs : List Char} {c : Char} (hc : c ∈ cs) (h : isBlank c = false) :
    c ∈ cs.dropWhile isBlank := by
  induction cs with
  | nil => cases hc
  | cons d cs ih =>
    rw [List.dropWhile_cons]
    split
    · rename_i hd
      rcases List.mem_cons.mp hc with rfl | hc
      · simp [h] at hd
      · exact ih hc
    · exact hc

theorem mem_trimEnd {cs : List Char} {c : Char} (hc : c ∈ cs) (h : isBlank c = false) :
    c ∈ trimEnd cs :=
  List.mem_reverse.mpr (mem_dropWhile_blank (List.mem_reverse.mpr hc) h)

/-- A text of other characters behind a blank. -/
theorem trim_cons_blank {b : Char} {ds : List Char} (hb : isBlank b = true) (hne : ds ≠ [])
    (h : ∀ c ∈ ds, isBlank c = false) : trim (b :: ds) = ds := by
  cases ds with
  | nil => exact absurd rfl hne
  | cons d ds =>
    have hd : isBlank d = false := h d List.mem_cons_self
    rw [trim, trimStart, List.dropWhile_cons_of_pos hb, List.dropWhile_cons_of_neg (by simp [hd])]
    exact trimEnd_append hne h []

theorem trimEnd_eq_nil_iff {cs : List Char} : trimEnd cs = [] ↔ isBlankText cs = true := by
  unfold trimEnd isBlankText
  rw [List.reverse_eq_nil_iff, List.dropWhile_eq_nil_iff]
  simp

theorem isEmpty_trimEnd (cs : List Char) : (trimEnd cs).isEmpty = isBlankText cs := by
  rw [Bool.eq_iff_iff, List.isEmpty_iff]
  exact trimEnd_eq_nil_iff

/-- Blanks are cut in the second part, and in the first one only if there is nothing else in the
second. -/
theorem trimEnd_append_eq (cs ds : List Char) :
    trimEnd (cs ++ ds) = if isBlankText ds then trimEnd cs else cs ++ trimEnd ds := by
  split
  · rename_i hblank
    exact trimEnd_append_blank (List.all_eq_true.mp hblank) cs
  · rename_i hblank
    have hne : ds.reverse.dropWhile isBlank ≠ [] := by
      intro hnil
      exact hblank (trimEnd_eq_nil_iff.mp (List.reverse_eq_nil_iff.mpr hnil))
    unfold trimEnd
    rw [List.reverse_append, List.dropWhile_append, if_neg (by simpa using hne), List.reverse_append,
      List.reverse_reverse]

/-- Nothing is cut in front of a text that is trimmed already. -/
theorem trimEnd_append_of_trimmed {ds : List Char} (hne : ds ≠ []) (htrim : trimEnd ds = ds)
    (cs : List Char) : trimEnd (cs ++ ds) = cs ++ ds := by
  have hblank : ¬isBlankText ds = true := by
    rw [← trimEnd_eq_nil_iff, htrim]
    exact hne
  rw [trimEnd_append_eq, if_neg hblank, htrim]

/-- The ends of a text may be trimmed in either order. -/
theorem trimStart_trimEnd (cs : List Char) : trimStart (trimEnd cs) = trim cs := by
  unfold trim
  induction cs with
  | nil => rfl
  | cons c cs ih =>
    have hcons := trimEnd_append_eq [c] cs
    rw [List.singleton_append] at hcons
    by_cases hc : isBlank c = true
    · have htail : trimStart (c :: cs) = trimStart cs := List.dropWhile_cons_of_pos hc
      rw [htail, ← ih, hcons]
      split
      · rename_i hblank
        have hone : trimEnd [c] = [] := trimEnd_eq_nil_iff.mpr (by simp [isBlankText, hc])
        rw [hone, trimEnd_eq_nil_iff.mpr hblank]
      · exact List.dropWhile_cons_of_pos hc
    · have hsame : trimStart (c :: cs) = c :: cs := List.dropWhile_cons_of_neg hc
      have hone : trimEnd [c] = [c] := trimEnd_append (by simp) (by simpa using hc) []
      rw [hsame, hcons, hone]
      split <;> exact List.dropWhile_cons_of_neg hc

theorem trim_eq_of_trimEnd_eq {cs ds : List Char} (h : trimEnd cs = trimEnd ds) :
    trim cs = trim ds := by
  rw [← trimStart_trimEnd, h, trimStart_trimEnd]

/-- What is cut at the end is blank. -/
theorem exists_trimEnd_append (cs : List Char) :
    ∃ blanks, cs = trimEnd cs ++ blanks ∧ ∀ c ∈ blanks, isBlank c = true := by
  refine ⟨(cs.reverse.takeWhile isBlank).reverse, ?_, fun c hc => ?_⟩
  · rw [trimEnd, ← List.reverse_append, List.takeWhile_append_dropWhile, List.reverse_reverse]
  · exact List.mem_takeWhile_imp (List.mem_reverse.mp hc)

theorem trimEnd_trimEnd (cs : List Char) : trimEnd (trimEnd cs) = trimEnd cs :=
  List.rdropWhile_idempotent isBlank cs

/-! ## Numerals -/

theorem isDigit_decimal {n : Nat} {c : Char} (h : c ∈ decimal n) : c.isDigit = true :=
  Nat.isDigit_of_mem_toDigits (by decide) (by decide) h

theorem decimal_ne_nil (n : Nat) : decimal n ≠ [] :=
  Nat.toDigits_ne_nil

theorem decimal_injective {m n : Nat} (h : decimal m = decimal n) : m = n := by
  rw [← Nat.ofDigitChars_ten_toDigits (n := m), ← Nat.ofDigitChars_ten_toDigits (n := n)]
  exact congrArg (Nat.ofDigitChars 10 · 0) h

theorem toNat_of_isDigit {c : Char} (h : c.isDigit = true) : 48 ≤ c.toNat ∧ c.toNat ≤ 57 := by
  simp only [Char.isDigit, Bool.and_eq_true, decide_eq_true_eq, UInt32.le_iff_toNat_le] at h
  exact h

theorem not_isBlank_of_isDigit {c : Char} (h : c.isDigit = true) : isBlank c = false := by
  have := toNat_of_isDigit h
  simp only [isBlank, inRanges, blankRanges, List.any_cons, List.any_nil, Bool.or_false,
    Bool.or_eq_false_iff, Bool.and_eq_false_iff, decide_eq_false_iff_not]
  omega

/-- A number is read back from its decimal digits, unless it is too large. -/
theorem numeral?_decimal (bound n : Nat) :
    numeral? bound (decimal n) = if n < bound then some n else none := by
  have hvalue : digitsValue (decimal n) = n := by
    rw [digitsValue, ← Nat.ofDigitChars_eq_foldl]
    exact Nat.ofDigitChars_ten_toDigits
  have hall : (decimal n).all Char.isDigit = true :=
    List.all_eq_true.mpr fun c hc => isDigit_decimal hc
  have hdigits : digits? bound (decimal n) = if n < bound then some n else none := by
    simp [digits?, decimal_ne_nil, hall, hvalue]
  unfold numeral?
  split
  · rename_i cs heq
    have hplus : '+'.isDigit = true := isDigit_decimal (heq ▸ List.mem_cons_self)
    exact absurd hplus (by decide)
  · exact hdigits

/-- A numeral of a number below a bound: an optional plus sign and digits, at least one. -/
def IsNumeral (bound : Nat) (cs : List Char) (n : Nat) : Prop :=
  ∃ sign digits, cs = sign ++ digits ∧ (sign = [] ∨ sign = ['+']) ∧ digits ≠ [] ∧
    (∀ c ∈ digits, c.isDigit = true) ∧ Nat.ofDigitChars 10 digits 0 = n ∧ n < bound

theorem digits?_eq_some_iff {bound n : Nat} {cs : List Char} :
    digits? bound cs = some n ↔
      cs ≠ [] ∧ (∀ c ∈ cs, c.isDigit = true) ∧ Nat.ofDigitChars 10 cs 0 = n ∧ n < bound := by
  have hvalue : digitsValue cs = Nat.ofDigitChars 10 cs 0 := by
    rw [digitsValue, ← Nat.ofDigitChars_eq_foldl]
  have hgood : (cs.isEmpty || !cs.all Char.isDigit) = false ↔
      cs ≠ [] ∧ ∀ c ∈ cs, c.isDigit = true := by
    rw [Bool.or_eq_false_iff, List.isEmpty_eq_false_iff, Bool.not_eq_false',
      List.all_eq_true]
  unfold digits?
  rw [hvalue, ← and_assoc, ← hgood]
  cases hbad : cs.isEmpty || !cs.all Char.isDigit with
  | true => simp
  | false =>
    simp only [Bool.false_eq_true, if_false, true_and]
    by_cases hlt : Nat.ofDigitChars 10 cs 0 < bound
    · rw [if_pos hlt, Option.some.injEq]
      exact ⟨fun heq => ⟨heq, heq ▸ hlt⟩, fun h => h.1⟩
    · rw [if_neg hlt]
      constructor
      · intro h
        cases h
      · rintro ⟨rfl, h⟩
        exact absurd h hlt

theorem numeral?_eq_some_iff {bound n : Nat} {cs : List Char} :
    numeral? bound cs = some n ↔ IsNumeral bound cs n := by
  have hplus : '+'.isDigit = false := by decide
  unfold numeral?
  split
  · rename_i cs
    rw [digits?_eq_some_iff]
    constructor
    · intro h
      exact ⟨['+'], cs, rfl, .inr rfl, h⟩
    · rintro ⟨sign, digits, heq, rfl | rfl, hne, hdigits, hrest⟩
      · -- a plus sign is no digit
        rw [List.nil_append] at heq
        have := hdigits '+' (heq ▸ List.mem_cons_self)
        rw [hplus] at this
        cases this
      · obtain ⟨-, rfl⟩ := List.cons.inj heq
        exact ⟨hne, hdigits, hrest⟩
  · rename_i hsign
    rw [digits?_eq_some_iff]
    constructor
    · intro h
      exact ⟨[], cs, rfl, .inl rfl, h⟩
    · rintro ⟨sign, digits, rfl, rfl | rfl, h⟩
      · exact h
      · exact absurd rfl (hsign digits)

/-! ## Runs of digits -/

/-- Decimal digits of any script, at least one. -/
def IsDigits (cs : List Char) : Prop :=
  cs ≠ [] ∧ ∀ c ∈ cs, isDecimalDigit c = true

/-- A text that does not start with a digit. -/
def NoDigitAhead (cs : List Char) : Prop :=
  ∀ c rest, cs = c :: rest → isDecimalDigit c = false

theorem isDigits_decimal (n : Nat) : IsDigits (decimal n) :=
  ⟨decimal_ne_nil n, fun _ hc => isDecimalDigit_of_isDigit (isDigit_decimal hc)⟩

theorem not_mem_of_isDigits {c : Char} {cs : List Char} (hc : isDecimalDigit c = false)
    (h : IsDigits cs) : c ∉ cs := by
  intro hmem
  rw [h.2 c hmem] at hc
  cases hc

theorem noDigitAhead_cons {c : Char} (h : isDecimalDigit c = false) (cs : List Char) :
    NoDigitAhead (c :: cs) := by
  rintro _ _ ⟨⟩
  exact h

theorem digitRun?_of_digits {digits rest : List Char} (hdigits : IsDigits digits)
    (hrest : NoDigitAhead rest) : digitRun? (digits ++ rest) = some (digits, rest) := by
  have htake : rest.takeWhile isDecimalDigit = [] := by
    cases rest with
    | nil => rfl
    | cons c rest => exact List.takeWhile_cons_of_neg (by simp [hrest c rest rfl])
  have hdrop : rest.dropWhile isDecimalDigit = rest := by
    cases rest with
    | nil => rfl
    | cons c rest => exact List.dropWhile_cons_of_neg (by simp [hrest c rest rfl])
  rw [digitRun?, List.span_eq_takeWhile_dropWhile, List.takeWhile_append_of_pos hdigits.2, htake,
    List.dropWhile_append_of_pos hdigits.2, hdrop, List.append_nil]
  cases digits with
  | nil => exact absurd rfl hdigits.1
  | cons d digits => rfl

/-- **A run of digits is as long as possible**, and not empty. -/
theorem digitRun?_eq_some_iff {cs digits rest : List Char} :
    digitRun? cs = some (digits, rest) ↔
      cs = digits ++ rest ∧ IsDigits digits ∧ NoDigitAhead rest := by
  constructor
  · intro h
    have hparts : digits = cs.takeWhile isDecimalDigit ∧ rest = cs.dropWhile isDecimalDigit ∧
        digits ≠ [] := by
      rw [digitRun?, List.span_eq_takeWhile_dropWhile] at h
      cases htake : cs.takeWhile isDecimalDigit with
      | nil =>
        rw [htake] at h
        cases h
      | cons d ds =>
        rw [htake] at h
        obtain ⟨rfl, rfl⟩ := Prod.mk.inj (Option.some.inj h)
        exact ⟨rfl, rfl, List.cons_ne_nil d ds⟩
    obtain ⟨rfl, rfl, hne⟩ := hparts
    refine ⟨List.takeWhile_append_dropWhile.symm, ⟨hne, fun c hc => List.mem_takeWhile_imp hc⟩, ?_⟩
    intro c rest hrest
    have hmore : cs.dropWhile isDecimalDigit ≠ [] := by
      rw [hrest]
      exact List.cons_ne_nil c rest
    simpa [hrest] using List.head_dropWhile_not isDecimalDigit hmore
  · rintro ⟨rfl, hdigits, hrest⟩
    exact digitRun?_of_digits hdigits hrest

end DialectBridge.Text
