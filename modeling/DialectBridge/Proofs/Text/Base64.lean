import DialectBridge.Text.Base64
import DialectBridge.Text.Blank
import Mathlib.Data.Fintype.Basic

/-!
# Reading base 64 back

Three bytes are written as four digits; one or two bytes left over are padded to four characters.

* `digit?_digit`, `isBlank_digit` — a digit is read as its value, and is no blank;
* `decode?_encode` — every byte string is read back from its written form;
* `isBlank_of_mem_encode` — there is no blank in it.
-/

namespace DialectBridge.Text.Base64

/-! ## Digits -/

theorem digit?_digit {d : Nat} (h : d < 64) : digit? (digit d) = some d := by
  have hall : ∀ d : Fin 64, digit? (digit d) = some d.val := by decide
  exact hall ⟨d, h⟩

theorem isBlank_digit {d : Nat} (h : d < 64) : isBlank (digit d) = false := by
  have hall : ∀ d : Fin 64, isBlank (digit d) = false := by decide
  exact hall ⟨d, h⟩

/-- The padding sign is no digit. -/
theorem digit_ne_padding {d : Nat} (h : d < 64) : digit d ≠ '=' := by
  intro heq
  have hread := digit?_digit h
  rw [heq] at hread
  cases hread

/-! ## Groups -/

theorem oneByte?_digits (a : UInt8) :
    oneByte? (digit (a.toNat / 4)) (digit (a.toNat % 4 * 16)) = some [a] := by
  have ha : a.toNat < 256 := a.toNat_lt
  have hbyte : a.toNat / 4 * 4 + a.toNat % 4 * 16 / 16 = a.toNat := by omega
  rw [oneByte?, digit?_digit (by omega), digit?_digit (by omega)]
  simp only [Nat.mul_mod_left, if_true, hbyte, UInt8.ofNat_toNat]

theorem twoBytes?_digits (a b : UInt8) :
    twoBytes? (digit (a.toNat / 4)) (digit (a.toNat % 4 * 16 + b.toNat / 16))
      (digit (b.toNat % 16 * 4)) = some [a, b] := by
  have ha : a.toNat < 256 := a.toNat_lt
  have hb : b.toNat < 256 := b.toNat_lt
  have hfirst : a.toNat / 4 * 4 + (a.toNat % 4 * 16 + b.toNat / 16) / 16 = a.toNat := by omega
  have hsecond : (a.toNat % 4 * 16 + b.toNat / 16) % 16 * 16 + b.toNat % 16 * 4 / 4 = b.toNat := by
    omega
  rw [twoBytes?, digit?_digit (by omega), digit?_digit (by omega), digit?_digit (by omega)]
  simp only [Nat.mul_mod_left, if_true, hfirst, hsecond, UInt8.ofNat_toNat]

theorem threeBytes?_digits (a b c : UInt8) :
    threeBytes? (digit (a.toNat / 4)) (digit (a.toNat % 4 * 16 + b.toNat / 16))
      (digit (b.toNat % 16 * 4 + c.toNat / 64)) (digit (c.toNat % 64)) = some [a, b, c] := by
  have ha : a.toNat < 256 := a.toNat_lt
  have hb : b.toNat < 256 := b.toNat_lt
  have hc : c.toNat < 256 := c.toNat_lt
  have hfirst : a.toNat / 4 * 4 + (a.toNat % 4 * 16 + b.toNat / 16) / 16 = a.toNat := by omega
  have hsecond : (a.toNat % 4 * 16 + b.toNat / 16) % 16 * 16 +
      (b.toNat % 16 * 4 + c.toNat / 64) / 4 = b.toNat := by omega
  have hthird : (b.toNat % 16 * 4 + c.toNat / 64) % 4 * 64 + c.toNat % 64 = c.toNat := by omega
  rw [threeBytes?, digit?_digit (by omega), digit?_digit (by omega), digit?_digit (by omega),
    digit?_digit (by omega)]
  simp only [hfirst, hsecond, hthird, UInt8.ofNat_toNat]

/-! ## Byte strings -/

/-- Four characters are a full group unless the last one is padding. -/
theorem decode?_group {a b c d : Char} {rest : List Char} {group bytes : List UInt8} (hd : d ≠ '=')
    (hgroup : threeBytes? a b c d = some group) (hrest : decode? rest = some bytes) :
    decode? (a :: b :: c :: d :: rest) = some (group ++ bytes) := by
  rw [decode?, hgroup, hrest]
  · intro _ hpadding
    exact absurd hpadding hd
  · intro hpadding
    exact absurd hpadding hd

/-- **Every byte string is read back from its written form.** -/
theorem decode?_encode (bytes : List UInt8) : decode? (encode bytes) = some bytes := by
  induction bytes using encode.induct with
  | case1 => rfl
  | case2 a => exact oneByte?_digits a
  | case3 a b =>
    rw [encode, decode?]
    · exact twoBytes?_digits a b
    · exact digit_ne_padding (by omega)
  | case4 a b c rest ih =>
    rw [encode]
    exact decode?_group (digit_ne_padding (by omega)) (threeBytes?_digits a b c) ih

/-- A written form is digits and padding. -/
theorem of_mem_encode {bytes : List UInt8} {c : Char} (h : c ∈ encode bytes) :
    c = '=' ∨ ∃ d < 64, c = digit d := by
  induction bytes using encode.induct with
  | case1 => cases h
  | case2 a =>
    have ha : a.toNat < 256 := a.toNat_lt
    simp only [encode, List.mem_cons, List.not_mem_nil, or_false] at h
    rcases h with h | h | h | h
    · exact .inr ⟨_, by omega, h⟩
    · exact .inr ⟨_, by omega, h⟩
    · exact .inl h
    · exact .inl h
  | case3 a b =>
    have ha : a.toNat < 256 := a.toNat_lt
    have hb : b.toNat < 256 := b.toNat_lt
    simp only [encode, List.mem_cons, List.not_mem_nil, or_false] at h
    rcases h with h | h | h | h
    · exact .inr ⟨_, by omega, h⟩
    · exact .inr ⟨_, by omega, h⟩
    · exact .inr ⟨_, by omega, h⟩
    · exact .inl h
  | case4 a b c rest ih =>
    have ha : a.toNat < 256 := a.toNat_lt
    have hb : b.toNat < 256 := b.toNat_lt
    have hc : c.toNat < 256 := c.toNat_lt
    simp only [encode, List.mem_cons] at h
    rcases h with h | h | h | h | h
    · exact .inr ⟨_, by omega, h⟩
    · exact .inr ⟨_, by omega, h⟩
    · exact .inr ⟨_, by omega, h⟩
    · exact .inr ⟨_, by omega, h⟩
    · exact ih h

/-- There are no blanks in a written form. -/
theorem isBlank_of_mem_encode {bytes : List UInt8} {c : Char} (h : c ∈ encode bytes) :
    isBlank c = false := by
  rcases of_mem_encode h with rfl | ⟨d, hd, rfl⟩
  · decide
  · exact isBlank_digit hd

end DialectBridge.Text.Base64
