import DialectBridge.Proofs.Text.Ascii

/-!
# Reading back what was written in UTF-8

A character is written as a leading byte and continuation bytes, six bits in each.  The reader takes
the leading byte for the number of bytes to come, and narrows the range of the first of them so that
no character has two spellings.

* `lead_ofNat` — what a leading byte begins, by its value;
* `step_more`, `step_last` — a continuation byte adds six bits;
* `foldl_step_char` — the bytes of a character are read as that character;
* `decode?_encode`, `encode_injective` — every text is read back from its bytes, so no two texts have
  the same ones.
-/

namespace DialectBridge.Text.Utf8

variable {items : List (Option Char)} {k d : Nat} {s : Started}

theorem lead_ofNat (items : List (Option Char)) (hk : k < 256) :
    Reader.lead items (UInt8.ofNat k) =
      if k < 0x80 then ⟨some (Char.ofNat k) :: items, none⟩
      else if k < 0xC2 then ⟨none :: items, none⟩
      else if k < 0xE0 then ⟨items, some ⟨1, 0x80, 0xBF, k % 32⟩⟩
      else if k = 0xE0 then ⟨items, some ⟨2, 0xA0, 0xBF, 0⟩⟩
      else if k = 0xED then ⟨items, some ⟨2, 0x80, 0x9F, 13⟩⟩
      else if k < 0xF0 then ⟨items, some ⟨2, 0x80, 0xBF, k % 16⟩⟩
      else if k = 0xF0 then ⟨items, some ⟨3, 0x90, 0xBF, 0⟩⟩
      else if k < 0xF4 then ⟨items, some ⟨3, 0x80, 0xBF, k % 8⟩⟩
      else if k = 0xF4 then ⟨items, some ⟨3, 0x80, 0x8F, 4⟩⟩
      else ⟨none :: items, none⟩ := by
  have htoNat : (UInt8.ofNat k).toNat = k := by rw [UInt8.toNat_ofNat', Nat.mod_eq_of_lt hk]
  simp only [Reader.lead, UInt8.lt_iff_toNat_lt, ← UInt8.toNat_inj, htoNat]
  rfl

theorem step_continue (hd : d < 64) (hlower : s.lower.toNat ≤ d + 128)
    (hupper : d + 128 ≤ s.upper.toNat) :
    Reader.step ⟨items, some s⟩ (UInt8.ofNat (d + 128)) =
      if s.missing ≤ 1 then ⟨some (Char.ofNat (64 * s.bits + d)) :: items, none⟩
      else ⟨items, some ⟨s.missing - 1, 0x80, 0xBF, 64 * s.bits + d⟩⟩ := by
  have htoNat : (UInt8.ofNat (d + 128)).toNat = d + 128 := by
    rw [UInt8.toNat_ofNat', Nat.mod_eq_of_lt (by omega)]
  have hbits : (d + 128) % 64 = d := by omega
  simp only [Reader.step, UInt8.le_iff_toNat_le, htoNat, hbits, if_pos (And.intro hlower hupper)]

/-- A continuation byte in the middle of a character. -/
theorem step_more {missing bits : Nat} {lower upper : UInt8} (hd : d < 64)
    (hlower : lower.toNat ≤ d + 128) (hupper : d + 128 ≤ upper.toNat) :
    Reader.step ⟨items, some ⟨missing + 2, lower, upper, bits⟩⟩ (UInt8.ofNat (d + 128)) =
      ⟨items, some ⟨missing + 1, 0x80, 0xBF, 64 * bits + d⟩⟩ := by
  rw [step_continue hd hlower hupper, if_neg (by simp)]
  rfl

/-- The last byte of a character. -/
theorem step_last {bits : Nat} (hd : d < 64) :
    Reader.step ⟨items, some ⟨1, 0x80, 0xBF, bits⟩⟩ (UInt8.ofNat (d + 128)) =
      ⟨some (Char.ofNat (64 * bits + d)) :: items, none⟩ :=
  step_continue hd (Nat.le_add_left _ _) (by show d + 128 ≤ 191; omega)

theorem foldl_step_two {v : Nat} (hlow : 0x7F < v) (hhigh : v ≤ 0x7FF) :
    [UInt8.ofNat (v / 64 % 32 + 192), UInt8.ofNat (v % 64 + 128)].foldl Reader.step ⟨items, none⟩ =
      ⟨some (Char.ofNat v) :: items, none⟩ := by
  have hlead : Reader.lead items (UInt8.ofNat (v / 64 % 32 + 192)) =
      ⟨items, some ⟨1, 0x80, 0xBF, v / 64⟩⟩ := by
    have hbits : (v / 64 % 32 + 192) % 32 = v / 64 := by omega
    rw [lead_ofNat _ (by omega), if_neg (by omega), if_neg (by omega), if_pos (by omega), hbits]
  have hv : 64 * (v / 64) + v % 64 = v := Nat.div_add_mod v 64
  simp only [List.foldl_cons, List.foldl_nil]
  rw [show Reader.step ⟨items, none⟩ _ = _ from hlead, step_last (Nat.mod_lt _ (by decide)), hv]

theorem foldl_step_three {v : Nat} (hlow : 0x7FF < v) (hhigh : v ≤ 0xFFFF)
    (hvalid : v < 0xD800 ∨ 0xDFFF < v) :
    [UInt8.ofNat (v / 4096 % 16 + 224), UInt8.ofNat (v / 64 % 64 + 128),
      UInt8.ofNat (v % 64 + 128)].foldl Reader.step ⟨items, none⟩ =
      ⟨some (Char.ofNat v) :: items, none⟩ := by
  -- the second byte is narrowed after the first leading byte and before the surrogates
  obtain ⟨lower, upper, hlead, hlower, hupper⟩ : ∃ lower upper : UInt8,
      Reader.lead items (UInt8.ofNat (v / 4096 % 16 + 224)) =
        ⟨items, some ⟨2, lower, upper, v / 4096⟩⟩ ∧
      lower.toNat ≤ v / 64 % 64 + 128 ∧ v / 64 % 64 + 128 ≤ upper.toNat := by
    rw [lead_ofNat _ (by omega), if_neg (by omega), if_neg (by omega), if_neg (by omega)]
    by_cases hfirst : v / 4096 = 0
    · rw [if_pos (by omega), hfirst]
      exact ⟨0xA0, 0xBF, rfl, by show 160 ≤ _; omega, by show _ ≤ 191; omega⟩
    · by_cases hsurrogates : v / 4096 = 13
      · rw [if_neg (by omega), if_pos (by omega), hsurrogates]
        exact ⟨0x80, 0x9F, rfl, by show 128 ≤ _; omega, by show _ ≤ 159; omega⟩
      · have hbits : (v / 4096 % 16 + 224) % 16 = v / 4096 := by omega
        rw [if_neg (by omega), if_neg (by omega), if_pos (by omega), hbits]
        exact ⟨0x80, 0xBF, rfl, by show 128 ≤ _; omega, by show _ ≤ 191; omega⟩
  have hv : 64 * (64 * (v / 4096) + v / 64 % 64) + v % 64 = v := by omega
  simp only [List.foldl_cons, List.foldl_nil]
  rw [show Reader.step ⟨items, none⟩ _ = _ from hlead,
    step_more (Nat.mod_lt _ (by decide)) hlower hupper, step_last (Nat.mod_lt _ (by decide)), hv]

theorem foldl_step_four {v : Nat} (hlow : 0xFFFF < v) (hhigh : v < 0x110000) :
    [UInt8.ofNat (v / 262144 % 8 + 240), UInt8.ofNat (v / 4096 % 64 + 128),
      UInt8.ofNat (v / 64 % 64 + 128), UInt8.ofNat (v % 64 + 128)].foldl Reader.step ⟨items, none⟩ =
      ⟨some (Char.ofNat v) :: items, none⟩ := by
  obtain ⟨lower, upper, hlead, hlower, hupper⟩ : ∃ lower upper : UInt8,
      Reader.lead items (UInt8.ofNat (v / 262144 % 8 + 240)) =
        ⟨items, some ⟨3, lower, upper, v / 262144⟩⟩ ∧
      lower.toNat ≤ v / 4096 % 64 + 128 ∧ v / 4096 % 64 + 128 ≤ upper.toNat := by
    rw [lead_ofNat _ (by omega), if_neg (by omega), if_neg (by omega), if_neg (by omega),
      if_neg (by omega), if_neg (by omega), if_neg (by omega)]
    by_cases hfirst : v / 262144 = 0
    · rw [if_pos (by omega), hfirst]
      exact ⟨0x90, 0xBF, rfl, by show 144 ≤ _; omega, by show _ ≤ 191; omega⟩
    · by_cases hlast : v / 262144 = 4
      · rw [if_neg (by omega), if_neg (by omega), if_pos (by omega), hlast]
        exact ⟨0x80, 0x8F, rfl, by show 128 ≤ _; omega, by show _ ≤ 143; omega⟩
      · have hbits : (v / 262144 % 8 + 240) % 8 = v / 262144 := by omega
        rw [if_neg (by omega), if_pos (by omega), hbits]
        exact ⟨0x80, 0xBF, rfl, by show 128 ≤ _; omega, by show _ ≤ 191; omega⟩
  have hv : 64 * (64 * (64 * (v / 262144) + v / 4096 % 64) + v / 64 % 64) + v % 64 = v := by omega
  simp only [List.foldl_cons, List.foldl_nil]
  rw [show Reader.step ⟨items, none⟩ _ = _ from hlead,
    step_more (Nat.mod_lt _ (by decide)) hlower hupper,
    step_more (Nat.mod_lt _ (by decide)) (Nat.le_add_left _ _) (by show _ ≤ 191; omega),
    step_last (Nat.mod_lt _ (by decide)), hv]

/-- **The bytes of a character are read as that character.** -/
theorem foldl_step_char (c : Char) (items : List (Option Char)) :
    (String.utf8EncodeChar c).foldl Reader.step ⟨items, none⟩ = ⟨some c :: items, none⟩ := by
  have hvalid : c.toNat < 0xD800 ∨ 0xDFFF < c.toNat ∧ c.toNat < 0x110000 := c.valid
  by_cases hone : c.toNat < 0x80
  · rw [utf8EncodeChar_ascii hone, List.foldl_cons, List.foldl_nil, step_ascii hone]
  · have hread : (String.utf8EncodeChar c).foldl Reader.step ⟨items, none⟩ =
        ⟨some (Char.ofNat c.toNat) :: items, none⟩ := by
      rw [String.utf8EncodeChar]
      split
      · rename_i hle
        exact absurd (Nat.lt_succ_of_le hle) hone
      · split
        · rename_i htwo
          exact foldl_step_two (v := c.toNat) (by omega) htwo
        · rename_i hlow
          split
          · rename_i hthree
            exact foldl_step_three (v := c.toNat) (Nat.lt_of_not_le hlow) hthree (by omega)
          · rename_i hlow
            exact foldl_step_four (v := c.toNat) (Nat.lt_of_not_le hlow) (by omega)
    rw [hread, Char.ofNat_toNat]

theorem foldl_step_encode (cs : List Char) (items : List (Option Char)) :
    (encode cs).foldl Reader.step ⟨items, none⟩ = ⟨(cs.map some).reverse ++ items, none⟩ := by
  induction cs generalizing items with
  | nil => rfl
  | cons c cs ih =>
    have hcons : encode (c :: cs) = String.utf8EncodeChar c ++ encode cs := List.flatMap_cons
    rw [hcons, List.foldl_append, foldl_step_char, ih]
    simp

/-- **Every text is read back from its bytes.** -/
theorem decode?_encode (cs : List Char) : decode? (encode cs) = some cs := by
  have hread : cs.mapM some = some cs := by
    simpa using List.mapM_pure (m := Option) (l := cs) (f := id)
  rw [decode?, items, foldl_step_encode, Reader.finish]
  simpa using hread

/-- No two texts have the same bytes. -/
theorem encode_injective : Function.Injective encode := by
  intro cs ds h
  have hread : some cs = some ds := by rw [← decode?_encode cs, h, decode?_encode ds]
  exact Option.some.inj hread

end DialectBridge.Text.Utf8
