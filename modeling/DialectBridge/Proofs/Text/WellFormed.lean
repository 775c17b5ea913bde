import DialectBridge.Proofs.Text.Utf8

/-!
# Byte strings that are texts

The reader finds an ill-formed item wherever the bytes leave the spelling of a character.  Bytes that
are read without one are therefore spelled as some text, and no other bytes are.

* `Clean.next` — a character that has been started is continued by a byte in its bounds;
* `Clean.exists_char` — the next bytes spell a character;
* `decode?_eq_some_iff` — bytes are read as a text if and only if they are its bytes.
-/

namespace DialectBridge.Text.Utf8

/-- From a state of the reader on, the bytes are read without an ill-formed item. -/
def Clean (r : Reader) (bs : List UInt8) : Prop :=
  none ∉ (bs.foldl Reader.step r).finish

variable {r : Reader} {items : List (Option Char)} {bs : List UInt8} {s : Started}

/-! ## Ill-formed items stay -/

theorem items_suffix_lead (items : List (Option Char)) (b : UInt8) :
    items <:+ (Reader.lead items b).items := by
  unfold Reader.lead
  repeat' split
  all_goals simp

theorem items_suffix_step (r : Reader) (b : UInt8) : r.items <:+ (r.step b).items := by
  unfold Reader.step
  split
  · exact items_suffix_lead r.items b
  · split
    · dsimp only
      split
      · exact List.suffix_cons _ _
      · exact List.suffix_refl _
    · exact (List.suffix_cons none r.items).trans (items_suffix_lead _ b)

theorem Clean.not_mem_items (h : Clean r bs) : none ∉ r.items := by
  induction bs generalizing r with
  | nil =>
    intro hmem
    refine h (List.mem_reverse.mpr ?_)
    split
    · exact hmem
    · exact List.mem_cons_self
  | cons b bs ih =>
    intro hmem
    have hstep : Clean (r.step b) bs := h
    exact ih hstep ((items_suffix_step r b).subset hmem)

/-! ## Characters that have been started -/

/-- The byte after those of a started character lies in its bounds. -/
theorem Clean.next (h : Clean ⟨items, some s⟩ bs) :
    ∃ b rest, bs = b :: rest ∧ s.lower ≤ b ∧ b ≤ s.upper := by
  cases bs with
  | nil => exact absurd List.mem_cons_self fun hmem => h (List.mem_reverse.mpr hmem)
  | cons b rest =>
    by_cases hbounds : s.lower ≤ b ∧ b ≤ s.upper
    · exact ⟨b, rest, rfl, hbounds⟩
    · have hlead : Clean (Reader.lead (none :: items) b) rest := by
        have hstep : Clean (Reader.step ⟨items, some s⟩ b) rest := h
        simpa only [Reader.step, if_neg hbounds] using hstep
      exact absurd ((items_suffix_lead _ b).subset List.mem_cons_self) hlead.not_mem_items

/-- The same, with the six bits of the byte. -/
theorem Clean.next_bits {missing bits : Nat} {lower upper : UInt8}
    (h : Clean ⟨items, some ⟨missing, lower, upper, bits⟩⟩ bs) (hlower : 128 ≤ lower.toNat)
    (hupper : upper.toNat ≤ 191) :
    ∃ d rest, d < 64 ∧ lower.toNat ≤ d + 128 ∧ d + 128 ≤ upper.toNat ∧
      bs = UInt8.ofNat (d + 128) :: rest := by
  obtain ⟨b, rest, rfl, hlow, hhigh⟩ := h.next
  rw [UInt8.le_iff_toNat_le] at hlow hhigh
  have hb : b.toNat - 128 + 128 = b.toNat := Nat.sub_add_cancel (Nat.le_trans hlower hlow)
  refine ⟨b.toNat - 128, rest, ?_, ?_, ?_, ?_⟩
  · simp only at hhigh
    omega
  · rwa [hb]
  · rwa [hb]
  · rw [hb, UInt8.ofNat_toNat]

theorem Clean.last {bits : Nat} (h : Clean ⟨items, some ⟨1, 0x80, 0xBF, bits⟩⟩ bs) :
    ∃ d rest, d < 64 ∧ bs = UInt8.ofNat (d + 128) :: rest := by
  obtain ⟨d, rest, hd, -, -, rfl⟩ := h.next_bits (by decide) (by decide)
  exact ⟨d, rest, hd, rfl⟩

theorem Clean.more {missing bits : Nat} {lower upper : UInt8}
    (h : Clean ⟨items, some ⟨missing + 2, lower, upper, bits⟩⟩ bs) (hlower : 128 ≤ lower.toNat)
    (hupper : upper.toNat ≤ 191) :
    ∃ d rest, d < 64 ∧ lower.toNat ≤ d + 128 ∧ d + 128 ≤ upper.toNat ∧
      bs = UInt8.ofNat (d + 128) :: rest ∧
      Clean ⟨items, some ⟨missing + 1, 0x80, 0xBF, 64 * bits + d⟩⟩ rest := by
  obtain ⟨d, rest, hd, hlow, hhigh, rfl⟩ := h.next_bits hlower hupper
  have hstep : Clean (Reader.step ⟨items, some ⟨missing + 2, lower, upper, bits⟩⟩
      (UInt8.ofNat (d + 128))) rest := h
  rw [step_more hd hlow hhigh] at hstep
  exact ⟨d, rest, hd, hlow, hhigh, rfl, hstep⟩

/-! ## Spellings -/

theorem toNat_ofNat_of_valid {v : Nat} (h : v < 0xD800 ∨ 0xDFFF < v ∧ v < 0x110000) :
    (Char.ofNat v).val.toNat = v := by
  rw [Char.ofNat, dif_pos h]
  rfl

theorem utf8EncodeChar_two {v : Nat} (hlow : 0x7F < v) (hhigh : v ≤ 0x7FF) :
    String.utf8EncodeChar (Char.ofNat v) =
      [UInt8.ofNat (v / 64 % 32 + 192), UInt8.ofNat (v % 64 + 128)] := by
  rw [String.utf8EncodeChar, toNat_ofNat_of_valid (.inl (by omega)), if_neg (by omega), if_pos hhigh]

theorem utf8EncodeChar_three {v : Nat} (hlow : 0x7FF < v) (hhigh : v ≤ 0xFFFF)
    (hvalid : v < 0xD800 ∨ 0xDFFF < v) :
    String.utf8EncodeChar (Char.ofNat v) =
      [UInt8.ofNat (v / 4096 % 16 + 224), UInt8.ofNat (v / 64 % 64 + 128),
        UInt8.ofNat (v % 64 + 128)] := by
  rw [String.utf8EncodeChar, toNat_ofNat_of_valid (by omega), if_neg (by omega), if_neg (by omega),
    if_pos hhigh]

theorem utf8EncodeChar_four {v : Nat} (hlow : 0xFFFF < v) (hhigh : v < 0x110000) :
    String.utf8EncodeChar (Char.ofNat v) =
      [UInt8.ofNat (v / 262144 % 8 + 240), UInt8.ofNat (v / 4096 % 64 + 128),
        UInt8.ofNat (v / 64 % 64 + 128), UInt8.ofNat (v % 64 + 128)] := by
  rw [String.utf8EncodeChar, toNat_ofNat_of_valid (by omega), if_neg (by omega), if_neg (by omega),
    if_neg (by omega)]

/-- A leading byte of two. -/
theorem Clean.exists_two {k : Nat} (hlow : 0xC2 ≤ k) (hhigh : k < 0xE0)
    (h : Clean ⟨items, some ⟨1, 0x80, 0xBF, k % 32⟩⟩ bs) :
    ∃ c rest, UInt8.ofNat k :: bs = String.utf8EncodeChar c ++ rest := by
  obtain ⟨d, rest, hd, rfl⟩ := h.last
  refine ⟨Char.ofNat (64 * (k % 32) + d), rest, ?_⟩
  rw [utf8EncodeChar_two (by omega) (by omega)]
  have hlead : (64 * (k % 32) + d) / 64 % 32 + 192 = k := by omega
  have hlast : (64 * (k % 32) + d) % 64 = d := by omega
  rw [hlead, hlast]
  rfl

/-- A leading byte of three, with the bounds of the byte behind it: they leave out what has a shorter
spelling, and the surrogates. -/
theorem Clean.exists_three {lower upper : UInt8} {bits : Nat} (hbits : bits < 16)
    (hlower : 128 ≤ lower.toNat) (hupper : upper.toNat ≤ 191)
    (hshort : bits = 0 → 160 ≤ lower.toNat) (hsurrogates : bits = 13 → upper.toNat ≤ 159)
    (h : Clean ⟨items, some ⟨2, lower, upper, bits⟩⟩ bs) :
    ∃ c rest, UInt8.ofNat (bits + 224) :: bs = String.utf8EncodeChar c ++ rest := by
  obtain ⟨d, rest, hd, hlow, hhigh, rfl, hmore⟩ := h.more hlower hupper
  obtain ⟨e, rest, he, rfl⟩ := hmore.last
  obtain ⟨v, hv⟩ : ∃ v, v = 64 * (64 * bits + d) + e := ⟨_, rfl⟩
  have hlead : v / 4096 % 16 = bits := by omega
  have hsecond : v / 64 % 64 = d := by omega
  have hlast : v % 64 = e := by omega
  refine ⟨Char.ofNat v, rest, ?_⟩
  rw [utf8EncodeChar_three (by omega) (by omega) (by omega), hlead, hsecond, hlast]
  rfl

/-- A leading byte of four, with the bounds of the byte behind it: they leave out what has a shorter
spelling, and what is no character. -/
theorem Clean.exists_four {lower upper : UInt8} {bits : Nat} (hbits : bits ≤ 4)
    (hlower : 128 ≤ lower.toNat) (hupper : upper.toNat ≤ 191)
    (hshort : bits = 0 → 144 ≤ lower.toNat) (hlarge : bits = 4 → upper.toNat ≤ 143)
    (h : Clean ⟨items, some ⟨3, lower, upper, bits⟩⟩ bs) :
    ∃ c rest, UInt8.ofNat (bits + 240) :: bs = String.utf8EncodeChar c ++ rest := by
  obtain ⟨d, rest, hd, hlow, hhigh, rfl, hmore⟩ := h.more hlower hupper
  have hthird : Clean ⟨items, some ⟨0 + 2, 0x80, 0xBF, 64 * bits + d⟩⟩ rest := hmore
  obtain ⟨e, rest, he, -, -, rfl, hfourth⟩ := hthird.more (by decide) (by decide)
  obtain ⟨f, rest, hf, rfl⟩ := hfourth.last
  obtain ⟨v, hv⟩ : ∃ v, v = 64 * (64 * (64 * bits + d) + e) + f := ⟨_, rfl⟩
  have hlead : v / 262144 % 8 = bits := by omega
  have hsecond : v / 4096 % 64 = d := by omega
  have hthird : v / 64 % 64 = e := by omega
  have hlast : v % 64 = f := by omega
  refine ⟨Char.ofNat v, rest, ?_⟩
  rw [utf8EncodeChar_four (by omega) (by omega), hlead, hsecond, hthird, hlast]
  rfl

/-- **The next bytes spell a character.** -/
theorem Clean.exists_char {b : UInt8} (h : Clean ⟨items, none⟩ (b :: bs)) :
    ∃ c rest, b :: bs = String.utf8EncodeChar c ++ rest := by
  obtain ⟨k, hk, rfl⟩ : ∃ k, k < 256 ∧ b = UInt8.ofNat k :=
    ⟨b.toNat, b.toNat_lt, UInt8.ofNat_toNat.symm⟩
  have hlead : Clean (Reader.lead items (UInt8.ofNat k)) bs := h
  rw [lead_ofNat items hk] at hlead
  by_cases hone : k < 0x80
  · refine ⟨Char.ofNat k, bs, ?_⟩
    have hnat : (Char.ofNat k).toNat = k := toNat_ofNat_of_valid (.inl (by omega))
    rw [utf8EncodeChar_ascii (by omega), hnat]
    rfl
  rw [if_neg hone] at hlead
  by_cases hill : k < 0xC2
  · rw [if_pos hill] at hlead
    exact absurd List.mem_cons_self hlead.not_mem_items
  rw [if_neg hill] at hlead
  by_cases htwo : k < 0xE0
  · rw [if_pos htwo] at hlead
    exact hlead.exists_two (by omega) htwo
  rw [if_neg htwo] at hlead
  by_cases hfirst : k = 0xE0
  · rw [if_pos hfirst] at hlead
    rw [hfirst]
    exact hlead.exists_three (by decide) (by decide) (by decide) (by decide) (by decide)
  rw [if_neg hfirst] at hlead
  by_cases hsurrogates : k = 0xED
  · rw [if_pos hsurrogates] at hlead
    rw [hsurrogates]
    exact hlead.exists_three (by decide) (by decide) (by decide) (by decide) (by decide)
  rw [if_neg hsurrogates] at hlead
  by_cases hthree : k < 0xF0
  · rw [if_pos hthree] at hlead
    have hbits : k % 16 + 224 = k := by omega
    rw [← hbits]
    exact hlead.exists_three (by omega) (by decide) (by decide) (by omega) (by omega)
  rw [if_neg hthree] at hlead
  by_cases hfourth : k = 0xF0
  · rw [if_pos hfourth] at hlead
    rw [hfourth]
    exact hlead.exists_four (by decide) (by decide) (by decide) (by decide) (by decide)
  rw [if_neg hfourth] at hlead
  by_cases hfour : k < 0xF4
  · rw [if_pos hfour] at hlead
    have hbits : k % 8 + 240 = k := by omega
    rw [← hbits]
    exact hlead.exists_four (by omega) (by decide) (by decide) (by omega) (by omega)
  rw [if_neg hfour] at hlead
  by_cases hlast : k = 0xF4
  · rw [if_pos hlast] at hlead
    rw [hlast]
    exact hlead.exists_four (by decide) (by decide) (by decide) (by decide) (by decide)
  rw [if_neg hlast] at hlead
  exact absurd List.mem_cons_self hlead.not_mem_items

/-! ## Texts -/

theorem Clean.exists_encode (h : Clean ⟨items, none⟩ bs) : ∃ cs, bs = encode cs := by
  induction hsize : bs.length using Nat.strong_induction_on generalizing bs items
  rename_i size ih
  cases bs with
  | nil => exact ⟨[], rfl⟩
  | cons b bs =>
    obtain ⟨c, rest, hc⟩ := h.exists_char
    have hrest : Clean ⟨some c :: items, none⟩ rest := by
      rw [hc, Clean, List.foldl_append, foldl_step_char] at h
      exact h
    have hshorter : rest.length < size := by
      have hlength := congrArg List.length hc
      have hpos := c.utf8Size_pos
      rw [List.length_append, String.length_utf8EncodeChar] at hlength
      omega
    obtain ⟨cs, rfl⟩ := ih rest.length hshorter hrest rfl
    exact ⟨c :: cs, by rw [hc]; exact List.flatMap_cons.symm⟩

theorem not_mem_of_mapM {cs : List Char} (h : items.mapM id = some cs) : none ∉ items := by
  induction items generalizing cs with
  | nil => simp
  | cons item items ih =>
    cases item with
    | none => simp [List.mapM_cons] at h
    | some c =>
      rw [List.mapM_cons] at h
      cases hrest : items.mapM id with
      | none => simp [hrest] at h
      | some ds => simpa using ih hrest

theorem clean_of_decode? {cs : List Char} (h : decode? bs = some cs) : Clean ⟨[], none⟩ bs :=
  not_mem_of_mapM h

/-- **Bytes are read as a text if and only if they are its bytes.** -/
theorem decode?_eq_some_iff {cs : List Char} : decode? bs = some cs ↔ bs = encode cs := by
  constructor
  · intro h
    obtain ⟨ds, rfl⟩ := (clean_of_decode? h).exists_encode
    rw [decode?_encode, Option.some.injEq] at h
    rw [h]
  · rintro rfl
    exact decode?_encode cs

end DialectBridge.Text.Utf8
