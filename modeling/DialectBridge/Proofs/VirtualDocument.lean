import DialectBridge.Proofs.Text.Utf8
import DialectBridge.VirtualDocument
import Mathlib.Data.List.TakeWhile

/-!
# The way back from a virtual document to its owner

The address of a virtual document holds the escaped address of its owner, between an authority and a
suffix.  Escapes use no character that ends a path, so the path holds all of it, and resolving them
gives the bytes of the owner's address back.

* `Percent.decodeBytes_flatMap` — escapes are resolved byte by byte;
* `Percent.decode?_encode` — every text is read back from its escaped form;
* `owner?_uri` — a virtual document tells its owner;
* `resolve?_publish` — its address leads to the text that was registered last.
-/

namespace DialectBridge

namespace Text.Percent

theorem toNat_ofNat {n : Nat} (hn : n < 128) : (Char.ofNat n).toNat = n := by
  rw [Char.ofNat, dif_pos (.inl (by omega))]
  rfl

theorem toNat_hexDigit {n : Nat} (hn : n < 16) :
    n < 10 ∧ (hexDigit n).toNat = 48 + n ∨ 10 ≤ n ∧ (hexDigit n).toNat = 55 + n := by
  unfold hexDigit
  split
  · exact .inl ⟨‹_›, toNat_ofNat (show 48 + n < 128 by omega)⟩
  · have hletter : (Char.ofNat (65 + (n - 10))).toNat = 65 + (n - 10) := toNat_ofNat (by omega)
    exact .inr ⟨by omega, hletter.trans (by omega)⟩

/-- A byte that needs no escape is ASCII, and neither a percent sign nor the end of a path. -/
theorem toNat_of_isPlain {b : UInt8} (h : isPlain b = true) :
    b.toNat < 128 ∧ b.toNat ≠ 37 ∧ b.toNat ≠ 63 ∧ b.toNat ≠ 35 := by
  simp only [isPlain, Bool.or_eq_true, Bool.and_eq_true, decide_eq_true_eq] at h
  change ((((((65 ≤ b.toNat ∧ b.toNat ≤ 90) ∨ 97 ≤ b.toNat ∧ b.toNat ≤ 122) ∨
    48 ≤ b.toNat ∧ b.toNat ≤ 57) ∨ b.toNat = 45) ∨ b.toNat = 95) ∨ b.toNat = 46) ∨
    b.toNat = 126 at h
  omega

/-- An escaped byte is written in ASCII, without the characters that end a path. -/
theorem encodeByte_chars (b : UInt8) :
    ∀ c ∈ encodeByte b, c.toNat < 128 ∧ c.toNat ≠ 63 ∧ c.toNat ≠ 35 := by
  intro c hc
  unfold encodeByte at hc
  split at hc
  · rename_i hplain
    obtain ⟨hlt, -, hends⟩ := toNat_of_isPlain hplain
    rw [List.mem_singleton.mp hc, toNat_ofNat hlt]
    exact ⟨hlt, hends⟩
  · have hlt := b.toNat_lt
    rw [List.mem_cons, List.mem_cons, List.mem_singleton] at hc
    obtain rfl | rfl | rfl := hc
    · decide
    · have hdigit := toNat_hexDigit (n := b.toNat / 16) (by omega)
      omega
    · have hdigit := toNat_hexDigit (n := b.toNat % 16) (by omega)
      omega

theorem encode_chars (cs : List Char) :
    ∀ c ∈ encode cs, c.toNat < 128 ∧ c.toNat ≠ 63 ∧ c.toNat ≠ 35 := by
  intro c hc
  obtain ⟨b, -, hb⟩ := List.mem_flatMap.mp hc
  exact encodeByte_chars b c hb

theorem hexValue?_hexDigit {n : Nat} (hn : n < 16) :
    hexValue? (UInt8.ofNat (hexDigit n).toNat) = some n := by
  have hvalue : ∀ b : UInt8, hexValue? b =
      if 48 ≤ b.toNat ∧ b.toNat ≤ 57 then some (b.toNat - 48)
      else if 97 ≤ b.toNat ∧ b.toNat ≤ 102 then some (b.toNat - 97 + 10)
      else if 65 ≤ b.toNat ∧ b.toNat ≤ 70 then some (b.toNat - 65 + 10)
      else none := fun _ => rfl
  have hbyte : (UInt8.ofNat (hexDigit n).toNat).toNat = (hexDigit n).toNat := by
    have hdigit := toNat_hexDigit hn
    rw [UInt8.toNat_ofNat', Nat.mod_eq_of_lt (by omega)]
  rw [hvalue, hbyte]
  obtain ⟨hlt, hdigit⟩ | ⟨hle, hdigit⟩ := toNat_hexDigit hn <;> rw [hdigit]
  · rw [if_pos (by omega), Nat.add_sub_cancel_left]
  · rw [if_neg (by omega), if_neg (by omega), if_pos (by omega)]
    congr 1
    omega

theorem decodeBytes_cons_of_ne {b : UInt8} (h : b ≠ percentSign) (rest : List UInt8) :
    decodeBytes (b :: rest) = b :: decodeBytes rest := by
  match rest with
  | [] => rfl
  | [_] => rfl
  | high :: low :: rest =>
    rw [decodeBytes]
    split
    · rw [if_neg h]
    · rfl

/-- One escaped byte is resolved, whatever follows. -/
theorem decodeBytes_encodeByte (b : UInt8) (rest : List UInt8) :
    decodeBytes ((encodeByte b).map (fun c => UInt8.ofNat c.toNat) ++ rest) =
      b :: decodeBytes rest := by
  unfold encodeByte
  split
  · rename_i hplain
    obtain ⟨hlt, hpercent, -⟩ := toNat_of_isPlain hplain
    have hne : b ≠ percentSign := fun h => hpercent (congrArg UInt8.toNat h)
    rw [List.map_singleton, toNat_ofNat hlt, UInt8.ofNat_toNat, List.singleton_append,
      decodeBytes_cons_of_ne hne]
  · have hlt := b.toNat_lt
    have hhigh := hexValue?_hexDigit (n := b.toNat / 16) (by omega)
    have hlow := hexValue?_hexDigit (n := b.toNat % 16) (by omega)
    have hvalue : 16 * (b.toNat / 16) + b.toNat % 16 = b.toNat := Nat.div_add_mod _ 16
    simp only [List.map_cons, List.map_nil, List.cons_append, List.nil_append, decodeBytes, hhigh,
      hlow]
    rw [if_pos (by decide), hvalue, UInt8.ofNat_toNat]

theorem decodeBytes_flatMap (bs : List UInt8) :
    decodeBytes ((bs.flatMap encodeByte).map fun c => UInt8.ofNat c.toNat) = bs := by
  induction bs with
  | nil => rfl
  | cons b bs ih => rw [List.flatMap_cons, List.map_append, decodeBytes_encodeByte, ih]

/-- **Every text is read back from its escaped form.** -/
theorem decode?_encode (cs : List Char) : decode? (encode cs) = some cs := by
  rw [decode?, Utf8.encode_ascii fun c hc => (encode_chars cs c hc).1, encode, decodeBytes_flatMap,
    Utf8.decode?_encode]

end Text.Percent

namespace VirtualDocument

/-- A path does not end within the address of the owner. -/
theorem all_encode (cs : List Char) :
    (Text.Percent.encode cs).all (fun c => c ≠ '?' && c ≠ '#') = true := by
  refine List.all_eq_true.mpr fun c hc => ?_
  obtain ⟨-, hquery, hfragment⟩ := Text.Percent.encode_chars cs c hc
  have hne : c ≠ '?' := fun h => hquery (congrArg Char.toNat h)
  have hne' : c ≠ '#' := fun h => hfragment (congrArg Char.toNat h)
  simp [hne, hne']

/-- The path of a virtual document holds the whole address of its owner. -/
theorem path_uri (owner : Uri) :
    (uri owner).path = '/' :: (Text.Percent.encode owner.text.toList ++ suffix) := by
  have hrest : (uri owner).rest.toList = '/' :: '/' ::
      ("compiled".toList ++ '/' :: (Text.Percent.encode owner.text.toList ++ suffix)) := by
    rw [uri, String.toList_append, String.toList_ofList]
    rfl
  have hall : ("compiled".toList ++ '/' :: (Text.Percent.encode owner.text.toList ++ suffix)).all
      (fun c => c ≠ '?' && c ≠ '#') = true := by
    rw [List.all_append, List.all_cons, List.all_append, all_encode]
    rfl
  have hbefore := List.takeWhile_eq_self_iff.mpr (List.all_eq_true.mp hall)
  rw [Uri.path, hrest]
  simp only [Uri.beforeQuery, hbefore]
  rfl

theorem dropEnding?_append (cs ending : List Char) :
    dropEnding? ending (cs ++ ending) = some cs := by
  have hsuffix : ending.isSuffixOf (cs ++ ending) = true :=
    List.isSuffixOf_iff_suffix.mpr (List.suffix_append cs ending)
  rw [dropEnding?, if_pos hsuffix, List.length_append, Nat.add_sub_cancel, List.take_left']
  rfl

/-- **A virtual document tells its owner.** -/
theorem owner?_uri (owner : Uri) : owner? (uri owner) = some owner.text := by
  have hscheme : (uri owner).scheme = scheme := rfl
  rw [owner?, if_pos hscheme, path_uri]
  simp only [dropEnding?_append, Option.bind_some, Text.Percent.decode?_encode, Option.map_some,
    String.ofList_toList]

/-- **The address of a virtual document leads to the text registered last.** -/
theorem resolve?_publish (r : Registry) (owner : Uri) (text : String) :
    (r.publish owner text).resolve? (uri owner) = some text := by
  rw [Registry.resolve?, owner?_uri, Option.bind_some, Registry.lookup?, Registry.publish,
    List.find?_cons_of_pos (by simp), Option.map_some]

end VirtualDocument

end DialectBridge
