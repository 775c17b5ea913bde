import DialectBridge.Proofs.Text.Ascii
import DialectBridge.Proofs.Text.Base64
import DialectBridge.SourceMap.Vlq
import Mathlib.Algebra.Group.Int.Defs
import Mathlib.Algebra.Group.Nat.Defs

/-!
# Writing variable-length quantities

`Vlq.encode` writes a number in its canonical form: the sign is folded into the lowest bit
(`folded`), the rest is cut into groups of five bits, least significant first, with the sixth bit
set on all digits but the last (`groups`).  Reading undoes writing for all magnitudes below 2^62:

* `run_groups` — the digits of a value add the value, shifted by what the open group has already;
* `decode_flatMap_encode` — a segment of such numbers is read as the numbers it was written from.
-/

namespace DialectBridge.SourceMap.Vlq

/-- A number with its sign in the lowest bit. -/
def folded (n : Int) : Nat :=
  if n < 0 then 2 * n.natAbs + 1 else 2 * n.natAbs

/-- The values of the digits of a folded number. -/
def groups (v : Nat) : List Nat :=
  if v < 32 then [v] else (32 + v % 32) :: groups (v / 32)

/-- The canonical digits of a number. -/
def encode (n : Int) : List Char :=
  (groups (folded n)).map Text.Base64.digit

/-- The byte of a digit. -/
def byte (d : Nat) : UInt8 :=
  UInt8.ofNat (Text.Base64.digit d).toNat

/-! ## Digits -/

/-- A digit is an ASCII character, and neither of the separators. -/
theorem base64_digit_plain {d : Nat} (h : d < 64) :
    (Text.Base64.digit d).toNat < 128 ∧ Text.Base64.digit d ≠ ',' ∧ Text.Base64.digit d ≠ ';' := by
  have hall : ∀ d : Fin 64, (Text.Base64.digit d).toNat < 128 ∧ Text.Base64.digit d ≠ ',' ∧
      Text.Base64.digit d ≠ ';' := by decide
  exact hall ⟨d, h⟩

theorem digit?_byte {d : Nat} (h : d < 64) : digit? (byte d) = some d := by
  rw [digit?, byte, Text.Utf8.ofNat_toNat_ofNat_toNat (base64_digit_plain h).1,
    Text.Base64.digit?_digit h]

theorem groups_lt (v : Nat) : ∀ d ∈ groups v, d < 64 := by
  induction v using groups.induct with
  | case1 v h =>
    rw [groups, if_pos h]
    intro d hd
    rw [List.mem_singleton.mp hd]
    omega
  | case2 v h ih =>
    rw [groups, if_neg h]
    intro d hd
    rcases List.mem_cons.mp hd with rfl | hd
    · omega
    · exact ih d hd

theorem groups_ne_nil (v : Nat) : groups v ≠ [] := by
  rw [groups]
  split <;> simp

theorem encode_plain {n : Int} {c : Char} (h : c ∈ encode n) :
    c.toNat < 128 ∧ c ≠ ',' ∧ c ≠ ';' := by
  obtain ⟨d, hd, rfl⟩ := List.mem_map.mp h
  exact base64_digit_plain (groups_lt _ d hd)

theorem encode_ne_nil (n : Int) : encode n ≠ [] := by
  rw [encode, Ne, List.map_eq_nil_iff]
  exact groups_ne_nil _

/-! ## Reading the digits of a number -/

theorem signed_folded (n : Int) : signed (folded n) = n := by
  unfold signed folded
  split <;> split <;> omega

theorem folded_lt {n : Int} (h : n.natAbs < 2 ^ 62) : folded n < 2 ^ 63 := by
  unfold folded
  split <;> omega

/-- A number that a signed word of 64 bits holds. -/
def InWord (n : Int) : Prop :=
  -2 ^ 63 ≤ n ∧ n < 2 ^ 63

instance : DecidablePred InWord := fun n =>
  inferInstanceAs (Decidable (-2 ^ 63 ≤ n ∧ n < 2 ^ 63))

theorem wrap_of_inWord {n : Int} (h : InWord n) : wrap n = n := by
  have hsize : UInt64.size = 2 ^ 64 := rfl
  obtain ⟨hlow, hhigh⟩ := h
  rw [wrap, hsize]
  apply Int.bmod_eq_of_le <;> omega

theorem wrap_of_lt {n : Nat} (h : n < 2 ^ 63) : wrap n = n :=
  wrap_of_inWord ⟨by omega, by omega⟩

/-- A digit whose bits all fit adds its five bits, shifted by the bits read before. -/
theorem step_byte {d k : Nat} (hd : d < 64) (hk : k ≤ 12) (hfit : d % 32 * 2 ^ (5 * k) < 2 ^ 63)
    (fields : List Int) (value : Int) (isOpen : Bool) :
    step ⟨fields, value, 5 * k, isOpen⟩ (byte d) =
      if 32 ≤ d then .ok ⟨fields, value + (d % 32 * 2 ^ (5 * k) : Nat), 5 * (k + 1), true⟩
      else .ok ⟨signed (value + (d % 32 * 2 ^ (5 * k) : Nat)) :: fields, 0, 0, false⟩ := by
  have hshift : ¬ maxShift < 5 * k := by unfold maxShift; omega
  have hwrap : wrap ((d % 32) <<< (5 * k) : Nat) = (d % 32 * 2 ^ (5 * k) : Nat) := by
    rw [Nat.shiftLeft_eq, wrap_of_lt hfit]
  simp only [step, digit?_byte hd, hshift, if_false, hwrap]
  rfl

/-- A digit takes the lowest five bits; the others move up by one place. -/
theorem low_add_high (v k : Nat) :
    v % 32 * 2 ^ (5 * k) + v / 32 * 2 ^ (5 * (k + 1)) = v * 2 ^ (5 * k) := by
  have hpow : 2 ^ (5 * (k + 1)) = 32 * 2 ^ (5 * k) := by rw [Nat.mul_add, Nat.pow_add]; omega
  rw [hpow, ← Nat.mul_assoc, ← Nat.add_mul]
  congr 1
  omega

/-- A group of more digits than one leaves room for the next shift. -/
theorem shift_le_of_lt {v k : Nat} (hv : 32 ≤ v) (hfit : v * 2 ^ (5 * k) < 2 ^ 63) : k + 1 ≤ 12 := by
  apply Nat.le_of_not_lt
  intro hk
  have hpow : 2 ^ (5 * 12) ≤ 2 ^ (5 * k) := Nat.pow_le_pow_right (by decide) (by omega)
  have hmul : 32 * 2 ^ (5 * 12) ≤ v * 2 ^ (5 * k) := Nat.mul_le_mul hv hpow
  omega

theorem run_groups (v : Nat) : ∀ (k : Nat) (fields : List Int) (value : Int) (isOpen : Bool)
    (rest : List UInt8), k ≤ 12 → v * 2 ^ (5 * k) < 2 ^ 63 →
    run ⟨fields, value, 5 * k, isOpen⟩ ((groups v).map byte ++ rest) =
      run ⟨signed (value + (v * 2 ^ (5 * k) : Nat)) :: fields, 0, 0, false⟩ rest := by
  induction v using groups.induct with
  | case1 v h =>
    intro k fields value isOpen rest hk hfit
    have hlow : v % 32 = v := Nat.mod_eq_of_lt h
    rw [groups, if_pos h, List.map_singleton, List.singleton_append, run,
      step_byte (by omega) hk (by rwa [hlow]), if_neg (by omega), hlow]
  | case2 v h ih =>
    intro k fields value isOpen rest hk hfit
    have hsplit := low_add_high v k
    have hlow : (32 + v % 32) % 32 = v % 32 := by omega
    rw [groups, if_neg h, List.map_cons, List.cons_append, run,
      step_byte (by omega) hk (by rw [hlow]; omega), if_pos (by omega), hlow]
    simp only
    rw [ih (k + 1) _ _ _ _ (shift_le_of_lt (by omega) hfit) (by omega), ← hsplit]
    push_cast
    rw [Int.add_assoc]

/-! ## Reading the numbers of a segment -/

theorem encode_bytes (n : Int) :
    Text.Utf8.encode (encode n) = (groups (folded n)).map byte := by
  rw [Text.Utf8.encode_ascii fun c hc => (encode_plain hc).1, encode, List.map_map]
  rfl

theorem run_encode {n : Int} (h : n.natAbs < 2 ^ 62) (fields : List Int) (rest : List UInt8) :
    run ⟨fields, 0, 0, false⟩ (Text.Utf8.encode (encode n) ++ rest) =
      run ⟨n :: fields, 0, 0, false⟩ rest := by
  have hrun := run_groups (folded n) 0 fields 0 false rest (by omega) (by simpa using folded_lt h)
  rw [encode_bytes]
  simpa [signed_folded] using hrun

theorem run_flatMap_encode {ns : List Int} (h : ∀ n ∈ ns, n.natAbs < 2 ^ 62) (fields : List Int) :
    run ⟨fields, 0, 0, false⟩ (Text.Utf8.encode (ns.flatMap encode)) =
      .ok ⟨ns.reverse ++ fields, 0, 0, false⟩ := by
  induction ns generalizing fields with
  | nil => rfl
  | cons n ns ih =>
    rw [List.flatMap_cons, Text.Utf8.encode_append, run_encode (h n List.mem_cons_self),
      ih fun m hm => h m (List.mem_cons_of_mem _ hm), List.reverse_cons, List.append_assoc,
      List.singleton_append]

/-- **Reading undoes writing**, number by number, for magnitudes below 2^62. -/
theorem decode_flatMap_encode {ns : List Int} (h : ∀ n ∈ ns, n.natAbs < 2 ^ 62) :
    decode (ns.flatMap encode) = .ok ns := by
  rw [decode, State.start, run_flatMap_encode h]
  simp

end DialectBridge.SourceMap.Vlq
