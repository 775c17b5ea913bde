import DialectBridge.Proofs.Settings.Merge

/-!
# Layers that are accepted

A layer is checked only after it was laid over the settings below, so what it leaves out is filled in
from there, and what it says replaces a part of it.  Still the settings below have no part in whether
it is accepted: every slot that a layer leaves alone is in order already.  This makes the accepted
layers a grammar of their own.

* `Json.IsNumber`, `Json.IsText`, `Json.IsTexts`, `CommandShape`, `Acceptable` — the grammar;
* `commandSaid_iff` — the parts of a command can be read just if it has one of three shapes;
* `readable_iff` — all slots can be read just if the layer follows the grammar;
* `exists_says` — a layer that can be read says what the settings are to be;
* `acceptance_independent_of_base` — the accepted layers, the same over any settings.
-/

namespace DialectBridge

/-! ## The grammar -/

namespace Json

/-- An integer of 64 bits without a sign. -/
def IsNumber (j : Json) : Prop :=
  ∃ n : Nat, n < 2 ^ 64 ∧ j = .int n

def IsBool (j : Json) : Prop :=
  ∃ b, j = .bool b

def IsText (j : Json) : Prop :=
  ∃ text, j = .str text

/-- An array of strings. -/
def IsTexts (j : Json) : Prop :=
  ∃ texts : List String, j = .arr (texts.map .str)

/-- A field that has a shape, if it is there. -/
def FieldIs (shape : Json → Prop) (name : String) (j : Json) : Prop :=
  ∀ value, j.get? name = some value → shape value

end Json

/-- What may stand for a command: an object that names parts of it, or an array of the program and the
arguments, of which the arguments may be missing. -/
inductive CommandShape : Json → Prop where
  | parts (fields : List (String × Json)) (program : Json.FieldIs Json.IsText "program" (.obj fields))
    (args : Json.FieldIs Json.IsTexts "args" (.obj fields)) : CommandShape (.obj fields)
  | program (program : Json) (hprogram : program.IsText) : CommandShape (.arr [program])
  | whole (program args : Json) (hprogram : program.IsText) (hargs : args.IsTexts) :
    CommandShape (.arr [program, args])

/-- The layers that can be added.  Fields of other names play no part. -/
inductive Acceptable : Json → Prop where
  | null : Acceptable .null
  | object (fields : List (String × Json))
    (quantity : ∀ q : Quantity, Json.FieldIs Json.IsNumber q.name (.obj fields))
    (verify : Json.FieldIs Json.IsBool "verify" (.obj fields))
    (tool : ∀ t : Tool, Json.FieldIs CommandShape t.name (.obj fields)) : Acceptable (.obj fields)

/-! ## Reading values -/

namespace Json

theorem exists_number?_iff {j : Json} : (∃ n, Settings.number? j = some n) ↔ j.IsNumber := by
  constructor
  · rintro ⟨n, hn⟩
    cases j with
    | int k =>
      simp only [Settings.number?, asNat?] at hn
      split at hn
      · rename_i hk
        have hsize : UInt64.size = 2 ^ 64 := rfl
        refine ⟨k.toNat, by omega, ?_⟩
        rw [Int.toNat_of_nonneg hk.1]
      · cases hn
    | _ => cases hn
  · rintro ⟨n, hn, rfl⟩
    exact ⟨n, Settings.number?_nat hn⟩

theorem exists_asBool?_iff {j : Json} : (∃ b, j.asBool? = some b) ↔ j.IsBool := by
  cases j <;> simp [asBool?, IsBool]

theorem exists_asString?_iff {j : Json} : (∃ text, j.asString? = some text) ↔ j.IsText := by
  cases j <;> simp [asString?, IsText]

theorem eq_str_of_asString? {j : Json} {text : String} (h : j.asString? = some text) :
    j = .str text := by
  cases j with
  | str other => rw [Option.some.inj h]
  | _ => cases h

theorem eq_map_str {items : List Json} {texts : List String}
    (h : items.mapM asString? = some texts) : items = texts.map .str := by
  induction items generalizing texts with
  | nil =>
    obtain rfl := Option.some.inj h
    rfl
  | cons item rest ih =>
    simp only [List.mapM_cons, Option.bind_eq_bind, Option.bind_eq_some_iff, Option.pure_def,
      Option.some.injEq] at h
    obtain ⟨text, htext, others, hothers, rfl⟩ := h
    rw [List.map_cons, eq_str_of_asString? htext, ih hothers]

theorem exists_listOf?_iff {j : Json} : (∃ texts, listOf? asString? j = some texts) ↔ j.IsTexts := by
  constructor
  · rintro ⟨texts, htexts⟩
    cases j with
    | arr items => exact ⟨texts, congrArg Json.arr (eq_map_str htexts)⟩
    | _ => cases htexts
  · rintro ⟨texts, rfl⟩
    exact ⟨texts, Command.listOf?_map_str texts⟩

end Json

theorem exists_map_some_iff {α : Type} {value : Option α} :
    (∃ set, value.map some = some set) ↔ ∃ x, value = some x := by
  cases value <;> simp

/-- A field can be read if it is absent, and otherwise if its value can be. -/
theorem exists_said?_iff {α : Type} {read : Json → Option α} {shape : Json → Prop}
    (hread : ∀ j, (∃ x, read j = some x) ↔ shape j) {name : String} {j : Json} :
    (∃ set, said? read (j.get? name) = some set) ↔ j.FieldIs shape name := by
  unfold Json.FieldIs
  cases j.get? name with
  | none => exact ⟨fun _ value h => absurd h (by simp), fun _ => ⟨none, rfl⟩⟩
  | some value =>
    show (∃ set, (read value).map some = some set) ↔ _
    rw [exists_map_some_iff, hread]
    simp only [Option.some.injEq, forall_eq']

/-- **The parts of a command can be read just if it has one of the shapes.** -/
theorem commandSaid_iff {value : Json} :
    ((∃ set, programSaid? (some value) = some set) ∧ ∃ set, argsSaid? (some value) = some set) ↔
      CommandShape value := by
  constructor
  · rintro ⟨hprogram, hargs⟩
    cases value with
    | obj fields =>
      apply CommandShape.parts
      · exact (exists_said?_iff fun _ => Json.exists_asString?_iff).mp hprogram
      · exact (exists_said?_iff fun _ => Json.exists_listOf?_iff).mp hargs
    | arr items =>
      rcases items with _ | ⟨program, _ | ⟨args, _ | ⟨extra, rest⟩⟩⟩
      · obtain ⟨_, ⟨⟩⟩ := hprogram
      · apply CommandShape.program
        exact Json.exists_asString?_iff.mp (exists_map_some_iff.mp hprogram)
      · apply CommandShape.whole
        · exact Json.exists_asString?_iff.mp (exists_map_some_iff.mp hprogram)
        · exact Json.exists_listOf?_iff.mp (exists_map_some_iff.mp hargs)
      · obtain ⟨_, ⟨⟩⟩ := hprogram
    | _ => obtain ⟨_, ⟨⟩⟩ := hprogram
  · intro hshape
    cases hshape with
    | parts fields hprogram hargs =>
      constructor
      · exact (exists_said?_iff fun _ => Json.exists_asString?_iff).mpr hprogram
      · exact (exists_said?_iff fun _ => Json.exists_listOf?_iff).mpr hargs
    | program program hprogram =>
      refine ⟨?_, some [], rfl⟩
      exact exists_map_some_iff.mpr (Json.exists_asString?_iff.mpr hprogram)
    | whole program args hprogram hargs =>
      constructor
      · exact exists_map_some_iff.mpr (Json.exists_asString?_iff.mpr hprogram)
      · exact exists_map_some_iff.mpr (Json.exists_listOf?_iff.mpr hargs)

/-! ## Reading layers -/

/-- A layer says nothing that cannot be read. -/
def Readable (layer : Json) : Prop :=
  ∀ slot : Slot, ∃ set, slot.said? layer = some set

theorem toolSaid_iff {layer : Json} {t : Tool} :
    ((∃ set, Slot.said? layer (.program t) = some set) ∧
      ∃ set, Slot.said? layer (.args t) = some set) ↔ layer.FieldIs CommandShape t.name := by
  show ((∃ set, programSaid? (layer.get? t.name) = some set) ∧
    ∃ set, argsSaid? (layer.get? t.name) = some set) ↔ _
  unfold Json.FieldIs
  cases layer.get? t.name with
  | none => exact ⟨fun _ value h => absurd h (by simp), fun _ => ⟨⟨none, rfl⟩, none, rfl⟩⟩
  | some value =>
    rw [commandSaid_iff]
    simp only [Option.some.injEq, forall_eq']

/-- **An object can be read just if it follows the grammar.** -/
theorem readable_iff {fields : List (String × Json)} :
    Readable (.obj fields) ↔ Acceptable (.obj fields) := by
  constructor
  · intro hreadable
    apply Acceptable.object
    · intro q
      exact (exists_said?_iff fun _ => Json.exists_number?_iff).mp (hreadable (.quantity q))
    · exact (exists_said?_iff fun _ => Json.exists_asBool?_iff).mp (hreadable .verify)
    · intro t
      exact toolSaid_iff.mp ⟨hreadable (.program t), hreadable (.args t)⟩
  · intro hacceptable slot
    cases hacceptable with
    | object _ hquantity hverify htool =>
      cases slot with
      | quantity q => exact (exists_said?_iff fun _ => Json.exists_number?_iff).mpr (hquantity q)
      | verify => exact (exists_said?_iff fun _ => Json.exists_asBool?_iff).mpr hverify
      | program t => exact (toolSaid_iff.mpr (htool t)).1
      | args t => exact (toolSaid_iff.mpr (htool t)).2

/-! ## Accepting layers -/

namespace Settings

/-- The settings with these values in their slots. -/
def ofSlots (value : (slot : Slot) → slot.Value) : Settings where
  compileDebounceMs := value (.quantity .compileDebounceMs)
  verifyDebounceMs := value (.quantity .verifyDebounceMs)
  cacheTtlSecs := value (.quantity .cacheTtlSecs)
  hostTimeoutMs := value (.quantity .hostTimeoutMs)
  verifyTimeoutMs := value (.quantity .verifyTimeoutMs)
  verify := value .verify
  compiler := ⟨value (.program .compiler), value (.args .compiler)⟩
  verifier := ⟨value (.program .verifier), value (.args .verifier)⟩
  hostServer := ⟨value (.program .hostServer), value (.args .hostServer)⟩

theorem valueOf_ofSlots (value : (slot : Slot) → slot.Value) (slot : Slot) :
    (ofSlots value).valueOf slot = value slot := by
  cases slot with
  | quantity q => cases q <;> rfl
  | verify => rfl
  | program t => cases t <;> rfl
  | args t => cases t <;> rfl

variable {s t : Settings} {layer : Json}

/-- A layer that can be read says what the settings are to be. -/
theorem exists_says (s : Settings) (h : Readable layer) : ∃ t, Says layer s t := by
  choose set hset using h
  refine ⟨ofSlots fun slot => (set slot).getD (s.valueOf slot), fun slot => ?_⟩
  exact ⟨set slot, hset slot, valueOf_ofSlots _ slot⟩

/-- The settings below play no part in what is accepted. -/
theorem exists_merge_iff (hs : s.Fits) (hlayer : layer.Proper) :
    (∃ merged, s.merge layer = .ok merged) ↔ Acceptable layer := by
  constructor
  · rintro ⟨merged, hmerged⟩
    have hsays := says_of_merge hlayer hmerged
    rcases obj_of_merge hmerged with ⟨rfl, -⟩ | ⟨fields, rfl⟩
    · exact .null
    · apply readable_iff.mp
      intro slot
      obtain ⟨set, hset, -⟩ := hsays slot
      exact ⟨set, hset⟩
  · intro hacceptable
    cases hacceptable with
    | null => exact ⟨s, rfl⟩
    | object fields hquantity hverify htool =>
      obtain ⟨merged, hsays⟩ :=
        s.exists_says (readable_iff.mpr (.object fields hquantity hverify htool))
      exact ⟨merged, merge_of_says hs hlayer (.inr ⟨fields, rfl⟩) hsays⟩

/-- What is refused over some settings is refused for the same reason over any others. -/
theorem merge_error_of_error (ht : t.Fits) (hs : s.Fits) (hlayer : layer.Proper) {e : SettingsError}
    (h : s.merge layer = .error e) : t.merge layer = .error e := by
  cases layer with
  | null => cases h
  | obj fields =>
    have hrefused : ¬∃ merged, t.merge (.obj fields) = .ok merged := by
      rw [exists_merge_iff ht hlayer, ← exists_merge_iff hs hlayer, h]
      rintro ⟨_, ⟨⟩⟩
    have hs := (s.merge_obj_cases fields).resolve_left (by rw [h]; rintro ⟨_, ⟨⟩⟩)
    rw [(t.merge_obj_cases fields).resolve_left hrefused, ← hs, h]
  | _ => exact h

/-- **The settings below have no part in whether a layer is accepted.**  For a JSON value and any two
settings:

1. the value can be added to the one just if it can be added to the other;
2. it can be added just if it is null, or an object whose times are integers of 64 bits, whose
   `verify` is a truth value, and whose commands have one of the shapes, all of them if present;
3. if it is refused, it is so for the same reason. -/
theorem acceptance_independent_of_base (s t : Settings) (layer : Json) (hs : s.Fits) (ht : t.Fits)
    (hlayer : layer.Proper) :
    ((∃ merged, s.merge layer = .ok merged) ↔ ∃ merged, t.merge layer = .ok merged) ∧
    ((∃ merged, s.merge layer = .ok merged) ↔ Acceptable layer) ∧
    ∀ e, s.merge layer = .error e ↔ t.merge layer = .error e := by
  have haccepted := exists_merge_iff hs hlayer
  refine ⟨haccepted.trans (exists_merge_iff ht hlayer).symm, haccepted, fun e => ?_⟩
  constructor
  · exact merge_error_of_error ht hs hlayer
  · exact merge_error_of_error hs ht hlayer

/-- A command in part, one without arguments, the largest number, and fields that mean nothing; the
same with a null for a truth value. -/
theorem acceptance_independent_of_base_inPart :
    let other : Settings := { verify := false, compiler := ⟨"brew", []⟩, cacheTtlSecs := 0 }
    let fields : List (String × Json) :=
      [("cacheTtlSecs", .int 18446744073709551615),
        ("compiler", .obj [("args", .arr [.str "-c"]), ("color", .null)]),
        ("extra", .arr []), ("verifier", .arr [.str "tsc"])]
    Acceptable (.obj fields) ∧ (∃ merged, other.merge (.obj fields) = .ok merged) ∧
      ¬Acceptable (.obj (("verify", .null) :: fields)) ∧
      other.merge (.obj (("verify", .null) :: fields)) = .error .invalid := by
  intro other fields
  have hother : other.Fits := by
    intro q
    cases q <;> decide
  have hproper : (Json.obj fields).Proper := by
    simp [fields, Json.Proper, Json.FieldsProper, Json.ItemsProper]
  have hproper' : (Json.obj (("verify", .null) :: fields)).Proper := by
    simp [fields, Json.Proper, Json.FieldsProper, Json.ItemsProper]
  have haccepted : ∃ merged, ({} : Settings).merge (.obj fields) = .ok merged :=
    ⟨{ cacheTtlSecs := 18446744073709551615, compiler := ⟨"coffee", ["-c"]⟩, verifier := ⟨"tsc", []⟩ },
      by decide +kernel⟩
  have hrefused : ({} : Settings).merge (.obj (("verify", .null) :: fields)) = .error .invalid := by
    decide +kernel
  obtain ⟨hsame, hgrammar, -⟩ :=
    acceptance_independent_of_base {} other (.obj fields) fits_default hother hproper
  obtain ⟨-, hgrammar', hreason⟩ := acceptance_independent_of_base {} other
    (.obj (("verify", .null) :: fields)) fits_default hother hproper'
  refine ⟨hgrammar.mp haccepted, hsame.mp haccepted, ?_, (hreason _).mp hrefused⟩
  rw [← hgrammar', hrefused]
  rintro ⟨_, ⟨⟩⟩

end Settings

end DialectBridge
