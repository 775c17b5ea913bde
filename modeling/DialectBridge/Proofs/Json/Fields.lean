import DialectBridge.Json.Overlay
import DialectBridge.Json.Tree
import Mathlib.Data.List.Induction
import Mathlib.Data.String.Basic

/-!
# Fields of JSON objects

An object is made from a list of fields in which a later field of a name replaces an earlier one, and
a field is read by its name.  Values that were read from a text are proper: every object in them names
each of its fields once.  When a proper object is laid over another, every field can be told on its
own.

* `get?_object` — a field of an object is the last of its name;
* `Proper`, `proper_of_parse?` — values that name each field once, and that texts have no others;
* `get?_overlay` — a field of one object laid over another.
-/

namespace DialectBridge.Json

theorem get?_obj (name : String) (fields : List (String × Json)) :
    (Json.obj fields).get? name = (fields.find? fun field => field.1 = name).map (·.2) := rfl

theorem get?_cons (name key : String) (value : Json) (rest : List (String × Json)) :
    (Json.obj ((key, value) :: rest)).get? name =
      if key = name then some value else (Json.obj rest).get? name := by
  rw [get?_obj, get?_obj, List.find?_cons]
  by_cases h : key = name <;> simp [h]

theorem find?_insertField (name key : String) (value : Json) (fields : List (String × Json)) :
    (insertField key value fields).find? (fun field => field.1 = name) =
      if key = name then some (key, value) else fields.find? (fun field => field.1 = name) := by
  induction fields with
  | nil => by_cases hkey : key = name <;> simp [insertField, hkey]
  | cons field rest ih =>
    unfold insertField
    by_cases hkey : key = name
    · subst hkey
      rw [if_pos rfl] at ih ⊢
      split
      · simp
      · split
        · simp
        · rw [List.find?_cons_of_neg (by simpa using Ne.symm ‹_›), ih]
    · rw [if_neg hkey] at ih ⊢
      split
      · rename_i hfield
        simp [hkey, ← hfield]
      · split
        · simp [hkey]
        · simp only [List.find?_cons, ih]

/-- A field of an object is the last one of its name in the list that the object was made from. -/
theorem get?_object (name : String) (fields : List (String × Json)) :
    (object fields).get? name =
      (fields.reverse.find? fun field => field.1 = name).map (·.2) := by
  show (List.find? _ (fields.foldl _ _)).map _ = _
  congr 1
  induction fields using List.reverseRecOn with
  | nil => rfl
  | append_singleton fields field ih =>
    obtain ⟨key, value⟩ := field
    rw [List.foldl_append, List.foldl_cons, List.foldl_nil, find?_insertField, ih,
      List.reverse_append, List.reverse_singleton, List.singleton_append, List.find?_cons]
    by_cases hkey : key = name <;> simp [hkey]

theorem get?_insertField (name key : String) (value : Json) (fields : List (String × Json)) :
    (Json.obj (insertField key value fields)).get? name =
      if key = name then some value else (Json.obj fields).get? name := by
  rw [get?_obj, get?_obj, find?_insertField]
  split <;> rfl

/-! ## Proper values -/

mutual

/-- Every object in a value names each of its fields once. -/
def Proper : Json → Prop
  | .arr items => ItemsProper items
  | .obj fields => (fields.map (·.1)).Nodup ∧ FieldsProper fields
  | _ => True

def ItemsProper : List Json → Prop
  | [] => True
  | item :: rest => item.Proper ∧ ItemsProper rest

def FieldsProper : List (String × Json) → Prop
  | [] => True
  | (_, value) :: rest => value.Proper ∧ FieldsProper rest

end

theorem fieldsProper_iff {fields : List (String × Json)} :
    FieldsProper fields ↔ ∀ field ∈ fields, field.2.Proper := by
  induction fields with
  | nil => simp [FieldsProper]
  | cons field rest ih => simp [FieldsProper, ih]

theorem Proper.get? {j value : Json} {name : String} (h : j.Proper)
    (hvalue : j.get? name = some value) : value.Proper := by
  cases j with
  | obj fields =>
    obtain ⟨field, hfield, rfl⟩ := Option.map_eq_some_iff.mp hvalue
    exact fieldsProper_iff.mp h.2 field (List.mem_of_find?_eq_some hfield)
  | _ => cases hvalue

theorem mem_insertField {name : String} {value : Json} {fields : List (String × Json)}
    {field : String × Json} (h : field ∈ insertField name value fields) :
    field = (name, value) ∨ field ∈ fields := by
  induction fields with
  | nil => exact .inl (List.mem_singleton.mp h)
  | cons first rest ih =>
    unfold insertField at h
    split at h
    · rcases List.mem_cons.mp h with h | h
      · exact .inl h
      · exact .inr (List.mem_cons_of_mem _ h)
    · split at h
      · exact (List.mem_cons.mp h)
      · rcases List.mem_cons.mp h with rfl | h
        · exact .inr List.mem_cons_self
        · exact (ih h).imp_right (List.mem_cons_of_mem _)

/-- Fields in the order of their names. -/
def Ascending (fields : List (String × Json)) : Prop :=
  fields.Pairwise fun a b => a.1 < b.1

theorem Ascending.insertField {fields : List (String × Json)} (h : Ascending fields) (name : String)
    (value : Json) : Ascending (insertField name value fields) := by
  induction fields with
  | nil => exact List.pairwise_singleton _ _
  | cons first rest ih =>
    obtain ⟨hfirst, hrest⟩ := List.pairwise_cons.mp h
    unfold Json.insertField
    split
    · rename_i hname
      refine List.pairwise_cons.mpr ⟨fun field hfield => ?_, hrest⟩
      rw [hname]
      exact hfirst field hfield
    · rename_i hname
      split
      · rename_i hless
        refine List.pairwise_cons.mpr ⟨fun field hfield => ?_, h⟩
        rcases List.mem_cons.mp hfield with rfl | hfield
        · exact hless
        · exact lt_trans hless (hfirst field hfield)
      · rename_i hnot
        refine List.pairwise_cons.mpr ⟨fun field hfield => ?_, ih hrest⟩
        rcases mem_insertField hfield with rfl | hfield
        · exact lt_of_le_of_ne (not_lt.mp hnot) (Ne.symm hname)
        · exact hfirst field hfield

theorem Ascending.nodup {fields : List (String × Json)} (h : Ascending fields) :
    (fields.map (·.1)).Nodup := by
  refine List.pairwise_map.mpr (h.imp ?_)
  intro a b hless
  exact ne_of_lt hless

/-- An object that is made from proper values is proper. -/
theorem proper_object {fields : List (String × Json)} (h : ∀ field ∈ fields, field.2.Proper) :
    (object fields).Proper := by
  have hmade : Ascending (fields.foldl (fun made field => insertField field.1 field.2 made) []) ∧
      ∀ field ∈ fields.foldl (fun made field => insertField field.1 field.2 made) [],
        field.2.Proper := by
    induction fields using List.reverseRecOn with
    | nil => exact ⟨List.Pairwise.nil, fun _ hfield => absurd hfield List.not_mem_nil⟩
    | append_singleton fields last ih =>
      obtain ⟨hascending, hproper⟩ := ih fun field hfield => h field (List.mem_append_left _ hfield)
      rw [List.foldl_append, List.foldl_cons, List.foldl_nil]
      refine ⟨hascending.insertField _ _, fun field hfield => ?_⟩
      rcases mem_insertField hfield with rfl | hfield
      · exact h last (List.mem_append_right _ (List.mem_singleton_self _))
      · exact hproper field hfield
  exact ⟨hmade.1.nodup, fieldsProper_iff.mpr hmade.2⟩

mutual

theorem proper_value? {depth : Nat} : ∀ {t : Tree} {j : Json}, t.value? depth = some j → j.Proper
  | .null, j, h => by
    obtain rfl := Option.some.inj h
    trivial
  | .bool b, j, h => by
    obtain rfl := Option.some.inj h
    trivial
  | .number n, j, h => by
    unfold Tree.value? Numeral.value? at h
    split at h
    · obtain rfl := Option.some.inj h
      trivial
    · split at h
      · obtain rfl := Option.some.inj h
        trivial
      · cases h
  | .string s, j, h => by
    obtain ⟨s, -, rfl⟩ := Option.map_eq_some_iff.mp h
    trivial
  | .array items, j, h => by
    cases depth with
    | zero => cases h
    | succ depth =>
      obtain ⟨values, hvalues, rfl⟩ := Option.map_eq_some_iff.mp h
      exact itemsProper_valuesOf? hvalues
  | .object fields, j, h => by
    cases depth with
    | zero => cases h
    | succ depth =>
      obtain ⟨values, hvalues, rfl⟩ := Option.map_eq_some_iff.mp h
      exact proper_object (fieldsProper_iff.mp (fieldsProper_fieldsOf? hvalues))

theorem itemsProper_valuesOf? {depth : Nat} : ∀ {items : List Tree} {values : List Json},
    valuesOf? depth items = some values → ItemsProper values
  | [], values, h => by
    obtain rfl := Option.some.inj h
    trivial
  | t :: rest, values, h => by
    unfold valuesOf? at h
    split at h
    · cases h
    · rename_i j hj
      obtain ⟨later, hlater, rfl⟩ := Option.map_eq_some_iff.mp h
      exact ⟨proper_value? hj, itemsProper_valuesOf? hlater⟩

theorem fieldsProper_fieldsOf? {depth : Nat} :
    ∀ {fields : List (Option String × Tree)} {values : List (String × Json)},
    fieldsOf? depth fields = some values → FieldsProper values
  | [], values, h => by
    obtain rfl := Option.some.inj h
    trivial
  | (name, t) :: rest, values, h => by
    unfold fieldsOf? at h
    split at h
    · rename_i hj
      obtain ⟨later, hlater, rfl⟩ := Option.map_eq_some_iff.mp h
      exact ⟨proper_value? hj, fieldsProper_fieldsOf? hlater⟩
    · cases h

end

/-- **A text has a proper value.** -/
theorem proper_of_parse? {cs : List Char} {j : Json} (h : parse? cs = some j) : j.Proper := by
  obtain ⟨t, -, ht⟩ := Option.bind_eq_some_iff.mp h
  exact proper_value? ht

/-! ## Overlays -/

/-- What is laid over anything but an object replaces it. -/
theorem overlay_of_not_obj {top base : Json} (h : ∀ fields, base ≠ .obj fields) :
    top.overlay base = top := by
  unfold overlay
  split
  · exact absurd rfl (h _)
  · rfl

/-- A field that is laid over one of the same name, if there is one. -/
def laidOver (value : Json) : Option Json → Json
  | some below => value.overlay below
  | none => value

theorem get?_overlayFields {fields : List (String × Json)} (hnames : (fields.map (·.1)).Nodup)
    (base : List (String × Json)) (name : String) :
    (Json.obj (overlayFields fields base)).get? name =
      match (Json.obj fields).get? name with
      | some value => some (laidOver value ((Json.obj base).get? name))
      | none => (Json.obj base).get? name := by
  induction fields generalizing base with
  | nil => rfl
  | cons field rest ih =>
    obtain ⟨key, value⟩ := field
    obtain ⟨hkey, hrest⟩ := List.nodup_cons.mp hnames
    have hcons : overlayFields ((key, value) :: rest) base =
        overlayFields rest (insertField key (laidOver value ((Json.obj base).get? key)) base) := by
      rw [overlayFields]
      cases (Json.obj base).get? key <;> rfl
    rw [hcons, ih hrest, get?_insertField]
    by_cases hname : key = name
    · -- the later fields have other names
      subst hname
      have hnone : (Json.obj rest).get? key = none := by
        rw [get?_obj, Option.map_eq_none_iff, List.find?_eq_none]
        intro field hfield hname
        exact hkey (List.mem_map.mpr ⟨field, hfield, by simpa using hname⟩)
      rw [hnone, get?_cons, if_pos rfl, if_pos rfl]
    · rw [get?_cons, if_neg hname, if_neg hname]

/-- **A field of one object laid over another**, which has such a field already. -/
theorem get?_overlay {fields base : List (String × Json)} (h : (Json.obj fields).Proper) {name : String}
    {below : Json} (hbelow : (Json.obj base).get? name = some below) :
    ((Json.obj fields).overlay (.obj base)).get? name =
      some ((((Json.obj fields).get? name).map fun value => value.overlay below).getD below) := by
  rw [overlay, get?_overlayFields h.1, hbelow]
  cases (Json.obj fields).get? name <;> rfl

/-- A field that is no object is replaced. -/
theorem get?_overlay_of_not_obj {fields base : List (String × Json)} (h : (Json.obj fields).Proper)
    {name : String} {below : Json} (hbelow : (Json.obj base).get? name = some below)
    (hnot : ∀ fields, below ≠ .obj fields) :
    ((Json.obj fields).overlay (.obj base)).get? name =
      some (((Json.obj fields).get? name).getD below) := by
  rw [get?_overlay h hbelow]
  cases (Json.obj fields).get? name with
  | none => rfl
  | some value => simp only [Option.map_some, Option.getD_some, overlay_of_not_obj hnot]

end DialectBridge.Json
