import DialectBridge.Proofs.Json.Fields
import DialectBridge.Settings

/-!
# What a layer of settings says

Settings are a number of slots: the times, whether to verify, and for each command its program and its
arguments.  A layer says something of a slot or leaves it alone.  Merging a layer gives every slot what
the layer says of it, and leaves the others as they are; a layer is refused only for what it says wrong.

* `Slot`, `Settings.valueOf`, `Slot.said?` — the slots, their values, and what a layer says of them;
* `Command.ofJson?_overlay` — a command with a part of it replaced;
* `says_of_merge`, `merge_of_says` — merging, slot by slot;
* `merge_empty`, `merge_again`, `merge_strip` — an empty layer, a layer merged twice, a layer with
  fields that mean nothing.
-/

namespace DialectBridge

/-- The times that can be set. -/
inductive Quantity where
  | compileDebounceMs
  | verifyDebounceMs
  | cacheTtlSecs
  | hostTimeoutMs
  | verifyTimeoutMs
  deriving DecidableEq, Repr

/-- The programs that can be set. -/
inductive Tool where
  | compiler
  | verifier
  | hostServer
  deriving DecidableEq, Repr

/-- The name of a time in a layer. -/
def Quantity.name : Quantity → String
  | .compileDebounceMs => "compileDebounceMs"
  | .verifyDebounceMs => "verifyDebounceMs"
  | .cacheTtlSecs => "cacheTtlSecs"
  | .hostTimeoutMs => "hostTimeoutMs"
  | .verifyTimeoutMs => "verifyTimeoutMs"

/-- The name of a program in a layer. -/
def Tool.name : Tool → String
  | .compiler => "compiler"
  | .verifier => "verifier"
  | .hostServer => "hostServer"

/-- What can be set on its own. -/
inductive Slot where
  | quantity (q : Quantity)
  | verify
  | program (t : Tool)
  | args (t : Tool)
  deriving DecidableEq, Repr

/-- The values of a slot. -/
def Slot.Value : Slot → Type
  | .quantity _ => Nat
  | .verify => Bool
  | .program _ => String
  | .args _ => List String

namespace Settings

/-- A time that is set. -/
def quantity (s : Settings) : Quantity → Nat
  | .compileDebounceMs => s.compileDebounceMs
  | .verifyDebounceMs => s.verifyDebounceMs
  | .cacheTtlSecs => s.cacheTtlSecs
  | .hostTimeoutMs => s.hostTimeoutMs
  | .verifyTimeoutMs => s.verifyTimeoutMs

/-- A program that is set, with its arguments. -/
def tool (s : Settings) : Tool → Command
  | .compiler => s.compiler
  | .verifier => s.verifier
  | .hostServer => s.hostServer

/-- The value of a slot. -/
def valueOf (s : Settings) : (slot : Slot) → slot.Value
  | .quantity q => s.quantity q
  | .verify => s.verify
  | .program t => (s.tool t).program
  | .args t => (s.tool t).args

/-- The slots are all there is to settings. -/
theorem ext_slots {s t : Settings} (h : ∀ slot, s.valueOf slot = t.valueOf slot) : s = t := by
  have hquantity (q : Quantity) : s.quantity q = t.quantity q := h (.quantity q)
  have htool (x : Tool) : s.tool x = t.tool x := by
    have hprogram : (s.tool x).program = (t.tool x).program := h (.program x)
    have hargs : (s.tool x).args = (t.tool x).args := h (.args x)
    generalize s.tool x = c at hprogram hargs
    generalize t.tool x = d at hprogram hargs
    cases c
    cases d
    exact Command.mk.injEq .. ▸ ⟨hprogram, hargs⟩
  have hverify : s.verify = t.verify := h .verify
  cases s
  cases t
  rw [Settings.mk.injEq]
  exact ⟨hquantity .compileDebounceMs, hquantity .verifyDebounceMs, hquantity .cacheTtlSecs,
    hquantity .hostTimeoutMs, hquantity .verifyTimeoutMs, hverify, htool .compiler,
    htool .verifier, htool .hostServer⟩

/-- All times fit 64 bits. -/
def Fits (s : Settings) : Prop :=
  ∀ q, s.quantity q < UInt64.size

end Settings

/-! ## What a layer says -/

/-- What a field says, if it is there; `none` if it cannot be read. -/
def said? {α : Type} (read : Json → Option α) : Option Json → Option (Option α)
  | none => some none
  | some value => (read value).map some

/-- Reading a field, or what it stands for when it is absent. -/
theorem read_getD {α : Type} {read : Json → Option α} {below : Json} {old : α}
    (hold : read below = some old) (value : Option Json) :
    read (value.getD below) = (said? read value).map fun set => set.getD old := by
  cases value with
  | none => exact hold
  | some value =>
    show read value = ((read value).map some).map _
    cases read value <;> rfl

/-- What a layer says of the program of a command.  An object says it in a field, an array in its first
item. -/
def programSaid? : Option Json → Option (Option String)
  | none => some none
  | some (.obj fields) => said? Json.asString? ((Json.obj fields).get? "program")
  | some (.arr [program]) => program.asString?.map some
  | some (.arr [program, _]) => program.asString?.map some
  | some _ => none

/-- What a layer says of the arguments of a command.  An object says it in a field, an array in its
second item; an array without one says that there are none. -/
def argsSaid? : Option Json → Option (Option (List String))
  | none => some none
  | some (.obj fields) => said? (Json.listOf? Json.asString?) ((Json.obj fields).get? "args")
  | some (.arr [_]) => some (some [])
  | some (.arr [_, args]) => (Json.listOf? Json.asString? args).map some
  | some _ => none

/-- What a layer says of a slot: nothing, or a value; `none` if it says something that cannot be
read. -/
def Slot.said? (layer : Json) : (slot : Slot) → Option (Option slot.Value)
  | .quantity q => DialectBridge.said? Settings.number? (layer.get? q.name)
  | .verify => DialectBridge.said? Json.asBool? (layer.get? "verify")
  | .program t => programSaid? (layer.get? t.name)
  | .args t => argsSaid? (layer.get? t.name)

/-- Every slot of `t` has what the layer says of it, or else what it has in `s`. -/
def Says (layer : Json) (s t : Settings) : Prop :=
  ∀ slot : Slot, ∃ set, slot.said? layer = some set ∧ t.valueOf slot = set.getD (s.valueOf slot)

/-! ## Commands -/

namespace Command

theorem get?_toJson_program (c : Command) : c.toJson.get? "program" = some (.str c.program) := by
  simp [toJson, Json.get?_object]

theorem get?_toJson_args (c : Command) : c.toJson.get? "args" = some (.arr (c.args.map .str)) := by
  simp [toJson, Json.get?_object]

theorem asString?_str (c : Command) : Json.asString? (.str c.program) = some c.program := rfl

theorem listOf?_map_str (args : List String) :
    Json.listOf? Json.asString? (.arr (args.map .str)) = some args := by
  show (args.map Json.str).mapM Json.asString? = some args
  induction args with
  | nil => rfl
  | cons arg rest ih => simp [List.mapM_cons, ih, Json.asString?]

/-- The command that an object writes. -/
theorem ofJson?_obj (fields : List (String × Json)) :
    ofJson? (.obj fields) =
      (((Json.obj fields).get? "program").bind Json.asString?).bind fun program =>
        (Json.Fields.defaulting (fun name => (Json.obj fields).get? name) "args" []
          (Json.listOf? Json.asString?)).bind fun args => some ⟨program, args⟩ := rfl

/-- **A command with a part of it replaced.** -/
theorem ofJson?_overlay (c : Command) {value : Json} (h : value.Proper) :
    ofJson? (value.overlay c.toJson) =
      (programSaid? (some value)).bind fun program =>
        (argsSaid? (some value)).bind fun args =>
          some ⟨program.getD c.program, args.getD c.args⟩ := by
  cases value with
  | obj fields =>
    obtain ⟨base, hbase⟩ : ∃ base, c.toJson = .obj base := ⟨_, rfl⟩
    have hprogram := Json.get?_overlay_of_not_obj h (hbase ▸ c.get?_toJson_program) (by simp)
    have hargs := Json.get?_overlay_of_not_obj h (hbase ▸ c.get?_toJson_args) (by simp)
    have hread := read_getD (asString?_str c) ((Json.obj fields).get? "program")
    have hlist := read_getD (listOf?_map_str c.args) ((Json.obj fields).get? "args")
    rw [hbase]
    rw [Json.overlay] at hprogram hargs ⊢
    simp only [ofJson?_obj, hprogram, hargs, Option.bind_some, hread, Json.Fields.defaulting, hlist,
      programSaid?, argsSaid?, Option.bind_map, Function.comp_def]
  | arr items =>
    have harray : (Json.arr items).overlay c.toJson = .arr items := by simp [Json.overlay]
    rw [harray]
    rcases items with _ | ⟨program, _ | ⟨args, _ | ⟨_, _⟩⟩⟩
    · rfl
    · simp only [ofJson?, Json.fields?, Json.Fields.required, Json.Fields.defaulting]
      cases hp : program.asString? <;> simp [hp, programSaid?, argsSaid?]
    · simp only [ofJson?, Json.fields?, Json.Fields.required, Json.Fields.defaulting]
      cases hp : program.asString? <;> cases ha : Json.listOf? Json.asString? args <;>
        simp [hp, ha, programSaid?, argsSaid?]
    · simp [ofJson?, Json.fields?, programSaid?]
  | _ => rfl

theorem ofJson?_toJson (c : Command) : ofJson? c.toJson = some c := by
  obtain ⟨base, hbase⟩ : ∃ base, c.toJson = .obj base := ⟨_, rfl⟩
  have hprogram := c.get?_toJson_program
  have hargs := c.get?_toJson_args
  rw [hbase] at hprogram hargs ⊢
  simp only [ofJson?_obj, hprogram, hargs, Option.bind_some, Json.asString?, Json.Fields.defaulting,
    listOf?_map_str]

/-- The command after a field of a layer, which may be absent, was laid over it. -/
theorem ofJson?_laid (c : Command) {value : Option Json} (h : ∀ v, value = some v → v.Proper)
    {d : Command} :
    ofJson? ((value.map fun v => v.overlay c.toJson).getD c.toJson) = some d ↔
      (∃ set, programSaid? value = some set ∧ d.program = set.getD c.program) ∧
        ∃ set, argsSaid? value = some set ∧ d.args = set.getD c.args := by
  cases value with
  | none =>
    rw [Option.map_none, Option.getD_none, ofJson?_toJson]
    obtain ⟨program, args⟩ := c
    obtain ⟨program', args'⟩ := d
    simp [programSaid?, argsSaid?, eq_comm]
  | some v =>
    rw [Option.map_some, Option.getD_some, ofJson?_overlay c (h v rfl)]
    obtain ⟨program', args'⟩ := d
    simp only [Option.bind_eq_some_iff, Option.some.injEq, Command.mk.injEq]
    constructor
    · rintro ⟨program, hprogram, args, hargs, rfl, rfl⟩
      exact ⟨⟨program, hprogram, rfl⟩, args, hargs, rfl⟩
    · rintro ⟨⟨program, hprogram, hset⟩, args, hargs, hset'⟩
      exact ⟨program, hprogram, args, hargs, hset.symm, hset'.symm⟩

end Command

/-! ## Merging -/

namespace Settings

variable {s t : Settings} {layer : Json}

theorem get?_toJson_quantity (s : Settings) (q : Quantity) :
    s.toJson.get? q.name = some (.nat (s.quantity q)) := by
  cases q <;> simp [toJson, Json.get?_object, Quantity.name, quantity]

theorem get?_toJson_verify (s : Settings) : s.toJson.get? "verify" = some (.bool s.verify) := by
  simp [toJson, Json.get?_object]

theorem get?_toJson_tool (s : Settings) (x : Tool) :
    s.toJson.get? x.name = some (s.tool x).toJson := by
  cases x <;> simp [toJson, Json.get?_object, Tool.name, tool]

/-- The settings that an object writes, field by field. -/
theorem ofJson?_eq_some_iff {j : Json} :
    ofJson? j = some t ↔
      (∀ q : Quantity, Json.Fields.defaulting (fun name => j.get? name) q.name
        (({} : Settings).quantity q) number? = some (t.quantity q)) ∧
      Json.Fields.defaulting (fun name => j.get? name) "verify" ({} : Settings).verify Json.asBool? =
        some t.verify ∧
      ∀ x : Tool, Json.Fields.defaulting (fun name => j.get? name) x.name (({} : Settings).tool x)
        Command.ofJson? = some (t.tool x) := by
  constructor
  · intro h
    simp only [ofJson?, Option.bind_eq_bind, Option.bind_eq_some_iff, Option.pure_def,
      Option.some.injEq] at h
    obtain ⟨a, ha, b, hb, c, hc, d, hd, e, he, v, hv, x, hx, y, hy, z, hz, rfl⟩ := h
    refine ⟨fun q => ?_, hv, fun tool => ?_⟩
    · cases q
      exacts [ha, hb, hc, hd, he]
    · cases tool
      exacts [hx, hy, hz]
  · rintro ⟨hquantity, hverify, htool⟩
    have ha := hquantity .compileDebounceMs
    have hb := hquantity .verifyDebounceMs
    have hc := hquantity .cacheTtlSecs
    have hd := hquantity .hostTimeoutMs
    have he := hquantity .verifyTimeoutMs
    have hx := htool .compiler
    have hy := htool .verifier
    have hz := htool .hostServer
    simp only [Quantity.name, quantity, Tool.name, tool] at ha hb hc hd he hx hy hz
    simp only [ofJson?, Option.bind_eq_bind, Option.bind_some, ha, hb, hc, hd, he, hverify, hx, hy, hz]
    rfl

/-- Merging an object, field by field. -/
theorem merge_obj_iff {fields : List (String × Json)} (h : (Json.obj fields).Proper) :
    s.merge (.obj fields) = .ok t ↔
      (∀ q : Quantity, number? (((Json.obj fields).get? q.name).getD (.nat (s.quantity q))) =
        some (t.quantity q)) ∧
      Json.asBool? (((Json.obj fields).get? "verify").getD (.bool s.verify)) = some t.verify ∧
      ∀ x : Tool, Command.ofJson? ((((Json.obj fields).get? x.name).map fun value =>
        value.overlay (s.tool x).toJson).getD (s.tool x).toJson) = some (t.tool x) := by
  obtain ⟨base, hbase⟩ : ∃ base, s.toJson = .obj base := ⟨_, rfl⟩
  have hmerge : s.merge (.obj fields) = .ok t ↔
      ofJson? ((Json.obj fields).overlay s.toJson) = some t := by
    rw [merge]
    cases ofJson? ((Json.obj fields).overlay s.toJson) <;> simp
  have hquantity (q : Quantity) :=
    Json.get?_overlay_of_not_obj h (hbase ▸ s.get?_toJson_quantity q) (by simp [Json.nat])
  have hverify := Json.get?_overlay_of_not_obj h (hbase ▸ s.get?_toJson_verify) (by simp)
  have htool (x : Tool) := Json.get?_overlay h (hbase ▸ s.get?_toJson_tool x)
  rw [hmerge, ofJson?_eq_some_iff, hbase]
  simp only [Json.Fields.defaulting, hquantity, hverify, htool]

theorem number?_eq_some {j : Json} {n : Nat} (h : number? j = some n) : n < UInt64.size := by
  unfold number? Json.asNat? at h
  split at h
  · split at h
    · obtain rfl := Option.some.inj h
      omega
    · cases h
  · cases h

theorem number?_nat {n : Nat} (h : n < UInt64.size) : number? (.nat n) = some n := by
  have hbound : (0 : Int) ≤ (n : Int) ∧ (n : Int) < (UInt64.size : Nat) := by omega
  rw [number?, Json.nat, Json.asNat?, if_pos hbound, Int.toNat_natCast]

theorem eq_of_number?_nat {n m : Nat} (h : number? (.nat n) = some m) : m = n := by
  simp only [number?, Json.nat, Json.asNat?] at h
  split at h
  · exact (Option.some.inj h).symm
  · cases h

theorem asBool?_bool (s : Settings) : Json.asBool? (.bool s.verify) = some s.verify := rfl

/-- What is read of a field that may be absent is what the field says, or else the old value. -/
theorem said?_of_read {value : Option Json} {old new : Nat}
    (h : number? (value.getD (.nat old)) = some new) :
    ∃ set, said? number? value = some set ∧ new = set.getD old := by
  cases value with
  | none => exact ⟨none, rfl, eq_of_number?_nat h⟩
  | some value =>
    rw [Option.getD_some] at h
    exact ⟨some new, by simp [said?, h], rfl⟩

/-- A layer that is accepted is the empty one or an object. -/
theorem obj_of_merge (h : s.merge layer = .ok t) :
    (layer = .null ∧ s = t) ∨ ∃ fields, layer = .obj fields := by
  cases layer with
  | null =>
    left
    exact ⟨rfl, Except.ok.inj h⟩
  | obj fields => exact .inr ⟨fields, rfl⟩
  | _ => cases h

/-- **Merging gives every slot what the layer says of it**, and leaves the others as they are. -/
theorem says_of_merge (hproper : layer.Proper) (h : s.merge layer = .ok t) : Says layer s t := by
  rcases obj_of_merge h with ⟨rfl, rfl⟩ | ⟨fields, rfl⟩
  · intro slot
    cases slot <;> exact ⟨none, rfl, rfl⟩
  · obtain ⟨hquantity, hverify, htool⟩ := (merge_obj_iff hproper).mp h
    have hcommand (x : Tool) := ((s.tool x).ofJson?_laid fun v hv => hproper.get? hv).mp (htool x)
    intro slot
    cases slot with
    | quantity q => exact said?_of_read (hquantity q)
    | verify =>
      rw [read_getD (asBool?_bool s)] at hverify
      obtain ⟨set, hset, hvalue⟩ := Option.map_eq_some_iff.mp hverify
      exact ⟨set, hset, hvalue.symm⟩
    | program x => exact (hcommand x).1
    | args x => exact (hcommand x).2

/-- A layer is refused only for what it says wrong. -/
theorem merge_of_says (hs : s.Fits) (hproper : layer.Proper)
    (hlayer : layer = .null ∨ ∃ fields, layer = .obj fields) (h : Says layer s t) :
    s.merge layer = .ok t := by
  rcases hlayer with rfl | ⟨fields, rfl⟩
  · have hsame : s = t := by
      refine ext_slots fun slot => ?_
      obtain ⟨set, hset, hvalue⟩ := h slot
      have hnone : slot.said? .null = some none := by cases slot <;> rfl
      obtain rfl := Option.some.inj (hset.symm.trans hnone)
      exact hvalue.symm
    rw [hsame]
    rfl
  · refine (merge_obj_iff hproper).mpr ⟨fun q => ?_, ?_, fun x => ?_⟩
    · obtain ⟨set, hset, hvalue⟩ := h (.quantity q)
      rw [read_getD (number?_nat (hs q))]
      exact Option.map_eq_some_iff.mpr ⟨set, hset, hvalue.symm⟩
    · obtain ⟨set, hset, hvalue⟩ := h .verify
      rw [read_getD (asBool?_bool s)]
      exact Option.map_eq_some_iff.mpr ⟨set, hset, hvalue.symm⟩
    · exact ((s.tool x).ofJson?_laid fun v hv => hproper.get? hv).mpr ⟨h (.program x), h (.args x)⟩

theorem fits_default : ({} : Settings).Fits := by
  intro q
  cases q <;> decide

theorem Fits.merge (hs : s.Fits) (hproper : layer.Proper) (h : s.merge layer = .ok t) : t.Fits := by
  rcases obj_of_merge h with ⟨rfl, rfl⟩ | ⟨fields, rfl⟩
  · exact hs
  · intro q
    exact number?_eq_some (((merge_obj_iff hproper).mp h).1 q)

/-- An object without fields changes nothing. -/
theorem merge_empty (hs : s.Fits) : s.merge (.obj []) = .ok s := by
  refine merge_of_says hs ⟨List.nodup_nil, trivial⟩ (.inr ⟨[], rfl⟩) fun slot => ?_
  cases slot <;> exact ⟨none, rfl, rfl⟩

/-- A layer that is merged once more changes nothing. -/
theorem merge_again (hs : s.Fits) (hproper : layer.Proper) (h : s.merge layer = .ok t) :
    t.merge layer = .ok t := by
  have hlayer : layer = .null ∨ ∃ fields, layer = .obj fields := (obj_of_merge h).imp_left And.left
  refine merge_of_says (hs.merge hproper h) hproper hlayer fun slot => ?_
  obtain ⟨set, hset, hvalue⟩ := says_of_merge hproper h slot
  refine ⟨set, hset, ?_⟩
  cases set with
  | none => rfl
  | some value => exact hvalue

/-! ## Fields that mean nothing -/

/-- The fields of a layer that mean something. -/
def knownFields : List String :=
  ["compileDebounceMs", "verifyDebounceMs", "cacheTtlSecs", "hostTimeoutMs", "verifyTimeoutMs",
    "verify", "compiler", "verifier", "hostServer"]

/-- The fields of a layer that are commands. -/
def commandFields : List String :=
  ["compiler", "verifier", "hostServer"]

/-- A command without the fields that mean nothing. -/
def stripCommand : Json → Json
  | .obj fields => .obj (fields.filter fun field => ["program", "args"].contains field.1)
  | value => value

/-- A layer without the fields that mean nothing, its own and those of its commands. -/
def strip : Json → Json
  | .obj fields =>
    .obj ((fields.filter fun field => knownFields.contains field.1).map fun field =>
      (field.1, if commandFields.contains field.1 then stripCommand field.2 else field.2))
  | layer => layer

theorem get?_filter (keep : String → Bool) (fields : List (String × Json)) (name : String) :
    (Json.obj (fields.filter fun field => keep field.1)).get? name =
      if keep name then (Json.obj fields).get? name else none := by
  induction fields with
  | nil => cases keep name <;> rfl
  | cons field rest ih =>
    obtain ⟨key, value⟩ := field
    rw [List.filter_cons]
    by_cases hname : key = name
    · subst hname
      cases hkeep : keep key with
      | true => simp [Json.get?_cons]
      | false => simpa [hkeep] using ih
    · cases hkeep : keep key with
      | true => simp [Json.get?_cons, hname, ih]
      | false => simp [Json.get?_cons, hname, ih]

theorem get?_mapValues (change : String → Json → Json) (fields : List (String × Json))
    (name : String) :
    (Json.obj (fields.map fun field => (field.1, change field.1 field.2))).get? name =
      ((Json.obj fields).get? name).map (change name) := by
  induction fields with
  | nil => rfl
  | cons field rest ih =>
    obtain ⟨key, value⟩ := field
    rw [List.map_cons, Json.get?_cons, Json.get?_cons, ih]
    by_cases hname : key = name
    · simp [hname]
    · simp [hname]

theorem get?_strip {fields : List (String × Json)} {name : String}
    (hname : knownFields.contains name = true) :
    (strip (.obj fields)).get? name = ((Json.obj fields).get? name).map fun value =>
      if commandFields.contains name then stripCommand value else value := by
  rw [strip, get?_mapValues fun key value =>
    if commandFields.contains key then stripCommand value else value]
  rw [get?_filter knownFields.contains, if_pos hname]

theorem programSaid?_strip (value : Option Json) :
    programSaid? (value.map stripCommand) = programSaid? value := by
  rcases value with _ | value
  · rfl
  · cases value with
    | obj fields =>
      show said? _ ((Json.obj (fields.filter _)).get? "program") = _
      rw [get?_filter ["program", "args"].contains]
      rfl
    | _ => rfl

theorem argsSaid?_strip (value : Option Json) :
    argsSaid? (value.map stripCommand) = argsSaid? value := by
  rcases value with _ | value
  · rfl
  · cases value with
    | obj fields =>
      show said? _ ((Json.obj (fields.filter _)).get? "args") = _
      rw [get?_filter ["program", "args"].contains]
      rfl
    | _ => rfl

theorem said?_strip (slot : Slot) (fields : List (String × Json)) :
    slot.said? (strip (.obj fields)) = slot.said? (.obj fields) := by
  cases slot with
  | quantity q =>
    have hget : (strip (.obj fields)).get? q.name = (Json.obj fields).get? q.name := by
      cases q <;> rw [get?_strip (by decide)] <;> exact Option.map_id'
    rw [Slot.said?, hget]
    rfl
  | verify =>
    have hget : (strip (.obj fields)).get? "verify" = (Json.obj fields).get? "verify" := by
      rw [get?_strip (by decide)]
      exact Option.map_id'
    rw [Slot.said?, hget]
    rfl
  | program x =>
    have hget : (strip (.obj fields)).get? x.name =
        ((Json.obj fields).get? x.name).map stripCommand := by
      cases x <;> rw [get?_strip (by decide)] <;> rfl
    rw [Slot.said?, hget, programSaid?_strip]
    rfl
  | args x =>
    have hget : (strip (.obj fields)).get? x.name =
        ((Json.obj fields).get? x.name).map stripCommand := by
      cases x <;> rw [get?_strip (by decide)] <;> rfl
    rw [Slot.said?, hget, argsSaid?_strip]
    rfl

theorem proper_stripCommand {value : Json} (h : value.Proper) : (stripCommand value).Proper := by
  cases value with
  | obj fields =>
    refine ⟨h.1.sublist (List.filter_sublist.map _), Json.fieldsProper_iff.mpr fun field hfield => ?_⟩
    exact Json.fieldsProper_iff.mp h.2 field (List.mem_filter.mp hfield).1
  | _ => exact h

theorem proper_strip (h : layer.Proper) : (strip layer).Proper := by
  cases layer with
  | obj fields =>
    refine ⟨?_, Json.fieldsProper_iff.mpr fun field hfield => ?_⟩
    · rw [List.map_map]
      exact h.1.sublist (List.filter_sublist.map _)
    · obtain ⟨old, hold, rfl⟩ := List.mem_map.mp hfield
      have hproper := Json.fieldsProper_iff.mp h.2 old (List.mem_filter.mp hold).1
      simp only
      split
      · exact proper_stripCommand hproper
      · exact hproper
  | _ => exact h

theorem merge_obj_cases (s : Settings) (fields : List (String × Json)) :
    (∃ t, s.merge (.obj fields) = .ok t) ∨ s.merge (.obj fields) = .error .invalid := by
  rw [merge]
  cases ofJson? ((Json.obj fields).overlay s.toJson) with
  | none => exact .inr rfl
  | some t => exact .inl ⟨t, rfl⟩

/-- **Fields that mean nothing change nothing**, neither the settings nor whether a layer is
accepted. -/
theorem merge_strip (hs : s.Fits) (hproper : layer.Proper) :
    s.merge (strip layer) = s.merge layer := by
  cases layer with
  | obj fields =>
    have hmerge : ∀ t, s.merge (strip (.obj fields)) = .ok t ↔ s.merge (.obj fields) = .ok t := by
      intro t
      constructor
      · intro h
        refine merge_of_says hs hproper (.inr ⟨_, rfl⟩) fun slot => ?_
        rw [← said?_strip]
        exact says_of_merge (proper_strip hproper) h slot
      · intro h
        refine merge_of_says hs (proper_strip hproper) (.inr ⟨_, rfl⟩) fun slot => ?_
        rw [said?_strip]
        exact says_of_merge hproper h slot
    rcases merge_obj_cases s fields with ⟨t, ht⟩ | hrefused
    · rw [ht]
      exact (hmerge t).mpr ht
    · rcases merge_obj_cases s _ with ⟨t, ht⟩ | hrefused'
      · exact ht.trans ((hmerge t).mp ht).symm
      · exact hrefused'.trans hrefused.symm
  | _ => rfl

end Settings

end DialectBridge
