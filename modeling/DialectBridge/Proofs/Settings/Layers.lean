import DialectBridge.Command.Run
import DialectBridge.Proofs.Command.Arguments
import DialectBridge.Proofs.Settings.Merge

/-!
# The layers of settings

The settings that hold are made of four layers: the options of the editor over the flags of the command
line over a file over the defaults.  Every slot has the value that the highest layer with something to
say of it gives it.

* `Flags.valueOf_apply` — what flags do, slot by slot;
* `resolve_eq_ok` — where the settings of a command line come from;
* `settings_layering` — all layers together, and what merging does not change.
-/

namespace DialectBridge.CommandLine

/-- What the flags say of a slot. -/
def Flags.said (f : Flags) : (slot : Slot) → Option slot.Value
  | .quantity .compileDebounceMs => f.compileDebounceMs
  | .quantity .verifyDebounceMs => f.verifyDebounceMs
  | .quantity .cacheTtlSecs => f.cacheTtlSecs
  | .program .compiler => f.compiler
  | .program .verifier => f.verifier
  | .program .hostServer => f.hostServer
  | _ => none

/-- The layer in the file that the flags name, the empty one if they name none. -/
def fileLayer? (w : World) (f : Flags) : Option Json :=
  match f.config with
  | none => some .null
  | some file =>
    match w.readFile file with
    | .ok text => Json.parse? text.toList
    | .error _ => none

variable {w : World} {f : Flags} {s : Settings}

theorem Flags.valueOf_apply (f : Flags) (s : Settings) (slot : Slot) :
    (f.apply s).valueOf slot = (f.said slot).getD (s.valueOf slot) := by
  cases slot with
  | quantity q => cases q <;> rfl
  | verify => rfl
  | program x => cases x <;> rfl
  | args x => cases x <;> rfl

theorem Flags.Fits.apply (hf : f.Fits) (hs : s.Fits) : (f.apply s).Fits := by
  have hgetD : ∀ {set : Option Nat} {old : Nat}, (∀ n, set = some n → n < UInt64.size) →
      old < UInt64.size → set.getD old < UInt64.size := by
    intro set old hset hold
    cases set with
    | none => exact hold
    | some n => exact hset n rfl
  intro q
  cases q with
  | compileDebounceMs => exact hgetD hf.compileDebounceMs (hs .compileDebounceMs)
  | verifyDebounceMs => exact hgetD hf.verifyDebounceMs (hs .verifyDebounceMs)
  | cacheTtlSecs => exact hgetD hf.cacheTtlSecs (hs .cacheTtlSecs)
  | hostTimeoutMs => exact hs .hostTimeoutMs
  | verifyTimeoutMs => exact hs .verifyTimeoutMs

/-- The settings of a command line are those of its flags over those of a file. -/
theorem resolve_eq_ok (h : resolve w f = .ok s) :
    ∃ file loaded, fileLayer? w f = some file ∧ file.Proper ∧
      ({} : Settings).merge file = .ok loaded ∧ s = f.apply loaded := by
  unfold resolve at h
  unfold fileLayer?
  cases hconfig : f.config with
  | none =>
    rw [hconfig] at h
    exact ⟨.null, {}, rfl, trivial, rfl, (Except.ok.inj h).symm⟩
  | some path =>
    rw [hconfig] at h
    simp only [loadSettings] at h ⊢
    cases hfile : w.readFile path with
    | error cause =>
      rw [hfile] at h
      cases h
    | ok text =>
      rw [hfile] at h
      cases hparse : Json.parse? text.toList with
      | none =>
        simp only [hparse] at h
        cases h
      | some file =>
        simp only [hparse] at h
        cases hmerge : ({} : Settings).merge file with
        | error refusal =>
          simp only [hmerge] at h
          cases h
        | ok loaded =>
          simp only [hmerge] at h
          exact ⟨file, loaded, hparse, Json.proper_of_parse? hparse, hmerge, (Except.ok.inj h).symm⟩

/-- **Every slot has the value of the highest layer with something to say of it**: the options of the
editor, the flags, the file that the flags name, the defaults.  An empty layer changes nothing, nor does
a layer that is merged once more, and fields that mean nothing, at the top or in a command, may as well
not be there. -/
theorem settings_layering {args : List String} {flags : Flags} {subcommand : Subcommand}
    {options : Json} {base final : Settings} (hargs : parse args = .ok (.run flags subcommand))
    (hbase : resolve w flags = .ok base) (hoptions : options.Proper)
    (hfinal : base.merge options = .ok final) :
    ∃ file, fileLayer? w flags = some file ∧
      (∀ slot : Slot, ∃ inFile inOptions,
        slot.said? file = some inFile ∧ slot.said? options = some inOptions ∧
        final.valueOf slot =
          (inOptions.or ((flags.said slot).or inFile)).getD (({} : Settings).valueOf slot)) ∧
      (∀ s ∈ [base, final], s.merge .null = .ok s ∧ s.merge (.obj []) = .ok s) ∧
      final.merge options = .ok final ∧
      base.merge (Settings.strip options) = .ok final ∧
      ({} : Settings).merge (Settings.strip file) = ({} : Settings).merge file := by
  obtain ⟨file, loaded, hfile, hproper, hloaded, rfl⟩ := resolve_eq_ok hbase
  have hloadedFits := Settings.fits_default.merge hproper hloaded
  have hbaseFits := (fits_of_parse hargs).apply hloadedFits
  have hfinalFits := hbaseFits.merge hoptions hfinal
  refine ⟨file, hfile, fun slot => ?_, ?_, Settings.merge_again hbaseFits hoptions hfinal, ?_,
    Settings.merge_strip Settings.fits_default hproper⟩
  · obtain ⟨inFile, hinFile, hfromFile⟩ := Settings.says_of_merge hproper hloaded slot
    obtain ⟨inOptions, hinOptions, hfromOptions⟩ := Settings.says_of_merge hoptions hfinal slot
    refine ⟨inFile, inOptions, hinFile, hinOptions, ?_⟩
    rw [hfromOptions, Flags.valueOf_apply, hfromFile]
    cases inOptions <;> cases flags.said slot <;> rfl
  · intro s hs
    rcases List.mem_cons.mp hs with rfl | hs
    · exact ⟨rfl, Settings.merge_empty hbaseFits⟩
    · obtain rfl := List.mem_singleton.mp hs
      exact ⟨rfl, Settings.merge_empty hfinalFits⟩
  · rw [Settings.merge_strip hbaseFits hoptions]
    exact hfinal

/-- A compiler whose program is named by the file and then by a flag, and whose arguments are dropped by
the file and then set by the editor. -/
theorem settings_layering_compilerInParts :
    let w : World :=
      ⟨fun _ => .ok "\x7b\"compiler\":[\"c1\"],\"verify\":false,\"odd\":1\x7d", .unavailable, none⟩
    let args := ["--coffee=c2", "--config=b.json", "--cache-ttl-secs=7", "lsp"]
    let flags : Flags :=
      { config := some "b.json", compiler := some "c2", cacheTtlSecs := some 7 }
    let options : Json :=
      .obj [("compiler", .obj [("args", .arr [.str "-o"]), ("odd", .null)]), ("verify", .bool true)]
    let base : Settings := { compiler := ⟨"c2", []⟩, verify := false, cacheTtlSecs := 7 }
    let final : Settings := { compiler := ⟨"c2", ["-o"]⟩, verify := true, cacheTtlSecs := 7 }
    (parse args = .ok (.run flags .serve) ∧ resolve w flags = .ok base ∧ options.Proper ∧
      base.merge options = .ok final) ∧
    (∃ file inFile inOptions, fileLayer? w flags = some file ∧
      (Slot.args .compiler).said? file = some inFile ∧
      (Slot.args .compiler).said? options = some inOptions ∧
      ["-o"] = (inOptions.or ((flags.said (.args .compiler)).or inFile)).getD
        ["--bare", "--compile", "--inline-map", "--stdio"]) ∧
    final.merge options = .ok final := by
  intro w args flags options base final
  have hargs : parse args = .ok (.run flags .serve) := by decide +kernel
  have hbase : resolve w flags = .ok base := by decide +kernel
  have hoptions : options.Proper := by simp [options, Json.Proper, Json.FieldsProper, Json.ItemsProper]
  have hfinal : base.merge options = .ok final := by decide +kernel
  obtain ⟨file, hfile, hslots, -, hagain, -⟩ := settings_layering hargs hbase hoptions hfinal
  obtain ⟨inFile, inOptions, hinFile, hinOptions, hvalue⟩ := hslots (.args .compiler)
  exact ⟨⟨hargs, hbase, hoptions, hfinal⟩,
    ⟨file, inFile, inOptions, hfile, hinFile, hinOptions, hvalue⟩, hagain⟩

end DialectBridge.CommandLine
