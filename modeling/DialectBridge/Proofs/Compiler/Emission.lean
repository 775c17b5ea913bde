import DialectBridge.Proofs.Compiler.InlineMap
import DialectBridge.Proofs.Text.Base64
import DialectBridge.Proofs.Text.Utf8

/-!
# Taking the compiler's output apart

The compiler writes the lines of the host text, then a comment with the map in base 64, and maybe one
with the address of the source.  The host text and the map are found again, however the lines are
ended and whatever blanks stand around the comments.

* `mapComment`, `IsHostLine` — what the compiler writes;
* `after?_of_first`, `payload_dataAddress` — the map is read back from its address;
* `classify_mapLine`, `classify_addressLine`, `classify_hostLine` — every line is told for what it is;
* `collect_congr` — a line counts for what it is told to be;
* `split_emission` — host text and map are found again.
-/

namespace DialectBridge.Compiler.InlineMap

open Text

/-! ## What the compiler writes -/

/-- How an address starts that holds its data itself. -/
def dataScheme : List Char := "data:".toList

/-- The address that holds a map: a media type, and the map in base 64. -/
def dataAddress (media map : List Char) : List Char :=
  dataScheme ++ (media ++ ';' :: (payloadMark ++ Base64.encode (Utf8.encode map)))

/-- The comment with a map. -/
def mapComment (media map : List Char) : List Char :=
  mapMark ++ dataAddress media map

/-- A line of the host text: it has no carriage return at its end and does not start, blanks aside,
like one of the comments. -/
structure IsHostLine (line : List Char) : Prop where
  no_return : line.getLast? ≠ some '\r'
  no_map : ¬mapMark <+: trim line
  no_address : ¬addressMark <+: trim line

variable {mark ahead data media map line : List Char} {lines lines' : List (List Char)}

/-! ## The map of a comment -/

theorem isPrefixOf?_eq_none_of_not {cs : List Char} (h : ¬mark <+: cs) :
    mark.isPrefixOf? cs = none := by
  rw [Option.eq_none_iff_forall_ne_some]
  intro rest hrest
  exact h ⟨rest, List.isPrefixOf?_eq_some_iff_append_eq.mp hrest⟩

theorem after?_of_start (hne : mark ≠ []) (data : List Char) :
    after? mark (mark ++ data) = some data := by
  cases mark with
  | nil => exact absurd rfl hne
  | cons c mark =>
    have hhere : (c :: mark).isPrefixOf? (c :: (mark ++ data)) = some data :=
      List.isPrefixOf?_eq_some_iff_append_eq.mpr rfl
    rw [List.cons_append, after?, hhere]

theorem after?_cons {c : Char} {cs : List Char} (h : ¬mark <+: c :: cs) :
    after? mark (c :: cs) = after? mark cs := by
  rw [after?, isPrefixOf?_eq_none_of_not h]

/-- **The first mark counts.**  A character ahead of it that is not in the mark keeps the mark from
starting sooner. -/
theorem after?_of_first {sep : Char} (hsep : sep ∉ mark) (hfree : ¬mark <:+: ahead)
    (data : List Char) : after? mark (ahead ++ sep :: (mark ++ data)) = some data := by
  have hne : mark ≠ [] := by
    rintro rfl
    exact hfree List.nil_infix
  have hstart : ∀ part, ¬mark <:+: part → ¬mark <+: part ++ sep :: (mark ++ data) := by
    rintro part hpart ⟨rest, hrest⟩
    rcases List.append_eq_append_iff.mp hrest with ⟨more, hmore, -⟩ | ⟨more, hmore, hends⟩
    · exact hpart (hmore ▸ (List.prefix_append mark more).isInfix)
    · cases more with
      | nil => exact hpart (by rw [hmore, List.append_nil])
      | cons c more =>
        obtain ⟨rfl, -⟩ := List.cons.inj hends
        exact hsep (hmore ▸ List.mem_append_right part List.mem_cons_self)
  induction ahead with
  | nil =>
    have hhere := hstart [] hfree
    rw [List.nil_append] at hhere ⊢
    rw [after?_cons hhere, after?_of_start hne]
  | cons c ahead ih =>
    have hhere := hstart (c :: ahead) hfree
    rw [List.cons_append] at hhere ⊢
    rw [after?_cons hhere]
    exact ih fun hpart => hfree (hpart.trans (List.suffix_cons c ahead).isInfix)

theorem trim_encode (bytes : List UInt8) : trim (Base64.encode bytes) = Base64.encode bytes := by
  have hplain : ∀ c ∈ Base64.encode bytes, isBlank c = false :=
    fun c hc => Base64.isBlank_of_mem_encode hc
  cases hencode : Base64.encode bytes with
  | nil => rfl
  | cons c rest =>
    rw [hencode] at hplain
    exact trim_of_not_blank (hplain c List.mem_cons_self)
      (trimEnd_append (List.cons_ne_nil c rest) hplain [])

theorem payloadMark_cons {c : Char} (hc : c ≠ 'b') (h : ¬payloadMark <:+: media) :
    ¬payloadMark <:+: c :: media := by
  rw [List.infix_cons_iff]
  rintro (hstart | hrest)
  · exact hc (List.cons_prefix_cons.mp hstart).1.symm
  · exact h hrest

/-- **The map of an address is read back.** -/
theorem payload_dataAddress (hmedia : ¬payloadMark <:+: media) (map : List Char) :
    payload (dataAddress media map) = .ok map := by
  have hfree : ¬payloadMark <:+: dataScheme ++ media := by
    -- no letter of the scheme starts the mark
    apply payloadMark_cons (by decide)
    apply payloadMark_cons (by decide)
    apply payloadMark_cons (by decide)
    apply payloadMark_cons (by decide)
    exact payloadMark_cons (by decide) hmedia
  have hafter : after? payloadMark (dataAddress media map) =
      some (Base64.encode (Utf8.encode map)) := by
    rw [dataAddress, ← List.append_assoc]
    exact after?_of_first (by decide) hfree _
  simp only [payload, hafter, trim_encode, Base64.decode?_encode, Utf8.decode?_encode]

/-! ## What a line is told to be -/

theorem trim_mapComment (media map : List Char) :
    trim (mapComment media map) = mapComment media map := by
  have hend : trimEnd (mapComment media map) = mapComment media map := by
    have hcut : mapComment media map = (mapMark ++ (dataScheme ++ (media ++ ";base64".toList))) ++
        ',' :: Base64.encode (Utf8.encode map) := by
      simp only [mapComment, dataAddress, List.append_assoc]
      rfl
    rw [hcut]
    apply trimEnd_append (List.cons_ne_nil _ _)
    rw [List.forall_mem_cons]
    exact ⟨rfl, fun c hc => Base64.isBlank_of_mem_encode hc⟩
  exact trim_of_not_blank rfl hend

theorem classify_mapLine (h : Padded (mapComment media map) line) :
    classify line = .map (dataAddress media map) := by
  have hmark : mapMark.isPrefixOf? (mapMark ++ dataAddress media map) =
      some (dataAddress media map) := List.isPrefixOf?_eq_some_iff_append_eq.mpr rfl
  have htrim : trim line = mapMark ++ dataAddress media map := by
    rw [trim_of_padded h, trim_mapComment, mapComment]
  simp only [classify, htrim, hmark]

theorem classify_addressLine {address : List Char} (h : Padded (addressMark ++ address) line) :
    classify line = .address := by
  obtain ⟨rest, hrest⟩ : ∃ rest, trim (addressMark ++ address) = addressMark ++ rest := by
    have hstart : trimStart (addressMark ++ address) = addressMark ++ address :=
      List.dropWhile_cons_of_neg (by decide)
    rw [trim, hstart, trimEnd_append_eq]
    split
    · exact ⟨[], by decide⟩
    · exact ⟨_, rfl⟩
  have hmap : mapMark.isPrefixOf? (addressMark ++ rest) = none := rfl
  have haddress : addressMark.isPrefixOf (addressMark ++ rest) = true :=
    List.isPrefixOf_iff_prefix.mpr (List.prefix_append _ _)
  simp only [classify, trim_of_padded h, hrest, hmap, haddress, if_true]

theorem classify_hostLine (h : IsHostLine line) : classify line = .host line := by
  have haddress : addressMark.isPrefixOf (trim line) = false := by
    rw [Bool.eq_false_iff]
    exact fun hmark => h.no_address (List.isPrefixOf_iff_prefix.mp hmark)
  simp only [classify, isPrefixOf?_eq_none_of_not h.no_map, haddress, Bool.false_eq_true, if_false]

/-- A carriage return at the end of a comment does not matter. -/
theorem classify_dropReturn (h : isHost line = false) :
    classify (dropReturn line) = classify line := by
  have htrim : trim (dropReturn line) = trim line := trim_eq_of_trimEnd_eq (trimEnd_dropReturn line)
  unfold isHost classify at *
  simp only [htrim] at h ⊢
  cases hmap : mapMark.isPrefixOf? (trim line) with
  | some address => rfl
  | none =>
    rw [hmap] at h
    cases haddress : addressMark.isPrefixOf (trim line) with
    | true => rfl
    | false => simp [haddress] at h

/-! ## All lines together -/

section Collect

variable {host rest : List (List Char)} {found : Option (List Char)} {text address : List Char}

theorem collect_host (h : classify line = .host text) :
    collect host found (line :: rest) = collect (text :: host) found rest := by
  rw [collect, h]

theorem collect_address (h : classify line = .address) :
    collect host found (line :: rest) = collect host found rest := by
  rw [collect, h]

theorem collect_map (h : classify line = .map address) (hpayload : payload address = .ok text) :
    collect host found (line :: rest) = collect host (some text) rest := by
  rw [collect, h]
  simp only [hpayload]

theorem collect_fault {fault : Fault} (h : classify line = .map address)
    (hpayload : payload address = .error fault) :
    collect host found (line :: rest) = .error fault := by
  rw [collect, h]
  simp only [hpayload]

/-- A line counts for what it is told to be. -/
theorem collect_congr (h : lines.map classify = lines'.map classify) :
    collect host found lines = collect host found lines' := by
  induction lines generalizing host found lines' with
  | nil =>
    rw [List.map_nil, eq_comm, List.map_eq_nil_iff] at h
    rw [h]
  | cons line lines ih =>
    cases lines' with
    | nil => cases h
    | cons line' lines' =>
      obtain ⟨hline, hlines⟩ := List.cons.inj h
      cases hkind : classify line' with
      | host text =>
        rw [collect_host (hline.trans hkind), collect_host hkind]
        exact ih hlines
      | address =>
        rw [collect_address (hline.trans hkind), collect_address hkind]
        exact ih hlines
      | map address =>
        cases hpayload : payload address with
        | ok text =>
          rw [collect_map (hline.trans hkind) hpayload, collect_map hkind hpayload]
          exact ih hlines
        | error fault =>
          rw [collect_fault (hline.trans hkind) hpayload, collect_fault hkind hpayload]

theorem collect_hostLines {before : List (List Char)} (h : ∀ line ∈ host, IsHostLine line)
    (rest : List (List Char)) :
    collect before found (host ++ rest) = collect (host.reverse ++ before) found rest := by
  induction host generalizing before with
  | nil => rfl
  | cons line host ih =>
    rw [List.forall_mem_cons] at h
    rw [List.cons_append, collect_host (classify_hostLine h.1), ih h.2, List.reverse_cons,
      List.append_assoc, List.singleton_append]

end Collect

/-- **Host text and map are found again.**  The output has the lines of the host text, a comment with
the map and maybe one with the address of the source; the lines are ended one way or the other, and
there may be blanks around the comments. -/
theorem split_emission (host : List (List Char)) (media map mapLine output : List Char)
    (addressLine : Option (List Char)) (hhost : ∀ line ∈ host, IsHostLine line)
    (hmedia : ¬payloadMark <:+: media) (hmap : Padded (mapComment media map) mapLine)
    (haddress : ∀ line ∈ addressLine, ∃ address, Padded (addressMark ++ address) line)
    (houtput : Writes (host ++ mapLine :: addressLine.toList) output) :
    InlineMap.split output = .ok (trimEnd (joinLines host), map) := by
  have hmapLine := classify_mapLine hmap
  have haddressLine : ∀ line ∈ addressLine, classify line = .address := by
    intro line hline
    obtain ⟨address, hpadded⟩ := haddress line hline
    exact classify_addressLine hpadded
  have hreturns : ∀ line ∈ host ++ mapLine :: addressLine.toList,
      classify (dropReturn line) = classify line := by
    intro line hline
    rcases List.mem_append.mp hline with hline | hline
    · rw [dropReturn_eq_self_iff.mpr (hhost line hline).no_return]
    · apply classify_dropReturn
      rcases List.mem_cons.mp hline with rfl | hline
      · rw [isHost, hmapLine]
      · rw [isHost, haddressLine line (Option.mem_toList.mp hline)]
  have hcollect : collect [] none (terminatedLines output) = .ok (host, some map) := by
    rw [collect_congr (houtput.map_records hreturns), collect_hostLines hhost,
      collect_map hmapLine (payload_dataAddress hmedia map), List.append_nil]
    cases addressLine with
    | none => rw [Option.toList_none, collect, List.reverse_reverse]
    | some line =>
      rw [Option.toList_some, collect_address (haddressLine line rfl), collect, List.reverse_reverse]
  rw [InlineMap.split, hcollect]

/-- A host text that ends in blank lines, with both ways to end a line, blanks around the comment with
the map, and the last line left open. -/
theorem split_emission_mixedEndings :
    let host := ["x".toList, [], "y  ".toList, " ".toList]
    let media := "application/json".toList
    let mapLine := "\t//# sourceMappingURL=data:application/json;base64,w6k= ".toList
    let addressLine := "//# sourceURL=[stdin]".toList
    (∀ line ∈ host, IsHostLine line) ∧ ¬payloadMark <:+: media ∧
      Padded (mapComment media "é".toList) mapLine ∧
      Padded (addressMark ++ "[stdin]".toList) addressLine ∧
      ∃ output, Writes (host ++ [mapLine, addressLine]) output ∧
        InlineMap.split output = .ok ("x\n\ny".toList, "é".toList) := by
  intro host media mapLine addressLine
  have hhost : ∀ line ∈ host, IsHostLine line := by
    simp only [host, List.forall_mem_cons]
    exact ⟨⟨by decide, by decide, by decide⟩, ⟨by decide, by decide, by decide⟩,
      ⟨by decide, by decide, by decide⟩, ⟨by decide, by decide, by decide⟩, List.forall_mem_nil _⟩
  have hmedia : ¬payloadMark <:+: media := by decide
  have hmap : Padded (mapComment media "é".toList) mapLine :=
    ⟨['\t'], [' '], by decide, List.forall_mem_singleton.mpr rfl, List.forall_mem_singleton.mpr rfl⟩
  have haddress : Padded (addressMark ++ "[stdin]".toList) addressLine :=
    ⟨[], [], by decide, List.forall_mem_nil _, List.forall_mem_nil _⟩
  have houtput : Writes (host ++ [mapLine, addressLine]) _ :=
    .ended (by decide) .returnFeed <| .ended (by decide) .feed <| .ended (by decide) .returnFeed <|
      .ended (by decide) .feed <| .ended (by decide) .returnFeed <| .last (by decide) (by decide)
  refine ⟨hhost, hmedia, hmap, haddress, _, houtput, ?_⟩
  rw [split_emission host media "é".toList mapLine _ (some addressLine) hhost hmedia hmap
    (by rintro _ ⟨⟩; exact ⟨_, haddress⟩) houtput]
  decide

end DialectBridge.Compiler.InlineMap
