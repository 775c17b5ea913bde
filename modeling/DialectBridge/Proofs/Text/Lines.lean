import DialectBridge.Text.Lines

/-!
# Cutting a text at a separator

`split` undoes the joining of pieces that do not hold the separator.  A single empty piece and no
piece at all are joined to the same text, which is why there has to be a piece.

* `split_append`, `split_intercalate` — cutting a text in two parts, and cutting undoes joining;
* `not_mem_of_mem_split`, `length_split` — what the pieces are, and how many;
* `split_joinLines_set` — replacing a line leaves the others as they are;
* `terminatedLines_of_split` — the records of a text, from its lines.
-/

namespace DialectBridge.Text

variable {sep : Char}

theorem split_cons_sep (cs : List Char) : split sep (sep :: cs) = [] :: split sep cs := by
  simp [split]

theorem split_cons_of_ne {c : Char} {cs piece : List Char} {rest : List (List Char)} (h : c ≠ sep)
    (hcs : split sep cs = piece :: rest) : split sep (c :: cs) = (c :: piece) :: rest := by
  unfold split at hcs ⊢
  rw [List.foldr_cons, if_neg h, hcs]

theorem split_of_not_mem {cs : List Char} (h : sep ∉ cs) : split sep cs = [cs] := by
  induction cs with
  | nil => rfl
  | cons c cs ih =>
    rw [List.mem_cons, not_or] at h
    exact split_cons_of_ne (Ne.symm h.1) (ih h.2)

theorem exists_split_eq_cons (sep : Char) (cs : List Char) :
    ∃ piece rest, split sep cs = piece :: rest := by
  induction cs with
  | nil => exact ⟨[], [], rfl⟩
  | cons c cs ih =>
    obtain ⟨piece, rest, hcs⟩ := ih
    by_cases hc : c = sep
    · subst hc
      exact ⟨[], split c cs, split_cons_sep cs⟩
    · exact ⟨c :: piece, rest, split_cons_of_ne hc hcs⟩

/-- **A text that is cut at a separator is cut on either side of it.** -/
theorem split_append (front back : List Char) :
    split sep (front ++ sep :: back) = split sep front ++ split sep back := by
  induction front with
  | nil => exact split_cons_sep back
  | cons c front ih =>
    by_cases hc : c = sep
    · subst hc
      rw [List.cons_append, split_cons_sep, ih, split_cons_sep, List.cons_append]
    · obtain ⟨piece, rest, hfront⟩ := exists_split_eq_cons sep front
      rw [hfront, List.cons_append] at ih
      rw [List.cons_append, split_cons_of_ne hc ih, split_cons_of_ne hc hfront, List.cons_append]

theorem split_append_sep {piece : List Char} (h : sep ∉ piece) (cs : List Char) :
    split sep (piece ++ sep :: cs) = piece :: split sep cs := by
  rw [split_append, split_of_not_mem h, List.singleton_append]

theorem split_append_of_not_mem {front back piece : List Char} {rest : List (List Char)}
    (h : sep ∉ front) (hback : split sep back = piece :: rest) :
    split sep (front ++ back) = (front ++ piece) :: rest := by
  induction front with
  | nil => exact hback
  | cons c front ih =>
    rw [List.mem_cons, not_or] at h
    exact split_cons_of_ne (Ne.symm h.1) (ih h.2)

theorem mem_intercalate_singleton {c : Char} {pieces : List (List Char)}
    (h : c ∈ List.intercalate [sep] pieces) : c = sep ∨ ∃ piece ∈ pieces, c ∈ piece := by
  induction pieces with
  | nil => cases h
  | cons piece pieces ih =>
    cases pieces with
    | nil =>
      rw [List.intercalate_singleton] at h
      exact .inr ⟨piece, List.mem_cons_self, h⟩
    | cons next rest =>
      rw [List.intercalate_cons_cons, List.mem_append, List.mem_append, List.mem_singleton] at h
      rcases h with (h | h) | h
      · exact .inr ⟨piece, List.mem_cons_self, h⟩
      · exact .inl h
      · rcases ih h with hsep | ⟨p, hp, hc⟩
        · exact .inl hsep
        · exact .inr ⟨p, List.mem_cons_of_mem _ hp, hc⟩

/-- **Cutting undoes joining**, for at least one piece. -/
theorem split_intercalate {pieces : List (List Char)} (hne : pieces ≠ [])
    (h : ∀ piece ∈ pieces, sep ∉ piece) : split sep (List.intercalate [sep] pieces) = pieces := by
  induction pieces with
  | nil => exact absurd rfl hne
  | cons piece pieces ih =>
    have hpiece : sep ∉ piece := h piece List.mem_cons_self
    cases pieces with
    | nil =>
      rw [List.intercalate_singleton]
      exact split_of_not_mem hpiece
    | cons next rest =>
      rw [List.intercalate_cons_cons, List.append_assoc, List.singleton_append,
        split_append_sep hpiece, ih (by simp) fun p hp => h p (List.mem_cons_of_mem _ hp)]

/-! ## The pieces of a text -/

/-- No piece holds the separator. -/
theorem not_mem_of_mem_split {cs piece : List Char} (h : piece ∈ split sep cs) : sep ∉ piece := by
  induction cs generalizing piece with
  | nil =>
    rw [List.mem_singleton.mp h]
    exact List.not_mem_nil
  | cons c cs ih =>
    by_cases hc : c = sep
    · subst hc
      rw [split_cons_sep, List.mem_cons] at h
      obtain rfl | h := h
      · exact List.not_mem_nil
      · exact ih h
    · obtain ⟨first, rest, hcs⟩ := exists_split_eq_cons sep cs
      rw [hcs] at ih
      rw [split_cons_of_ne hc hcs, List.mem_cons] at h
      obtain rfl | h := h
      · rw [List.mem_cons, not_or]
        exact ⟨Ne.symm hc, ih List.mem_cons_self⟩
      · exact ih (List.mem_cons_of_mem _ h)

/-- There is one piece more than there are separators. -/
theorem length_split (cs : List Char) : (split sep cs).length = cs.count sep + 1 := by
  induction cs with
  | nil => rfl
  | cons c cs ih =>
    by_cases hc : c = sep
    · subst hc
      rw [split_cons_sep, List.length_cons, ih, List.count_cons_self]
    · obtain ⟨first, rest, hcs⟩ := exists_split_eq_cons sep cs
      rw [split_cons_of_ne hc hcs, List.count_cons_of_ne hc, ← ih, hcs]
      rfl

theorem length_split_newline (cs : List Char) : (split '\n' cs).length = lineCount cs :=
  length_split cs

/-- **Replacing a line replaces that line and no other**, if no line feed comes with it. -/
theorem split_joinLines_set {line : List Char} (hline : '\n' ∉ line) (cs : List Char) (n : Nat) :
    split '\n' (joinLines ((split '\n' cs).set n line)) = (split '\n' cs).set n line := by
  obtain ⟨first, rest, hcs⟩ := exists_split_eq_cons '\n' cs
  refine split_intercalate (by rw [hcs]; cases n <;> simp) fun piece hpiece => ?_
  obtain hpiece | rfl := List.mem_or_eq_of_mem_set hpiece
  · exact not_mem_of_mem_split hpiece
  · exact hline

theorem newline_not_mem_dropReturn {raw : List Char} (h : '\n' ∉ raw) : '\n' ∉ dropReturn raw := by
  unfold dropReturn
  split
  · exact fun hmem => h (List.dropLast_subset raw hmem)
  · exact h

theorem newline_not_mem_lineAt? {cs line : List Char} {n : Nat} (h : lineAt? cs n = some line) :
    '\n' ∉ line := by
  obtain ⟨raw, hraw, rfl⟩ := Option.map_eq_some_iff.mp h
  exact newline_not_mem_dropReturn (not_mem_of_mem_split (List.mem_of_getElem? hraw))

/-! ## Records -/

theorem newline_not_mem_terminatedLines {cs line : List Char} (h : line ∈ terminatedLines cs) :
    '\n' ∉ line := by
  unfold terminatedLines at h
  rcases List.mem_append.mp h with h | h
  · obtain ⟨raw, hraw, rfl⟩ := List.mem_map.mp h
    exact newline_not_mem_dropReturn (not_mem_of_mem_split (List.dropLast_subset _ hraw))
  · cases hlast : (split '\n' cs).getLast? with
    | none => simp [hlast] at h
    | some last =>
      rw [hlast] at h
      simp only at h
      split at h
      · cases h
      · rw [List.mem_singleton.mp h]
        exact not_mem_of_mem_split (List.mem_of_getLast? hlast)

/-- A text whose last line is not empty has a record for each of its lines. -/
theorem terminatedLines_of_split {cs last : List Char} {lines : List (List Char)}
    (h : split '\n' cs = lines ++ [last]) (hne : last ≠ []) :
    terminatedLines cs = lines.map dropReturn ++ [last] := by
  simp [terminatedLines, h, hne]

end DialectBridge.Text
