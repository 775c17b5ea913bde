import DialectBridge.Compiler.InlineMap
import DialectBridge.Proofs.Text.Records
import Mathlib.Data.List.TakeWhile

/-!
# The lines of the host text

The source map that comes with a host text counts the lines of the compiler's output.  The host text
is that output without the lines that look like the comment of a map or of a source address, wherever
they stand.  One that stands before the end of the host text moves all lines behind it.

* `collect_eq_ok`, `split_eq_ok` — the host text is made of the lines that are no such comments;
* `trimEnd_joinLines` — it ends with the last of them that is not blank;
* `Aligned` — line by line the host text is what the compiler wrote;
* `aligned_iff` — it is so just if there is no such comment among as many lines as it has.
-/

namespace DialectBridge.Text

/-- All lines but the last one are followed by a line feed. -/
theorem joinLines_concat (init : List (List Char)) (last : List Char) :
    joinLines (init ++ [last]) = init.flatMap (· ++ ['\n']) ++ last := by
  induction init with
  | nil => exact List.intercalate_singleton
  | cons first init ih =>
    obtain ⟨next, rest, hrest⟩ : ∃ next rest, init ++ [last] = next :: rest := by
      cases init <;> simp
    rw [List.cons_append, joinLines, hrest, List.intercalate_cons_cons, ← hrest, ← joinLines, ih,
      List.flatMap_cons]
    simp only [List.append_assoc]

/-- **A text without the blanks at its end** ends with its last line that is not blank. -/
theorem trimEnd_joinLines {lines : List (List Char)} (h : trimEnd (joinLines lines) ≠ []) :
    ∃ before line after, lines = before ++ line :: after ∧ isBlankText line = false ∧
      (∀ l ∈ after, isBlankText l = true) ∧
      trimEnd (joinLines lines) = joinLines (before ++ [trimEnd line]) := by
  induction lines using List.reverseRecOn with
  | nil => exact absurd rfl h
  | append_singleton init last ih =>
    have hjoin := trimEnd_append_eq (init.flatMap (· ++ ['\n'])) last
    rw [← joinLines_concat] at hjoin
    cases hlast : isBlankText last with
    | false =>
      refine ⟨init, last, [], rfl, hlast, nofun, ?_⟩
      rw [hjoin, if_neg (by simp [hlast]), joinLines_concat]
    | true =>
      -- a blank line goes, with the line feed before it
      have hinit : trimEnd (joinLines (init ++ [last])) = trimEnd (joinLines init) := by
        rw [hjoin, if_pos hlast]
        rcases List.eq_nil_or_concat init with rfl | ⟨init, prev, rfl⟩
        · rfl
        · rw [List.concat_eq_append, joinLines_concat, List.flatMap_append, List.flatMap_singleton,
            ← List.append_assoc]
          exact trimEnd_append_blank (List.forall_mem_singleton.mpr rfl) _
      rw [hinit] at h ⊢
      obtain ⟨before, line, after, rfl, hline, hafter, hends⟩ := ih h
      refine ⟨before, line, after ++ [last], by simp, hline, ?_, hends⟩
      intro l hl
      rcases List.mem_append.mp hl with hl | hl
      · exact hafter l hl
      · rw [List.mem_singleton.mp hl]
        exact hlast

end DialectBridge.Text

namespace DialectBridge.Compiler.InlineMap

open Text

/-- The line is part of the host text. -/
def isHost (line : List Char) : Bool :=
  match classify line with
  | .host _ => true
  | _ => false

/-- Line by line the host text is what the compiler wrote, up to blanks at its end. -/
def Aligned (output host : List Char) : Prop :=
  ∀ n line, (terminatedLines host)[n]? = some line →
    ∃ written, (terminatedLines output)[n]? = some written ∧
      (line = written ∨ n + 1 = (terminatedLines host).length ∧ trimEnd line = trimEnd written)

variable {output host map line : List Char} {lines before : List (List Char)}

/-! ## What is left out -/

theorem classify_host {text : List Char} (h : classify line = .host text) : text = line := by
  unfold classify at h
  simp only at h
  split at h
  · cases h
  · split at h
    · cases h
    · exact (Line.host.inj h).symm

/-- Blanks around a line do not matter for what it is. -/
theorem isHost_congr {other : List Char} (h : trimEnd line = trimEnd other) :
    isHost line = isHost other := by
  have htrim := trim_eq_of_trimEnd_eq h
  simp only [isHost, classify, htrim]
  cases mapMark.isPrefixOf? (trim other) with
  | some address => rfl
  | none => cases addressMark.isPrefixOf (trim other) <;> rfl

theorem collect_eq_ok {collected : List (List Char)} {found found' : Option (List Char)}
    (h : collect before found lines = .ok (collected, found')) :
    collected = before.reverse ++ lines.filter isHost := by
  induction lines generalizing before found with
  | nil =>
    simp only [collect, Except.ok.injEq, Prod.mk.injEq] at h
    simp [h.1]
  | cons line lines ih =>
    unfold collect at h
    cases hkind : classify line with
    | host text =>
      rw [hkind] at h
      obtain rfl := classify_host hkind
      rw [ih h, List.filter_cons_of_pos (by simp [isHost, hkind])]
      simp
    | address =>
      rw [hkind] at h
      rw [ih h, List.filter_cons_of_neg (by simp [isHost, hkind])]
    | map address =>
      rw [hkind] at h
      simp only at h
      split at h
      · rw [ih h, List.filter_cons_of_neg (by simp [isHost, hkind])]
      · cases h

theorem split_eq_ok (h : InlineMap.split output = .ok (host, map)) :
    host = trimEnd (joinLines ((terminatedLines output).filter isHost)) := by
  unfold InlineMap.split at h
  split at h
  · cases h
  · cases h
  · rename_i collected found hcollect
    obtain ⟨rfl, rfl⟩ := Prod.mk.inj (Except.ok.inj h)
    rw [collect_eq_ok hcollect]
    rfl

/-! ## What is left -/

/-- **The lines of the host text** are those lines of the output that are no comments, up to the last
one that is not blank. -/
theorem split_host (h : InlineMap.split output = .ok (host, map)) (hne : host ≠ []) :
    ∃ before line after, (terminatedLines output).filter isHost = before ++ line :: after ∧
      isBlankText line = false ∧ (∀ l ∈ after, isBlankText l = true) ∧
      Text.split '\n' host = before ++ [trimEnd line] := by
  have hhost := split_eq_ok h
  rw [hhost] at hne
  obtain ⟨before, line, after, hlines, hline, hafter, hends⟩ := trimEnd_joinLines hne
  refine ⟨before, line, after, hlines, hline, hafter, ?_⟩
  rw [hhost, hends]
  apply split_intercalate (by simp)
  intro piece hpiece
  have hpieces : ∀ l ∈ before ++ line :: after, '\n' ∉ l := by
    intro l hl
    rw [← hlines] at hl
    exact newline_not_mem_terminatedLines (List.mem_filter.mp hl).1
  rcases List.mem_append.mp hpiece with hpiece | hpiece
  · exact hpieces piece (by simp [hpiece])
  · rw [List.mem_singleton.mp hpiece]
    intro hmem
    exact hpieces line (by simp) ((List.rdropWhile_prefix isBlank line).subset hmem)

/-- Nothing is filtered out before a number of lines is reached. -/
theorem take_filter {n : Nat} (hall : ∀ l ∈ lines.take n, isHost l = true)
    (hlength : n ≤ (lines.filter isHost).length) : (lines.filter isHost).take n = lines.take n := by
  have hle : n ≤ lines.length := Nat.le_trans hlength (List.length_filter_le _ _)
  have hsplit : lines.filter isHost = lines.take n ++ (lines.drop n).filter isHost := by
    conv => lhs; rw [← List.take_append_drop n lines]
    rw [List.filter_append, List.filter_eq_self.mpr hall]
  have htake : (lines.take n).length = n := by rw [List.length_take]; omega
  rw [hsplit, List.take_append_of_le_length (by omega), List.take_take, Nat.min_self]

/-- Up to blanks at its end, a line of the host text is a line of the output that is no comment. -/
theorem exists_kept {n : Nat} {l : List Char}
    (h : (before.map dropReturn ++ [trimEnd line])[n]? = some l) (after : List (List Char)) :
    ∃ raw, (before ++ line :: after)[n]? = some raw ∧ trimEnd l = trimEnd raw := by
  have hsame : (before.map dropReturn ++ [trimEnd line]).map trimEnd =
      (before ++ [line]).map trimEnd := by
    simp [trimEnd_dropReturn, trimEnd_trimEnd]
  have htrimmed : ((before ++ [line]).map trimEnd)[n]? = some (trimEnd l) := by
    rw [← hsame, List.getElem?_map, h, Option.map_some]
  rw [List.getElem?_map, Option.map_eq_some_iff] at htrimmed
  obtain ⟨raw, hraw, htrim⟩ := htrimmed
  refine ⟨raw, ?_, htrim.symm⟩
  rw [List.append_cons, List.getElem?_append_left (List.getElem?_eq_some_iff.mp hraw).1, hraw]

/-- Where the lines agree, no comment stands among them: the first one would have to be a line of the
host text. -/
theorem isHost_of_aligned {after : List (List Char)}
    (hkept : (terminatedLines output).filter isHost = before ++ line :: after)
    (hrecords : terminatedLines host = before.map dropReturn ++ [trimEnd line])
    (haligned : Aligned output host) :
    ∀ l ∈ (terminatedLines output).take (before.length + 1), isHost l = true := by
  have hlines := List.takeWhile_append_dropWhile (p := isHost) (l := terminatedLines output)
  have hleading : ∀ l ∈ (terminatedLines output).takeWhile isHost, isHost l = true :=
    fun l => List.mem_takeWhile_imp
  generalize (terminatedLines output).takeWhile isHost = leading at hlines hleading
  by_cases hlength : before.length + 1 ≤ leading.length
  · intro l hl
    rw [← hlines, List.take_append_of_le_length hlength] at hl
    exact hleading l (List.mem_of_mem_take hl)
  · exfalso
    obtain ⟨l, hl⟩ : ∃ l, (terminatedLines host)[leading.length]? = some l := by
      rw [hrecords]
      exact ⟨_, List.getElem?_eq_getElem (by simp; omega)⟩
    obtain ⟨written, hwritten, hsame⟩ := haligned _ l hl
    have hcomment : isHost written = false := by
      have hhead := List.head?_dropWhile_not isHost (terminatedLines output)
      rw [← hlines, List.getElem?_append_right (Nat.le_refl _), Nat.sub_self] at hwritten
      rw [List.head?_eq_getElem?, hwritten] at hhead
      simpa using hhead
    rw [hrecords] at hl
    obtain ⟨raw, hraw, htrim⟩ := exists_kept hl after
    have hhost : isHost raw = true := by
      rw [← hkept] at hraw
      exact (List.mem_filter.mp (List.mem_of_getElem? hraw)).2
    have hwrong : trimEnd raw = trimEnd written := by
      rw [← htrim]
      rcases hsame with rfl | ⟨-, hsame⟩
      · rfl
      · exact hsame
    rw [isHost_congr hwrong, hcomment] at hhost
    cases hhost

/-- Where the lines of the host text come first, only a carriage return at the end of one that is not
the last makes a difference. -/
theorem aligned_of_take (hrecords : terminatedLines host = before.map dropReturn ++ [trimEnd line])
    (hfirst : (terminatedLines output).take (before.length + 1) = before ++ [line]) :
    Aligned output host ↔ ∀ l ∈ before, l.getLast? ≠ some '\r' := by
  have hwritten {n : Nat} (hn : n < before.length + 1) :
      (terminatedLines output)[n]? = (before ++ [line])[n]? := by
    rw [← hfirst, List.getElem?_take_of_lt hn]
  unfold Aligned
  rw [hrecords]
  constructor
  · intro haligned l hl
    obtain ⟨n, hn, rfl⟩ := List.mem_iff_getElem.mp hl
    have hrecord : (before.map dropReturn ++ [trimEnd line])[n]? = some (dropReturn before[n]) := by
      rw [List.getElem?_append_left (by simpa using hn), List.getElem?_map,
        List.getElem?_eq_getElem hn, Option.map_some]
    obtain ⟨written, heq, hsame⟩ := haligned n _ hrecord
    rw [hwritten (by omega), List.getElem?_append_left hn, List.getElem?_eq_getElem hn,
      Option.some.injEq] at heq
    rw [← heq] at hsame
    rcases hsame with hsame | ⟨hlast, -⟩
    · exact dropReturn_eq_self_iff.mp hsame
    · rw [List.length_append, List.length_map, List.length_singleton] at hlast
      omega
  · intro hreturns n l hl
    by_cases hn : n < before.length
    · rw [List.getElem?_append_left (by simpa using hn), List.getElem?_map,
        List.getElem?_eq_getElem hn, Option.map_some, Option.some.injEq] at hl
      refine ⟨before[n], ?_, .inl ?_⟩
      · rw [hwritten (by omega), List.getElem?_append_left hn, List.getElem?_eq_getElem hn]
      · rw [← hl]
        exact dropReturn_eq_self_iff.mpr (hreturns _ (List.getElem_mem hn))
    · obtain ⟨hlt, -⟩ := List.getElem?_eq_some_iff.mp hl
      rw [List.length_append, List.length_map, List.length_singleton] at hlt
      obtain rfl : n = before.length := by omega
      obtain rfl : trimEnd line = l := by simpa using hl
      refine ⟨line, ?_, .inr ⟨by simp, trimEnd_trimEnd line⟩⟩
      rw [hwritten (by omega), List.getElem?_concat_length]

/-- **The lines of the host text and of the output.**  The host text has the lines of the output that
are no comments, up to the last one that is not blank.  It agrees with the output line by line if and
only if there is no comment among as many lines of the output as it has, and none of them but the last
one has a carriage return left at its end. -/
theorem aligned_iff (output host map : List Char) (hsplit : InlineMap.split output = .ok (host, map))
    (hne : host ≠ []) :
    (∃ before line after, (terminatedLines output).filter isHost = before ++ line :: after ∧
      isBlankText line = false ∧ (∀ l ∈ after, isBlankText l = true) ∧
      Text.split '\n' host = before ++ [trimEnd line]) ∧
    (Aligned output host ↔
      (∀ line ∈ (terminatedLines output).take (lineCount host), isHost line = true) ∧
      ∀ line ∈ (terminatedLines output).take (lineCount host - 1), line.getLast? ≠ some '\r') := by
  refine ⟨split_host hsplit hne, ?_⟩
  obtain ⟨before, line, after, hkept, hline, -, hhost⟩ := split_host hsplit hne
  have hcount : lineCount host = before.length + 1 := by
    rw [← length_split_newline, hhost, List.length_append, List.length_singleton]
  have hrecords : terminatedLines host = before.map dropReturn ++ [trimEnd line] := by
    apply terminatedLines_of_split hhost
    rw [Ne, trimEnd_eq_nil_iff, hline]
    decide
  rw [hcount, Nat.add_sub_cancel]
  have hfirst (hall : ∀ l ∈ (terminatedLines output).take (before.length + 1), isHost l = true) :
      (terminatedLines output).take (before.length + 1) = before ++ [line] := by
    rw [← take_filter hall (by rw [hkept]; simp), hkept, List.append_cons,
      List.take_left' (by simp)]
  have hinit (hall : ∀ l ∈ (terminatedLines output).take (before.length + 1), isHost l = true) :
      (terminatedLines output).take before.length = before := by
    have htake := congrArg (List.take before.length) (hfirst hall)
    rwa [List.take_take, Nat.min_eq_left (Nat.le_succ _), List.take_left' rfl] at htake
  constructor
  · intro haligned
    have hall := isHost_of_aligned hkept hrecords haligned
    rw [hinit hall]
    exact ⟨hall, (aligned_of_take hrecords (hfirst hall)).mp haligned⟩
  · rintro ⟨hall, hreturns⟩
    rw [hinit hall] at hreturns
    exact (aligned_of_take hrecords (hfirst hall)).mpr hreturns

/-- A block comment of the program with a line that looks like a comment of the compiler. -/
theorem aligned_iff_blockComment :
    let output := "/*\n//# sourceURL=x\n*/\nx = 1;\n\n//# sourceMappingURL=data:;base64,bQ==\n".toList
    InlineMap.split output = .ok ("/*\n*/\nx = 1;".toList, "m".toList) ∧
      ¬ Aligned output "/*\n*/\nx = 1;".toList := by
  intro output
  have hsplit : InlineMap.split output = .ok ("/*\n*/\nx = 1;".toList, "m".toList) := by
    decide +kernel
  refine ⟨hsplit, ?_⟩
  rw [(aligned_iff output _ _ hsplit (by decide)).2]
  decide +kernel

end DialectBridge.Compiler.InlineMap
