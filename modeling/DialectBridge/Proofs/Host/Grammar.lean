import DialectBridge.Proofs.Host.Frame
import DialectBridge.Proofs.Text.WellFormed

/-!
# The grammar of frames

A frame is lines and a body: any number of blank lines, headers, a blank line, and as many bytes as
the last header of a length tells.  The reader takes just that, from a stream that comes in one piece
or in many.

* `Framed`, `OnlyBlank` — the grammar;
* `lengthValue?_trimEnd` — which headers tell a length;
* `lines_induction`, `scan_line_cases` — going over a stream by its lines, and what a line can be;
* `tellsAll_iff` — the last header of a length counts;
* `scan_started`, `next_eq_message_iff` — a message behind headers, and from the start;
* `next_eq_ended_iff`, `next_eq_failed_iff` — no message, and errors;
* `readPieces_eq` — it does not matter how the stream is cut into pieces;
* `frame_grammar` — the reader accepts its grammar, ends on blank lines, and fails on all the rest.
-/

namespace DialectBridge.Host.Frame

/-! ## The grammar -/

/-- The bytes of a line, and the bytes behind it: the line ends at its line feed, or with the
stream. -/
inductive IsLine : List UInt8 → List UInt8 → Prop where
  | ended {line rest : List UInt8} (h : 10 ∉ line) : IsLine (line ++ [10]) rest
  | last {line : List UInt8} (h : 10 ∉ line) (hne : line ≠ []) : IsLine line []

/-- A stream has lines with the given texts, and then a rest. -/
inductive Lines : List (List Char) → List UInt8 → List UInt8 → Prop where
  | nil (rest : List UInt8) : Lines [] rest rest
  | cons {text : List Char} {texts : List (List Char)} {bytes rest : List UInt8}
      (first : IsLine (Text.Utf8.encode text) bytes) (others : Lines texts bytes rest) :
      Lines (text :: texts) (Text.Utf8.encode text ++ bytes) rest

/-- A header of a length, and its value: what stands behind the name, without blanks around it.  Case
does not matter in the name. -/
def LengthValue (text value : List Char) : Prop :=
  ∃ name rest, text = name ++ rest ∧ name.map Char.toLower = lengthName ∧
    value = Text.trim rest

/-- A header of a length tells a number. -/
def TellsLength (text : List Char) (n : Nat) : Prop :=
  ∃ value, LengthValue text value ∧ Text.IsNumeral UInt64.size value n

/-- The last header of a length tells `n`. -/
def LastTells (headers : List (List Char)) (n : Nat) : Prop :=
  ∃ before header after, headers = before ++ header :: after ∧ TellsLength header n ∧
    ∀ text ∈ after, ∀ value, ¬ LengthValue text value

/-- A stream starts with a frame of a value: blank lines, headers, a blank line and a body.  All
headers of a length tell a number; the last of them tells how many bytes the body has. -/
def Framed (bytes : List UInt8) (value : Json) (rest : List UInt8) : Prop :=
  ∃ (blanks headers : List (List Char)) (blank : List Char) (content : List UInt8),
    Lines (blanks ++ (headers ++ [blank])) bytes (content ++ rest) ∧
    (∀ text ∈ blanks, Text.isBlankText text = true) ∧
    headers ≠ [] ∧ (∀ text ∈ headers, Text.isBlankText text = false) ∧
    Text.isBlankText blank = true ∧
    (∀ text ∈ headers, ∀ v, LengthValue text v → ∃ n, Text.IsNumeral UInt64.size v n) ∧
    LastTells headers content.length ∧
    Json.parseBytes? content = some value

/-- A stream of blank lines. -/
def OnlyBlank (bytes : List UInt8) : Prop :=
  ∃ blanks, Lines blanks bytes [] ∧ ∀ text ∈ blanks, Text.isBlankText text = true

variable {h h' : Headers} {line bytes rest content : List UInt8} {text value : List Char}
  {headers : List (List Char)} {json : Json} {length length' : Option Nat} {n : Nat}

/-! ## Headers of a length -/

theorem trimEnd_name {name : List Char} (hname : name.map Char.toLower = lengthName) :
    Text.trimEnd name = name := by
  obtain ⟨init, last, rfl⟩ : ∃ init last, name = init ++ [last] := by
    refine ⟨_, _, (List.dropLast_concat_getLast ?_).symm⟩
    rintro rfl
    cases hname
  have hlast : last.toLower = ':' := by
    have hend := congrArg List.getLast? hname
    rw [List.map_append, List.map_singleton, List.getLast?_concat] at hend
    exact Option.some.inj hend
  rw [Text.eq_colon_of_toLower hlast]
  exact Text.trimEnd_append (by simp) (List.forall_mem_singleton.mpr rfl) init

/-- **A header is recognised with its blanks or without them.** -/
theorem lengthValue?_trimEnd :
    lengthValue? (Text.trimEnd text) = some value ↔ LengthValue text value := by
  unfold lengthValue?
  constructor
  · intro hvalue
    split at hvalue
    · rename_i hname
      obtain ⟨blanks, htext, hblanks⟩ := Text.exists_trimEnd_append text
      refine ⟨(Text.trimEnd text).take lengthName.length,
        (Text.trimEnd text).drop lengthName.length ++ blanks, ?_, hname, ?_⟩
      · rw [← List.append_assoc, List.take_append_drop]
        exact htext
      · rw [← Option.some.inj hvalue]
        exact Text.trim_eq_of_trimEnd_eq (Text.trimEnd_append_blank hblanks _).symm
    · cases hvalue
  · rintro ⟨name, rest, rfl, hname, rfl⟩
    have htrim : Text.trimEnd (name ++ rest) = name ++ Text.trimEnd rest := by
      rw [Text.trimEnd_append_eq]
      split
      · rename_i hblank
        rw [trimEnd_name hname, Text.trimEnd_eq_nil_iff.mpr hblank, List.append_nil]
      · rfl
    have hlength : lengthName.length = name.length := by
      rw [← hname, List.length_map]
    rw [htrim, hlength, List.take_left, List.drop_left, if_pos hname]
    exact congrArg some (Text.trim_eq_of_trimEnd_eq (Text.trimEnd_trimEnd rest))

theorem lengthValue?_trimEnd_eq_none :
    lengthValue? (Text.trimEnd text) = none ↔ ∀ value, ¬ LengthValue text value := by
  rw [Option.eq_none_iff_forall_ne_some]
  exact forall_congr' fun value => not_congr lengthValue?_trimEnd

theorem LengthValue.unique {value' : List Char} (hv : LengthValue text value)
    (hv' : LengthValue text value') : value = value' := by
  rw [← lengthValue?_trimEnd] at hv hv'
  rw [hv] at hv'
  exact Option.some.inj hv'

/-! ## Lines -/

/-- What a header does to the length that was told before it. -/
inductive Tells (text : List Char) : Option Nat → Option Nat → Prop where
  | other {length : Option Nat} (h : ∀ value, ¬ LengthValue text value) : Tells text length length
  | length {length : Option Nat} {n : Nat} (h : TellsLength text n) : Tells text length (some n)

theorem line_blank (h : Headers) (hblank : Text.isBlankText text = true) :
    h.line (Text.Utf8.encode text) = if h.started then .body h.length else .go h := by
  simp only [Headers.line, Text.Utf8.decode?_encode, Text.isEmpty_trimEnd, hblank, if_true]

theorem line_header (hblank : Text.isBlankText text = false)
    (htells : Tells text h.length length') :
    h.line (Text.Utf8.encode text) = .go ⟨length', true⟩ := by
  simp only [Headers.line, Text.Utf8.decode?_encode, Text.isEmpty_trimEnd, hblank,
    Bool.false_eq_true, if_false]
  cases htells with
  | other hnone => simp only [lengthValue?_trimEnd_eq_none.mpr hnone]
  | length htells =>
    obtain ⟨value, hvalue, hnumeral⟩ := htells
    simp only [lengthValue?_trimEnd.mpr hvalue, Text.numeral?_eq_some_iff.mpr hnumeral]

theorem line_badLength (h : Headers) (hblank : Text.isBlankText text = false)
    (hvalue : lengthValue? (Text.trimEnd text) = some value)
    (hnumeral : Text.numeral? UInt64.size value = none) :
    h.line (Text.Utf8.encode text) = .fail (.badLength (String.ofList value)) := by
  simp only [Headers.line, Text.Utf8.decode?_encode, Text.isEmpty_trimEnd, hblank,
    Bool.false_eq_true, if_false, hvalue, hnumeral]

/-- **Induction over the lines of a stream.** -/
theorem lines_induction {motive : List UInt8 → Prop} (nil : motive [])
    (line : ∀ line rest, IsLine line rest → motive rest → motive (line ++ rest))
    (bytes : List UInt8) : motive bytes := by
  induction hsize : bytes.length using Nat.strong_induction_on generalizing bytes
  rename_i size ih
  by_cases hmem : 10 ∈ bytes
  · obtain ⟨first, rest, rfl, hfirst⟩ := List.eq_append_cons_of_mem hmem
    rw [List.length_append, List.length_cons] at hsize
    rw [← List.singleton_append, ← List.append_assoc]
    exact line _ _ (.ended hfirst) (ih rest.length (by omega) rest rfl)
  · by_cases hne : bytes = []
    · rw [hne]
      exact nil
    · rw [← List.append_nil bytes]
      exact line _ _ (.last hmem hne) nil

/-- The reader goes over a line in one step. -/
theorem scan_isLine (hline : IsLine line rest) :
    scan true h [] (line ++ rest) = (h.line line).next true rest := by
  cases hline with
  | ended hnewline =>
    rw [List.append_assoc, List.singleton_append]
    exact scan_line hnewline
  | last hnewline hne =>
    rw [List.append_nil]
    exact scan_last hnewline hne

variable {tail : List UInt8}

/-- Blank lines before the headers do not count. -/
theorem next_blank (hline : IsLine (Text.Utf8.encode text) tail)
    (hblank : Text.isBlankText text = true) :
    next true (Text.Utf8.encode text ++ tail) = next true tail := by
  rw [next, scan_isLine hline, line_blank _ hblank]
  rfl

/-- The blank line behind the headers ends them. -/
theorem scan_blank (hline : IsLine (Text.Utf8.encode text) tail)
    (hblank : Text.isBlankText text = true) :
    scan true ⟨length, true⟩ [] (Text.Utf8.encode text ++ tail) = body true length tail := by
  rw [scan_isLine hline, line_blank _ hblank]
  rfl

/-- A header may tell the length. -/
theorem scan_header (hline : IsLine (Text.Utf8.encode text) tail)
    (hblank : Text.isBlankText text = false) (htells : Tells text h.length length') :
    scan true h [] (Text.Utf8.encode text ++ tail) = scan true ⟨length', true⟩ [] tail := by
  rw [scan_isLine hline, line_header hblank htells, LineEffect.next]

/-- **What a line can be**: an error, a blank line or a header. -/
theorem scan_line_cases (h : Headers) (hline : IsLine line tail) :
    (∃ error, scan true h [] (line ++ tail) = .failed error tail) ∨
      ∃ text, line = Text.Utf8.encode text ∧
        (Text.isBlankText text = true ∨
          Text.isBlankText text = false ∧ ∃ length', Tells text h.length length') := by
  rw [scan_isLine hline]
  cases hdecode : Text.Utf8.decode? line with
  | none => exact .inl ⟨.notUtf8, by rw [Headers.line, hdecode]; rfl⟩
  | some text =>
    obtain rfl := Text.Utf8.decode?_eq_some_iff.mp hdecode
    cases hblank : Text.isBlankText text with
    | true => exact .inr ⟨text, rfl, .inl hblank⟩
    | false =>
      cases hvalue : lengthValue? (Text.trimEnd text) with
      | none =>
        exact .inr ⟨text, rfl, .inr ⟨hblank, _, .other (lengthValue?_trimEnd_eq_none.mp hvalue)⟩⟩
      | some value =>
        cases hnumeral : Text.numeral? UInt64.size value with
        | none =>
          refine .inl ⟨.badLength (String.ofList value), ?_⟩
          rw [line_badLength h hblank hvalue hnumeral, LineEffect.next]
        | some n =>
          exact .inr ⟨text, rfl, .inr ⟨hblank, some n, .length ⟨value,
            lengthValue?_trimEnd.mp hvalue, Text.numeral?_eq_some_iff.mp hnumeral⟩⟩⟩

/-! ## The length that counts -/

/-- What headers do, one after another, to the length that was told before them. -/
inductive TellsAll : List (List Char) → Option Nat → Option Nat → Prop where
  | nil (length : Option Nat) : TellsAll [] length length
  | cons {text : List Char} {headers : List (List Char)} {length length' last : Option Nat}
      (first : Tells text length length') (others : TellsAll headers length' last) :
      TellsAll (text :: headers) length last

theorem TellsLength.unique {m : Nat} (hn : TellsLength text n) (hm : TellsLength text m) :
    n = m := by
  obtain ⟨value, hvalue, hnumeral⟩ := hn
  obtain ⟨value', hvalue', hnumeral'⟩ := hm
  cases hvalue.unique hvalue'
  rw [← Text.numeral?_eq_some_iff] at hnumeral hnumeral'
  rw [hnumeral] at hnumeral'
  exact Option.some.inj hnumeral'

theorem lastTells_cons :
    LastTells (text :: headers) n ↔
      LastTells headers n ∨
        TellsLength text n ∧ ∀ other ∈ headers, ∀ value, ¬ LengthValue other value := by
  constructor
  · rintro ⟨before, header, after, heq, htells, hafter⟩
    cases before with
    | nil =>
      obtain ⟨rfl, rfl⟩ := List.cons.inj heq
      exact .inr ⟨htells, hafter⟩
    | cons first before =>
      obtain ⟨-, rfl⟩ := List.cons.inj heq
      exact .inl ⟨before, header, after, rfl, htells, hafter⟩
  · rintro (⟨before, header, after, rfl, htells, hafter⟩ | ⟨htells, hafter⟩)
    · exact ⟨text :: before, header, after, rfl, htells, hafter⟩
    · exact ⟨[], text, headers, rfl, htells, hafter⟩

/-- **The last header of a length counts**, and the length told before only where there is none. -/
theorem tellsAll_iff :
    TellsAll headers length (some n) ↔
      (∀ text ∈ headers, ∀ v, LengthValue text v → ∃ m, Text.IsNumeral UInt64.size v m) ∧
        (LastTells headers n ∨
          length = some n ∧ ∀ text ∈ headers, ∀ v, ¬ LengthValue text v) := by
  constructor
  · intro hall
    induction headers generalizing length with
    | nil =>
      cases hall
      exact ⟨by simp, .inr ⟨rfl, by simp⟩⟩
    | cons text headers ih =>
      cases hall with
      | cons first others =>
        obtain ⟨hnumerals, hcounts⟩ := ih others
        rw [lastTells_cons, List.forall_mem_cons, List.forall_mem_cons]
        cases first with
        | other hnone =>
          refine ⟨⟨fun v hv => absurd hv (hnone v), hnumerals⟩, ?_⟩
          rcases hcounts with hcounts | ⟨hlength, hothers⟩
          · exact .inl (.inl hcounts)
          · exact .inr ⟨hlength, hnone, hothers⟩
        | length htells =>
          refine ⟨⟨fun v hv => ?_, hnumerals⟩, ?_⟩
          · obtain ⟨value, hvalue, hnumeral⟩ := htells
            rw [hv.unique hvalue]
            exact ⟨_, hnumeral⟩
          · rcases hcounts with hcounts | ⟨hlength, hothers⟩
            · exact .inl (.inl hcounts)
            · rw [← Option.some.inj hlength]
              exact .inl (.inr ⟨htells, hothers⟩)
  · rintro ⟨hnumerals, hcounts⟩
    induction headers generalizing length with
    | nil =>
      rcases hcounts with ⟨before, header, after, heq, -⟩ | ⟨rfl, -⟩
      · simp at heq
      · exact .nil _
    | cons text headers ih =>
      rw [List.forall_mem_cons] at hnumerals
      rw [lastTells_cons, List.forall_mem_cons] at hcounts
      by_cases hnone : ∀ v, ¬ LengthValue text v
      · refine .cons (.other hnone) (ih hnumerals.2 ?_)
        rcases hcounts with (hcounts | ⟨⟨v, hv, -⟩, -⟩) | ⟨hlength, -, hothers⟩
        · exact .inl hcounts
        · exact absurd hv (hnone v)
        · exact .inr ⟨hlength, hothers⟩
      · push Not at hnone
        obtain ⟨v, hv⟩ := hnone
        obtain ⟨m, hm⟩ := hnumerals.1 v hv
        refine .cons (.length ⟨v, hv, hm⟩) (ih hnumerals.2 ?_)
        rcases hcounts with (hcounts | ⟨htells, hothers⟩) | ⟨-, hnone, -⟩
        · exact .inl hcounts
        · rw [htells.unique ⟨v, hv, hm⟩]
          exact .inr ⟨rfl, hothers⟩
        · exact absurd hv (hnone v)

/-! ## Messages -/

theorem body_eq_message_iff :
    body true length bytes = .message json rest ↔
      ∃ content, length = some content.length ∧ bytes = content ++ rest ∧
        Json.parseBytes? content = some json := by
  constructor
  · intro hbody
    cases length with
    | none => cases hbody
    | some n =>
      rw [body] at hbody
      simp only [if_true] at hbody
      split at hbody
      · cases hbody
      · rename_i hlength
        cases hparse : Json.parseBytes? (bytes.take n) with
        | none => simp [hparse] at hbody
        | some json' =>
          simp only [hparse] at hbody
          cases hbody
          have htake : (bytes.take n).length = n := by
            rw [List.length_take] at hlength ⊢
            omega
          exact ⟨bytes.take n, by rw [htake], (List.take_append_drop n bytes).symm, hparse⟩
  · rintro ⟨content, rfl, rfl, hparse⟩
    rw [body]
    simp [hparse]

/-- **A message behind some headers**: more headers, a blank line and the body. -/
theorem scan_started :
    scan true ⟨length, true⟩ [] bytes = .message json rest ↔
      ∃ headers blank content, Lines (headers ++ [blank]) bytes (content ++ rest) ∧
        (∀ text ∈ headers, Text.isBlankText text = false) ∧ Text.isBlankText blank = true ∧
        TellsAll headers length (some content.length) ∧ Json.parseBytes? content = some json := by
  constructor
  · intro hscan
    induction bytes using lines_induction generalizing length with
    | nil => cases hscan
    | line line tail hline ih =>
      rcases scan_line_cases ⟨length, true⟩ hline with
        ⟨error, hfailed⟩ | ⟨text, rfl, hblank | ⟨hblank, length', htells⟩⟩
      · rw [hfailed] at hscan
        cases hscan
      · rw [scan_blank hline hblank] at hscan
        obtain ⟨content, rfl, rfl, hparse⟩ := body_eq_message_iff.mp hscan
        exact ⟨[], text, content, .cons hline (.nil _), by simp, hblank, .nil _, hparse⟩
      · rw [scan_header hline hblank htells] at hscan
        obtain ⟨headers, blank, content, hlines, hheaders, hend, hall, hparse⟩ := ih hscan
        exact ⟨text :: headers, blank, content, .cons hline hlines,
          List.forall_mem_cons.mpr ⟨hblank, hheaders⟩, hend, .cons htells hall, hparse⟩
  · rintro ⟨headers, blank, content, hlines, hheaders, hend, hall, hparse⟩
    induction headers generalizing bytes length with
    | nil =>
      cases hlines with
      | cons first others =>
        cases others
        cases hall
        rw [scan_blank first hend]
        exact body_eq_message_iff.mpr ⟨content, rfl, rfl, hparse⟩
    | cons text headers ih =>
      cases hlines with
      | cons first others =>
        cases hall with
        | cons htells hall =>
          obtain ⟨hblank, hheaders⟩ := List.forall_mem_cons.mp hheaders
          rw [scan_header first hblank htells]
          exact ih others hheaders hall

/-- **A message from the start of a stream.** -/
theorem next_eq_message_iff :
    next true bytes = .message json rest ↔ Framed bytes json rest := by
  constructor
  · intro hnext
    induction bytes using lines_induction with
    | nil => cases hnext
    | line line tail hline ih =>
      rcases scan_line_cases Headers.none hline with
        ⟨error, hfailed⟩ | ⟨text, rfl, hblank | ⟨hblank, length', htells⟩⟩
      · rw [next, hfailed] at hnext
        cases hnext
      · rw [next_blank hline hblank] at hnext
        obtain ⟨blanks, headers, blank, content, hlines, hblanks, hrest⟩ := ih hnext
        exact ⟨text :: blanks, headers, blank, content, .cons hline hlines,
          List.forall_mem_cons.mpr ⟨hblank, hblanks⟩, hrest⟩
      · rw [next, scan_header hline hblank htells] at hnext
        obtain ⟨headers, blank, content, hlines, hheaders, hend, hall, hparse⟩ :=
          scan_started.mp hnext
        obtain ⟨hnumerals, hcounts⟩ := tellsAll_iff.mp (.cons htells hall)
        -- nothing was told before the first header
        have hlast : LastTells (text :: headers) content.length :=
          hcounts.resolve_right fun hnone => by cases hnone.1
        exact ⟨[], text :: headers, blank, content, .cons hline hlines, by simp, by simp,
          List.forall_mem_cons.mpr ⟨hblank, hheaders⟩, hend, hnumerals, hlast, hparse⟩
  · rintro ⟨blanks, headers, blank, content, hlines, hblanks, -, hheaders, hend, hnumerals,
      hlast, hparse⟩
    induction blanks generalizing bytes with
    | nil =>
      have hall : TellsAll headers none (some content.length) :=
        tellsAll_iff.mpr ⟨hnumerals, .inl hlast⟩
      cases hall with
      | cons htells hall =>
        cases hlines with
        | cons first others =>
          obtain ⟨hblank, hheaders⟩ := List.forall_mem_cons.mp hheaders
          rw [next, scan_header first hblank htells]
          exact scan_started.mpr ⟨_, blank, content, others, hheaders, hend, hall, hparse⟩
    | cons text blanks ih =>
      cases hlines with
      | cons first others =>
        obtain ⟨hblank, hblanks⟩ := List.forall_mem_cons.mp hblanks
        rw [next_blank first hblank]
        exact ih others hblanks

/-! ## The end of a stream -/

theorem body_closed_ne :
    body true length bytes ≠ .ended ∧ body true length bytes ≠ .incomplete := by
  cases length with
  | none => simp [body]
  | some n =>
    rw [body]
    simp only [if_true]
    split
    · simp
    · split <;> simp

/-- A stream does not end behind a header. -/
theorem scan_started_ne_ended : scan true ⟨length, true⟩ [] bytes ≠ .ended := by
  intro hscan
  induction bytes using lines_induction generalizing length with
  | nil => cases hscan
  | line line tail hline ih =>
    rcases scan_line_cases ⟨length, true⟩ hline with
      ⟨error, hfailed⟩ | ⟨text, rfl, hblank | ⟨hblank, length', htells⟩⟩
    · rw [hfailed] at hscan
      cases hscan
    · rw [scan_blank hline hblank] at hscan
      exact body_closed_ne.1 hscan
    · rw [scan_header hline hblank htells] at hscan
      exact ih hscan

/-- **A stream ends without a message if it has blank lines only.** -/
theorem next_eq_ended_iff : next true bytes = .ended ↔ OnlyBlank bytes := by
  constructor
  · intro hnext
    induction bytes using lines_induction with
    | nil => exact ⟨[], .nil _, by simp⟩
    | line line tail hline ih =>
      rcases scan_line_cases Headers.none hline with
        ⟨error, hfailed⟩ | ⟨text, rfl, hblank | ⟨hblank, length', htells⟩⟩
      · rw [next, hfailed] at hnext
        cases hnext
      · rw [next_blank hline hblank] at hnext
        obtain ⟨blanks, hlines, hblanks⟩ := ih hnext
        exact ⟨text :: blanks, .cons hline hlines, List.forall_mem_cons.mpr ⟨hblank, hblanks⟩⟩
      · rw [next, scan_header hline hblank htells] at hnext
        exact absurd hnext scan_started_ne_ended
  · rintro ⟨blanks, hlines, hblanks⟩
    induction blanks generalizing bytes with
    | nil =>
      cases hlines
      rfl
    | cons text blanks ih =>
      cases hlines with
      | cons first others =>
        obtain ⟨hblank, hblanks⟩ := List.forall_mem_cons.mp hblanks
        rw [next_blank first hblank]
        exact ih others hblanks

theorem scan_closed_ne_incomplete : scan true h [] bytes ≠ .incomplete := by
  induction bytes using lines_induction generalizing h with
  | nil =>
    intro hscan
    rw [scan, endAfter] at hscan
    simp only [Bool.not_true, Bool.false_eq_true, if_false, List.isEmpty_nil, if_true] at hscan
    split at hscan <;> cases hscan
  | line line tail hline ih =>
    rw [scan_isLine hline]
    cases h.line line with
    | fail error => exact fun hscan => by cases hscan
    | body told => exact body_closed_ne.2
    | go after => exact ih

/-- **In all other cases there is an error.** -/
theorem next_eq_failed_iff :
    (∃ error rest, next true bytes = .failed error rest) ↔
      ¬ OnlyBlank bytes ∧ ∀ value rest, ¬ Framed bytes value rest := by
  rw [← next_eq_ended_iff]
  simp only [← next_eq_message_iff]
  cases hnext : next true bytes with
  | message value rest => simp
  | failed error rest => simp
  | ended => simp
  | incomplete => exact absurd hnext scan_closed_ne_incomplete

/-! ## Streams in pieces -/

/-- The same answer with more bytes behind it. -/
def Next.extend (more : List UInt8) : Next → Next
  | .message value rest => .message value (rest ++ more)
  | .failed error rest => .failed error (rest ++ more)
  | .ended => .ended
  | .incomplete => .incomplete

/-- The first frame of a stream that comes in pieces.  Each time a piece has come the reader looks at
all it has got; while that is not enough it waits for the next one, and at the end it knows that none
will come. -/
def readPieces (got : List UInt8) : List (List UInt8) → Next
  | [] => next true got
  | piece :: pieces =>
    match next false got with
    | .incomplete => readPieces (got ++ piece) pieces
    | answer => answer.extend (piece :: pieces).flatten

theorem body_open (hbody : body false length bytes ≠ .incomplete) (more : List UInt8) :
    body true length (bytes ++ more) = (body false length bytes).extend more := by
  cases length with
  | none => rfl
  | some n =>
    by_cases hlength : (bytes.take n).length < n
    · rw [body, if_pos hlength] at hbody
      exact absurd rfl hbody
    · have hle : n ≤ bytes.length := by
        rw [List.length_take] at hlength
        omega
      rw [body, body]
      simp only [List.take_append_of_le_length hle, List.drop_append_of_le_length hle,
        if_neg hlength]
      cases Json.parseBytes? (bytes.take n) <;> rfl

/-- **An answer stays when more bytes come**: the reader looks no further than the frame. -/
theorem scan_open (hscan : scan false h line bytes ≠ .incomplete) (more : List UInt8) :
    scan true h line (bytes ++ more) = (scan false h line bytes).extend more := by
  induction bytes generalizing h line with
  | nil => exact absurd rfl hscan
  | cons b bytes ih =>
    rw [List.cons_append]
    rw [scan] at hscan ⊢
    rw [scan]
    by_cases hb : b = 10
    · simp only [if_pos hb] at hscan ⊢
      cases heffect : h.line (b :: line).reverse with
      | go after =>
        simp only [heffect] at hscan
        exact ih hscan
      | body told =>
        simp only [heffect] at hscan
        exact body_open hscan more
      | fail error => rfl
    · simp only [if_neg hb] at hscan ⊢
      exact ih hscan

/-- **It does not matter how a stream is cut into pieces.** -/
theorem readPieces_eq (got : List UInt8) (pieces : List (List UInt8)) :
    readPieces got pieces = next true (got ++ pieces.flatten) := by
  induction pieces generalizing got with
  | nil => rw [readPieces, List.flatten_nil, List.append_nil]
  | cons piece pieces ih =>
    rw [readPieces]
    split
    · rw [ih, List.flatten_cons, List.append_assoc]
    · rename_i hanswer
      exact (scan_open hanswer _).symm

/-- **The reader accepts its grammar and nothing else.**  However a stream is cut into pieces, its
first message is a value `v`, with a rest, if and only if the stream is blank lines, headers, a blank
line, the body of `v` and that rest; there is no message if it is blank lines only; and everything
else is an error. -/
theorem frame_grammar (pieces : List (List UInt8)) :
    (∀ value rest, readPieces [] pieces = .message value rest ↔
      Framed pieces.flatten value rest) ∧
    (readPieces [] pieces = .ended ↔ OnlyBlank pieces.flatten) ∧
    ((∃ error rest, readPieces [] pieces = .failed error rest) ↔
      ¬ OnlyBlank pieces.flatten ∧ ∀ value rest, ¬ Framed pieces.flatten value rest) ∧
    readPieces [] pieces = next true pieces.flatten := by
  have hpieces : readPieces [] pieces = next true pieces.flatten := readPieces_eq [] pieces
  rw [hpieces]
  exact ⟨fun value rest => next_eq_message_iff, next_eq_ended_iff, next_eq_failed_iff, rfl⟩

/-- A blank line, two lengths of which the last one counts, and cuts within a header and the body. -/
example :
    let shown : Next → Option (List UInt8 × List UInt8)
      | .message value rest => some (value.bytes, rest)
      | _ => none
    shown (readPieces [] [Text.Utf8.bytesOf "\r\ncontent-length: 9\r\nConte",
      Text.Utf8.bytesOf "nt-Length:4\r\n\r\n[1", Text.Utf8.bytesOf "2]\r\n"]) =
        some (Text.Utf8.bytesOf "[12]", Text.Utf8.bytesOf "\r\n") := by
  decide +kernel

end DialectBridge.Host.Frame
