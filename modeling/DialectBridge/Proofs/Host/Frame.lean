import DialectBridge.Host.Frame
import DialectBridge.Proofs.Text.Ascii

/-!
# Frames of a stream that may be cut off

Messages written one after another and cut anywhere are read back as far as they are whole.  Bodies
may hold anything, line feeds and headers included: the reader takes them by their length.  What a
cut leaves of a frame is an error wherever it falls, even where the length is cut to a shorter
number.

* `scan_append`, `scan_line` — the reader goes over a line in one step;
* `next_write_append` — a whole frame is a message;
* `next_take_write` — a frame that is cut off is an error;
* `readAll_take_stream` — all messages of a stream that is cut off.
-/

namespace DialectBridge.Host.Frame

variable {closed : Bool} {h : Headers} {line bytes rest : List UInt8} {message value : Json}

/-! ## Lines -/

theorem scan_append {bs : List UInt8} (hbs : 10 ∉ bs) (line : List UInt8) :
    scan closed h line (bs ++ rest) = scan closed h (bs.reverse ++ line) rest := by
  induction bs generalizing line with
  | nil => rfl
  | cons b bs ih =>
    rw [List.mem_cons, not_or] at hbs
    rw [List.cons_append, scan, if_neg (Ne.symm hbs.1), ih hbs.2, List.reverse_cons,
      List.append_assoc, List.singleton_append]

/-- How the reader goes on after a line. -/
def LineEffect.next (closed : Bool) (bytes : List UInt8) : LineEffect → Next
  | .go headers => scan closed headers [] bytes
  | .body length => Frame.body closed length bytes
  | .fail error => .failed error bytes

/-- A line that has ended. -/
theorem scan_line {bs : List UInt8} (hbs : 10 ∉ bs) :
    scan closed h [] (bs ++ 10 :: rest) = (h.line (bs ++ [10])).next closed rest := by
  rw [scan_append hbs, List.append_nil, scan, if_pos rfl, List.reverse_cons, List.reverse_reverse]
  cases h.line (bs ++ [10]) <;> rfl

/-- The last line of a stream that has ended. -/
theorem scan_last {bs : List UInt8} (hbs : 10 ∉ bs) (hne : bs ≠ []) :
    scan true h [] bs = (h.line bs).next true [] := by
  have hscan : scan true h [] (bs ++ []) = _ := scan_append hbs []
  rw [List.append_nil, List.append_nil] at hscan
  rw [hscan, scan]
  simp only [Bool.not_true, Bool.false_eq_true, if_false, List.isEmpty_reverse,
    List.isEmpty_eq_false_iff.mpr hne, List.reverse_reverse]
  cases h.line bs <;> rfl

/-- A line with a character that is no blank is a header, or an error. -/
theorem line_of_not_blank {text : List Char} {c : Char} (hascii : ∀ c ∈ text, c.toNat < 128)
    (hc : c ∈ text) (hblank : Text.isBlank c = false) :
    (∃ headers, h.line (Text.Utf8.encode text) = .go headers ∧ headers.started = true) ∨
      ∃ error, h.line (Text.Utf8.encode text) = .fail error := by
  have hne : (Text.trimEnd text).isEmpty = false := by
    rw [List.isEmpty_eq_false_iff]
    exact List.ne_nil_of_mem (Text.mem_trimEnd hc hblank)
  rw [Headers.line, Text.Utf8.decode?_encode_ascii hascii]
  simp only [hne]
  cases lengthValue? (Text.trimEnd text) with
  | none => exact .inl ⟨_, rfl, rfl⟩
  | some value =>
    simp only
    cases Text.numeral? UInt64.size value with
    | none => exact .inr ⟨_, rfl⟩
    | some n => exact .inl ⟨_, rfl, rfl⟩

/-! ## The header of a frame -/

/-- The header of a body of `n` bytes, without its line end. -/
def lengthHeader (n : Nat) : List Char :=
  "Content-Length: ".toList ++ Text.decimal n

theorem lengthHeader_ascii {n : Nat} {c : Char} (hc : c ∈ lengthHeader n) :
    c.toNat < 128 ∧ c ≠ '\n' := by
  rcases List.mem_append.mp hc with hc | hc
  · have hall : ("Content-Length: ".toList.all fun c => c.toNat < 128 && c != '\n') = true := by
      decide
    simpa using List.all_eq_true.mp hall c hc
  · have hdigit := Text.toNat_of_isDigit (Text.isDigit_decimal hc)
    refine ⟨by omega, ?_⟩
    rintro rfl
    exact absurd hdigit (by decide)

theorem lengthValue?_lengthHeader (n : Nat) :
    lengthValue? (lengthHeader n) = some (Text.decimal n) := by
  have hname : ((lengthHeader n).take lengthName.length).map Char.toLower = lengthName := rfl
  have hrest : (lengthHeader n).drop lengthName.length = ' ' :: Text.decimal n := rfl
  rw [lengthValue?, if_pos hname, hrest, Text.trim_cons_blank (by decide) (Text.decimal_ne_nil n)
    fun c hc => Text.not_isBlank_of_isDigit (Text.isDigit_decimal hc)]

/-- The header line of a body of `n` bytes, up to its line feed. -/
def headerLine (n : Nat) : List UInt8 :=
  Text.Utf8.encode (lengthHeader n ++ ['\r'])

theorem headerLine_ascii {n : Nat} {c : Char} (hc : c ∈ lengthHeader n ++ ['\r']) :
    c.toNat < 128 ∧ c ≠ '\n' := by
  rcases List.mem_append.mp hc with hc | hc
  · exact lengthHeader_ascii hc
  · rw [List.mem_singleton.mp hc]
    decide

theorem newline_not_mem_headerLine (n : Nat) : 10 ∉ headerLine n :=
  Text.Utf8.newline_not_mem_encode (fun _ hc => (headerLine_ascii hc).1)
    fun hmem => (headerLine_ascii hmem).2 rfl

/-- The bytes of a frame: a header line, a blank line and the body. -/
theorem write_eq (message : Json) :
    write message = headerLine message.bytes.length ++ 10 :: 13 :: 10 :: message.bytes := by
  have htext : (s!"Content-Length: {message.bytes.length}\r\n\r\n").toList =
      lengthHeader message.bytes.length ++ ['\r'] ++ ['\n', '\r', '\n'] := by
    rw [Nat.toString_eq_ofList_toDigits, List.append_assoc]
    simp only [String.toList_append, String.toList_ofList]
    rfl
  rw [write, Text.Utf8.bytesOf, htext, Text.Utf8.encode_append, List.append_assoc]
  rfl

theorem write_length (message : Json) :
    (write message).length =
      (headerLine message.bytes.length).length + 3 + message.bytes.length := by
  rw [write_eq]
  simp only [List.length_append, List.length_cons]
  omega

theorem lineEnd_blank {c : Char} (hc : c ∈ ['\r', '\n']) :
    c.toNat < 128 ∧ Text.isBlank c = true := by
  simp only [List.mem_cons, List.not_mem_nil, or_false] at hc
  rcases hc with rfl | rfl <;> decide

/-- The header line tells the length, unless no 64-bit number holds it. -/
theorem line_headerLine (n : Nat) :
    h.line (headerLine n ++ [10]) =
      if n < UInt64.size then .go ⟨some n, true⟩
      else .fail (.badLength (String.ofList (Text.decimal n))) := by
  have htext : headerLine n ++ [10] = Text.Utf8.encode (lengthHeader n ++ ['\r', '\n']) := by
    rw [headerLine, Text.Utf8.encode_append, Text.Utf8.encode_append, List.append_assoc]
    rfl
  have hascii : ∀ c ∈ lengthHeader n ++ ['\r', '\n'], c.toNat < 128 := by
    intro c hc
    rcases List.mem_append.mp hc with hc | hc
    · exact (lengthHeader_ascii hc).1
    · exact (lineEnd_blank hc).1
  have htrim : Text.trimEnd (lengthHeader n ++ ['\r', '\n']) = lengthHeader n := by
    rw [Text.trimEnd_append_blank fun c hc => (lineEnd_blank hc).2]
    exact Text.trimEnd_append (Text.decimal_ne_nil n)
      (fun c hc => Text.not_isBlank_of_isDigit (Text.isDigit_decimal hc)) _
  have hfull : (lengthHeader n).isEmpty = false := rfl
  rw [htext, Headers.line, Text.Utf8.decode?_encode_ascii hascii]
  simp only [htrim, hfull, Bool.false_eq_true, if_false, lengthValue?_lengthHeader,
    Text.numeral?_decimal]
  by_cases hn : n < UInt64.size
  · simp only [if_pos hn]
  · simp only [if_neg hn]

theorem next_headerLine (n : Nat) (bytes : List UInt8) :
    next closed (headerLine n ++ 10 :: bytes) =
      if n < UInt64.size then scan closed ⟨some n, true⟩ [] bytes
      else .failed (.badLength (String.ofList (Text.decimal n))) bytes := by
  rw [next, scan_line (newline_not_mem_headerLine n), line_headerLine]
  split <;> rfl

/-- A blank line after the headers is followed by the body. -/
theorem scan_blankLine (length : Option Nat) (bytes : List UInt8) :
    scan closed ⟨length, true⟩ [] (13 :: 10 :: bytes) = body closed length bytes := by
  have hreturn : 10 ∉ [(13 : UInt8)] := by decide
  exact scan_line hreturn

/-! ## Whole frames and frames that are cut off -/

theorem body_append (hparse : Json.parseBytes? message.bytes = some message) :
    body closed (some message.bytes.length) (message.bytes ++ rest) = .message message rest := by
  simp [body, hparse]

theorem body_short {n : Nat} (hshort : bytes.length < n) :
    body true (some n) bytes = .failed .endInBody [] := by
  have htake : (bytes.take n).length < n := by
    rw [List.length_take]
    omega
  rw [body]
  simp only [htake, if_true]

/-- A value is written with a byte at least, for there is none without. -/
theorem bytes_length_pos (hparse : Json.parseBytes? message.bytes = some message) :
    0 < message.bytes.length := by
  rw [List.length_pos_iff]
  intro hnil
  rw [hnil] at hparse
  cases hparse

/-- **A whole frame is a message**, whatever comes behind it. -/
theorem next_write_append (hparse : Json.parseBytes? message.bytes = some message)
    (hlength : message.bytes.length < UInt64.size) :
    next closed (write message ++ rest) = .message message rest := by
  rw [write_eq, List.append_assoc, List.cons_append, List.cons_append, List.cons_append,
    next_headerLine, if_pos hlength, scan_blankLine, body_append hparse]

/-- A header line that is cut off is an error: it is not blank, so no body follows. -/
theorem next_take_headerLine (n : Nat) {k : Nat} (hk : 0 < k) :
    ∃ error rest, next true ((headerLine n).take k) = .failed error rest := by
  have hascii : ∀ c ∈ (lengthHeader n ++ ['\r']).take k, c.toNat < 128 := fun c hc =>
    (headerLine_ascii (List.mem_of_mem_take hc)).1
  have hbs : 10 ∉ (headerLine n).take k := fun hmem =>
    newline_not_mem_headerLine n (List.mem_of_mem_take hmem)
  obtain ⟨j, rfl⟩ := Nat.exists_eq_add_of_lt hk
  have hfirst : 'C' ∈ (lengthHeader n ++ ['\r']).take (0 + j + 1) := List.mem_cons_self
  have hne : (headerLine n).take (0 + j + 1) ≠ [] := List.cons_ne_nil _ _
  rw [next, scan_last hbs hne, headerLine,
    Text.Utf8.take_encode_ascii fun c hc => (headerLine_ascii hc).1]
  rcases line_of_not_blank (h := .none) hascii hfirst (by decide) with
    ⟨headers, hline, hstarted⟩ | ⟨error, hline⟩
  · rw [hline]
    exact ⟨.endInHeaders, [], by simp [LineEffect.next, scan, endAfter, hstarted]⟩
  · rw [hline]
    exact ⟨error, [], rfl⟩

/-- **A frame that is cut off is an error**, wherever the cut is. -/
theorem next_take_write {k : Nat} (hparse : Json.parseBytes? message.bytes = some message)
    (hpos : 0 < k) (hk : k < (write message).length) :
    ∃ error rest, next true ((write message).take k) = .failed error rest := by
  rw [write_length] at hk
  rw [write_eq, List.take_append]
  by_cases hcut : k ≤ (headerLine message.bytes.length).length
  · -- inside the header line
    rw [Nat.sub_eq_zero_of_le hcut, List.take_zero, List.append_nil]
    exact next_take_headerLine _ hpos
  · rw [List.take_of_length_le (by omega)]
    obtain ⟨j, hj⟩ : ∃ j, k - (headerLine message.bytes.length).length = j + 1 :=
      ⟨k - (headerLine message.bytes.length).length - 1, by omega⟩
    rw [hj, List.take_succ_cons, next_headerLine]
    split
    · match j with
      | 0 =>
        -- behind the header line
        exact ⟨_, _, rfl⟩
      | 1 =>
        -- in the blank line
        exact ⟨_, _, body_short (bytes_length_pos hparse)⟩
      | j + 2 =>
        -- in the body
        rw [List.take_succ_cons, List.take_succ_cons, scan_blankLine]
        exact ⟨_, _, body_short (by rw [List.length_take]; omega)⟩
    · exact ⟨_, _, rfl⟩

/-! ## Streams of messages -/

/-- The messages written one after another. -/
def stream (messages : List Json) : List UInt8 :=
  messages.flatMap write

theorem body_rest {length : Option Nat} (hbody : body closed length bytes = .message value rest) :
    rest.length ≤ bytes.length := by
  unfold body at hbody
  split at hbody
  · cases hbody
  · simp only at hbody
    split at hbody
    · split at hbody <;> cases hbody
    · split at hbody
      · cases hbody
        rw [List.length_drop]
        omega
      · cases hbody

theorem endAfter_ne_message (h : Headers) : endAfter h ≠ .message value rest := by
  unfold endAfter
  split <;> simp

/-- A message takes a byte of the stream at least, unless the stream has ended. -/
theorem scan_rest (hscan : scan closed h line bytes = .message value rest) :
    rest.length ≤ bytes.length - 1 := by
  induction bytes generalizing h line with
  | nil =>
    rw [scan] at hscan
    split at hscan
    · cases hscan
    · split at hscan
      · exact absurd hscan (endAfter_ne_message h)
      · split at hscan
        · exact absurd hscan (endAfter_ne_message _)
        · exact body_rest hscan
        · cases hscan
  | cons b bytes ih =>
    rw [List.length_cons, Nat.add_sub_cancel]
    rw [scan] at hscan
    split at hscan
    · split at hscan
      · exact Nat.le_trans (ih hscan) (Nat.sub_le _ _)
      · exact body_rest hscan
      · cases hscan
    · exact Nat.le_trans (ih hscan) (Nat.sub_le _ _)

theorem next_rest (hnext : next true bytes = .message value rest) : rest.length < bytes.length := by
  cases bytes with
  | nil => cases hnext
  | cons b bytes =>
    have := scan_rest hnext
    rw [List.length_cons] at this ⊢
    omega

/-- All messages of a stream that has ended, and what is read behind the last one. -/
def readAll (bytes : List UInt8) : List Json × Next :=
  match hnext : next true bytes with
  | .message value rest =>
    have := next_rest hnext
    let (values, last) := readAll rest
    (value :: values, last)
  | last => ([], last)
termination_by bytes.length

theorem readAll_message (hnext : next true bytes = .message value rest) :
    readAll bytes = (value :: (readAll rest).1, (readAll rest).2) := by
  rw [readAll]
  split
  · rename_i value' rest' heq
    rw [hnext] at heq
    cases heq
    rfl
  · rename_i hother
    exact absurd hnext (hother _ _)

theorem readAll_stop (hstop : ∀ value rest, next true bytes ≠ .message value rest) :
    readAll bytes = ([], next true bytes) := by
  rw [readAll]
  split
  · rename_i heq
    exact absurd heq (hstop _ _)
  · rfl

theorem readAll_nil : readAll [] = ([], .ended) :=
  readAll_stop fun _ _ => nofun

theorem stream_cons (messages : List Json) :
    stream (message :: messages) = write message ++ stream messages := by
  rw [stream, List.flatMap_cons]
  rfl

theorem stream_take_succ (messages : List Json) (i : Nat) :
    stream ((message :: messages).take (i + 1)) = write message ++ stream (messages.take i) := by
  rw [List.take_succ_cons, stream_cons]

theorem write_length_pos (message : Json) : 0 < (write message).length := by
  rw [write_length]
  omega

/-- What comes of the first `k` bytes of a stream: `n` messages and then `last`. -/
structure CutAt (messages : List Json) (k n : Nat) (last : Next) : Prop where
  /-- Those messages are read whose frames lie wholly inside the bytes. -/
  whole : ∀ i < messages.length, (stream (messages.take (i + 1))).length ≤ k ↔ i < n
  /-- The stream ends there just if the bytes are whole frames. -/
  ended : last = .ended ↔ ∃ i, (stream messages).take k = stream (messages.take i)
  /-- Anything else is an error. -/
  failed : last = .ended ∨ ∃ error rest, last = .failed error rest

theorem CutAt.nil (k : Nat) : CutAt [] k 0 .ended := by
  refine ⟨by simp, ?_, .inl rfl⟩
  exact ⟨fun _ => ⟨0, by simp [stream]⟩, fun _ => rfl⟩

/-- The bytes go beyond the first frame. -/
theorem CutAt.cons {messages : List Json} {k n : Nat} {last : Next}
    (hk : (write message).length ≤ k) (h : CutAt messages (k - (write message).length) n last) :
    CutAt (message :: messages) k (n + 1) last := by
  refine ⟨fun i hi => ?_, ?_, h.failed⟩
  · rw [stream_take_succ, List.length_append]
    cases i with
    | zero => simp [stream, hk]
    | succ i =>
      rw [List.length_cons] at hi
      have := h.whole i (by omega)
      omega
  · rw [h.ended, stream_cons, List.take_append, List.take_of_length_le hk]
    constructor
    · rintro ⟨i, hi⟩
      exact ⟨i + 1, by rw [stream_take_succ, hi]⟩
    · rintro ⟨i, hi⟩
      cases i with
      | zero =>
        have hempty := (List.append_eq_nil_iff.mp hi).1
        have := write_length_pos message
        rw [hempty] at this
        exact absurd this (by decide)
      | succ i =>
        rw [stream_take_succ] at hi
        exact ⟨i, List.append_cancel_left hi⟩

/-- The bytes end before the first frame does: no message is whole. -/
theorem CutAt.none (messages : List Json) {k : Nat} (hk : k < (write message).length) (i : Nat) :
    ¬ (stream ((message :: messages).take (i + 1))).length ≤ k := by
  rw [stream_take_succ, List.length_append]
  omega

theorem CutAt.start (messages : List Json) : CutAt (message :: messages) 0 0 .ended := by
  refine ⟨fun i _ => ?_, ⟨fun _ => ⟨0, rfl⟩, fun _ => rfl⟩, .inl rfl⟩
  have := CutAt.none messages (write_length_pos message) i
  omega

theorem CutAt.inside {messages : List Json} {k : Nat} (hpos : 0 < k)
    (hk : k < (write message).length) (error : FrameError) (rest : List UInt8) :
    CutAt (message :: messages) k 0 (.failed error rest) := by
  refine ⟨fun i _ => ?_, ⟨(nomatch ·), ?_⟩, .inr ⟨error, rest, rfl⟩⟩
  · have := CutAt.none messages hk i
    omega
  · rintro ⟨i, hi⟩
    have hlen := congrArg List.length hi
    rw [stream_cons, List.length_take, List.length_append] at hlen
    cases i with
    | zero =>
      rw [List.take_zero] at hlen
      simp only [stream, List.flatMap_nil, List.length_nil] at hlen
      omega
    | succ i =>
      rw [stream_take_succ, List.length_append] at hlen
      omega

theorem readAll_take (messages : List Json) (k : Nat)
    (hparse : ∀ message ∈ messages, Json.parseBytes? message.bytes = some message)
    (hfit : ∀ message ∈ messages, (write message).length ≤ k → message.bytes.length < UInt64.size) :
    ∃ n last, readAll ((stream messages).take k) = (messages.take n, last) ∧
      CutAt messages k n last := by
  induction messages generalizing k with
  | nil =>
    refine ⟨0, .ended, ?_, CutAt.nil k⟩
    rw [stream, List.flatMap_nil, List.take_nil]
    exact readAll_nil
  | cons message messages ih =>
    have hfirst := hparse message List.mem_cons_self
    rw [stream_cons, List.take_append]
    by_cases hk : (write message).length ≤ k
    · have hlength := hfit message List.mem_cons_self hk
      obtain ⟨n, last, hread, hcut⟩ := ih (k - (write message).length)
        (fun m hm => hparse m (List.mem_cons_of_mem _ hm))
        (fun m hm hle => hfit m (List.mem_cons_of_mem _ hm) (by omega))
      refine ⟨n + 1, last, ?_, hcut.cons hk⟩
      rw [List.take_of_length_le hk, readAll_message (next_write_append hfirst hlength), hread,
        List.take_succ_cons]
    · rw [Nat.sub_eq_zero_of_le (by omega), List.take_zero, List.append_nil]
      rcases Nat.eq_zero_or_pos k with rfl | hpos
      · exact ⟨0, .ended, readAll_nil, .start messages⟩
      · obtain ⟨error, rest, hnext⟩ := next_take_write hfirst hpos (by omega)
        refine ⟨0, .failed error rest, ?_, .inside hpos (by omega) error rest⟩
        rw [readAll_stop (by simp [hnext]), hnext, List.take_zero]

/-- **Reading back a stream that is cut off.**  Of messages that can be read back one by one, the
first `k` bytes give just those whose frames lie wholly inside; then the stream ends if the cut
falls between frames, and is in error if it does not. -/
theorem readAll_take_stream (messages : List Json) (k : UInt64)
    (hparse : ∀ message ∈ messages, Json.parseBytes? message.bytes = some message) :
    ∃ n last, readAll ((stream messages).take k.toNat) = (messages.take n, last) ∧
      CutAt messages k.toNat n last := by
  refine readAll_take messages k.toNat hparse fun message _ hle => ?_
  -- a frame inside a number of bytes has a body whose length is told by a number of that size
  have hk := k.toNat_lt_size
  rw [write_length] at hle
  omega

/-- A message whose text looks like the end of a header and the beginning of another one. -/
def nested : Json :=
  .str "\r\n\r\nContent-Length: 1"

/-- The cut leaves the first digit of the second length, and so a frame that claims two bytes: the
first message is read, and then the stream is in error. -/
theorem readAll_take_stream_nested :
    Json.parseBytes? nested.bytes = some nested ∧
    (stream [nested, nested]).take 66 = write nested ++ Text.Utf8.bytesOf "Content-Length: 2" ∧
    ∃ error rest, readAll ((stream [nested, nested]).take 66) = ([nested], .failed error rest) := by
  have hparse : Json.parseBytes? nested.bytes = some nested := by
    have htext : (Json.parseBytes? nested.bytes).bind Json.asString? =
        some "\r\n\r\nContent-Length: 1" := by decide +kernel
    obtain ⟨message, hmessage, htext⟩ := Option.bind_eq_some_iff.mp htext
    cases message <;> cases htext
    exact hmessage
  have hlength : ∀ i, (stream ([nested, nested].take i)).length = 49 * min i 2 := by
    have hone : (write nested).length = 49 := by decide +kernel
    rintro (_ | _ | i) <;> simp [stream, hone]
  obtain ⟨n, last, hread, hcut⟩ := readAll_take_stream [nested, nested] 66 (by simp [hparse])
  refine ⟨hparse, by decide +kernel, ?_⟩
  obtain rfl : n = 1 := by
    have hfirst := (hcut.whole 0 (by decide)).mp (by rw [hlength]; decide)
    have hsecond := mt (hcut.whole 1 (by decide)).mpr (by rw [hlength]; decide)
    omega
  obtain hended | ⟨error, rest, rfl⟩ := hcut.failed
  · obtain ⟨i, hi⟩ := hcut.ended.mp hended
    have hwhole : (stream [nested, nested]).length = 98 := hlength 2
    have hbytes := congrArg List.length hi
    rw [List.length_take, hwhole, hlength] at hbytes
    change min 66 98 = 49 * min i 2 at hbytes
    omega
  · exact ⟨error, rest, hread⟩

end DialectBridge.Host.Frame
