import DialectBridge.Json.Printer
import DialectBridge.Json.Tree
import DialectBridge.Text.Blank
import DialectBridge.Text.Numeral

/-!
# Message frames

Messages travel as frames: header lines, a blank line, and a body of as many bytes as the header
`Content-Length` tells, which is a JSON value.  `next` reads the first frame of a stream, of which
more may still come or not; `write` writes a frame.
-/

namespace DialectBridge.Host.Frame

/-- What can be wrong with a stream. -/
inductive FrameError where
  | notUtf8
  | badLength (value : String)
  | missingLength
  | endInHeaders
  | endInBody
  | notJson
  deriving DecidableEq, Repr

/-- The wording of an error. -/
def FrameError.message : FrameError → String
  | .notUtf8 => "utf8"
  | .badLength value => s!"bad Content-Length '{value}'"
  | .missingLength => "message without Content-Length"
  | .endInHeaders => "stream ended inside message headers"
  | .endInBody => "early eof"
  | .notJson => "json"

/-- The stream ended too early. -/
def FrameError.isEndOfStream : FrameError → Bool
  | .endInHeaders => true
  | .endInBody => true
  | _ => false

/-- What has been read of the headers: the length, and whether any header came at all. -/
structure Headers where
  length : Option Nat
  started : Bool
  deriving DecidableEq, Repr

/-- No headers yet. -/
def Headers.none : Headers :=
  ⟨.none, false⟩

/-- The name of the header that tells the length, with its colon. -/
def lengthName : List Char := "content-length:".toList

/-- The value of the length header, if the line is one; case does not matter in the name. -/
def lengthValue? (header : List Char) : Option (List Char) :=
  if (header.take lengthName.length).map Char.toLower = lengthName then
    some (Text.trim (header.drop lengthName.length))
  else none

/-- What a header line does. -/
inductive LineEffect where
  | go (headers : Headers)
  | body (length : Option Nat)
  | fail (error : FrameError)
  deriving DecidableEq, Repr

/-- Reads a line of the headers.  Blank lines before the first header do not count; the first one
after it ends the headers. -/
def Headers.line (h : Headers) (line : List UInt8) : LineEffect :=
  match Text.Utf8.decode? line with
  | .none => .fail .notUtf8
  | some text =>
    let header := Text.trimEnd text
    if header.isEmpty then
      if h.started then .body h.length else .go h
    else
      match lengthValue? header with
      | .none => .go { h with started := true }
      | some value =>
        match Text.numeral? UInt64.size value with
        | some n => .go ⟨some n, true⟩
        | .none => .fail (.badLength (String.ofList value))

/-- What the start of a stream holds. -/
inductive Next where
  | message (value : Json) (rest : List UInt8)
  | failed (error : FrameError) (rest : List UInt8)
  | ended
  | incomplete

/-- Reads the body. -/
def body (closed : Bool) (length : Option Nat) (bytes : List UInt8) : Next :=
  match length with
  | none => .failed .missingLength bytes
  | some n =>
    let content := bytes.take n
    if content.length < n then
      if closed then .failed .endInBody [] else .incomplete
    else
      match Json.parseBytes? content with
      | some value => .message value (bytes.drop n)
      | none => .failed .notJson (bytes.drop n)

/-- The stream ends after the headers read so far. -/
def endAfter (h : Headers) : Next :=
  if h.started then .failed .endInHeaders [] else .ended

/-- Reads headers, with the bytes of the current line, last one first.  In a stream that is closed
the last line needs no line feed. -/
def scan (closed : Bool) (h : Headers) (line : List UInt8) : List UInt8 → Next
  | [] =>
    if !closed then .incomplete
    else if line.isEmpty then endAfter h
    else
      match h.line line.reverse with
      | .go headers => endAfter headers
      | .body length => body closed length []
      | .fail error => .failed error []
  | b :: bytes =>
    if b = 10 then
      match h.line (b :: line).reverse with
      | .go headers => scan closed headers [] bytes
      | .body length => body closed length bytes
      | .fail error => .failed error bytes
    else scan closed h (b :: line) bytes

/-- The first frame of a stream; `closed` tells that no more bytes will come. -/
def next (closed : Bool) (bytes : List UInt8) : Next :=
  scan closed Headers.none [] bytes

/-- A message as a frame. -/
def write (message : Json) : List UInt8 :=
  let content := message.bytes
  Text.Utf8.bytesOf s!"Content-Length: {content.length}\r\n\r\n" ++ content

end DialectBridge.Host.Frame
