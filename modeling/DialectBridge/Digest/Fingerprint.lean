import DialectBridge.Digest.Blake3
import DialectBridge.Json.Printer
import DialectBridge.Text.Utf8

/-!
# Content fingerprints

Results are remembered under the fingerprint of the text they belong to.  A fingerprint is taken
inside a namespace: the bytes that are hashed are those of the namespace, a zero byte and those of
the text (`preimage`), so two namespaces without a zero byte never share a fingerprint by accident
of their texts.
-/

namespace DialectBridge

/-- The 32 bytes that stand for a text. -/
structure Fingerprint where
  bytes : List UInt8
  deriving DecidableEq, Repr, Inhabited

namespace Fingerprint

/-- The bytes that are hashed. -/
def preimage (space text : List Char) : List UInt8 :=
  Text.Utf8.encode space ++ 0 :: Text.Utf8.encode text

/-- The fingerprint of a text in a namespace. -/
def of (space text : String) : Fingerprint :=
  ⟨Blake3.hash (preimage space.toList text.toList)⟩

/-- Two lower-case hexadecimal digits for each byte. -/
def hexOf (bs : List UInt8) : String :=
  String.ofList (bs.flatMap fun b => [Json.hexDigit (b.toNat / 16), Json.hexDigit (b.toNat % 16)])

/-- All bytes in hexadecimal. -/
def hex (f : Fingerprint) : String :=
  hexOf f.bytes

/-- The short form: a hash sign and the first eight bytes. -/
def short (f : Fingerprint) : String :=
  "#" ++ hexOf (f.bytes.take 8)

end Fingerprint

end DialectBridge
