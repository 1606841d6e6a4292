import CommentToggle.Encoding.SingleByte
import CommentToggle.Encoding.Utf8
import CommentToggle.Encoding.Utf16
import CommentToggle.Text.Case

/-!
Encodings by name. Names are compared without regard to case, and any stretch of
characters other than letters, digits and dots is one separator. A machine may have
encodings besides the ones described here; of these only the two directions are known.
-/
namespace CommentToggle

/-- The two directions of an encoding. -/
structure Charset where
  decode : Bytes → Except CodecFault Text
  encode : Text → Except CodecFault Bytes

/-- The further encodings of a machine, by the names that it knows them by. -/
class Charsets where
  find? : Text → Option Charset

/-- A machine without further encodings. -/
@[reducible] def Charsets.none : Charsets := ⟨fun _ => .none⟩

inductive Codec
  | utf8
  | utf16
  | ascii
  | latin1
  | windows1252
  deriving DecidableEq, Repr

namespace Codec

def isKeyChar (c : Char) : Bool := c.isAlphanum || c = '.'

/-- The name with one underscore between its parts. -/
def key (name : Text) : Text :=
  Text.joinWith ['_'] (Text.words (name.map fun c => if isKeyChar c then c.toLower else ' '))

def names : List (Codec × List String) :=
  [(utf8, ["utf_8", "u8", "utf", "utf8", "utf8_ucs2", "utf8_ucs4", "cp65001"]),
   (utf16, ["utf_16", "u16", "utf16"]),
   (ascii, ["ascii", "646", "ansi_x3.4_1968", "ansi_x3_4_1968", "ansi_x3.4_1986", "cp367",
      "csascii", "ibm367", "iso646_us", "iso_646.irv_1991", "iso_ir_6", "us", "us_ascii"]),
   (latin1, ["latin_1", "8859", "cp819", "csisolatin1", "ibm819", "iso8859", "iso8859_1",
      "iso_8859_1", "iso_8859_1_1987", "iso_ir_100", "l1", "latin", "latin1"]),
   (windows1252, ["cp1252", "1252", "windows_1252"])]

def ofName? (name : Text) : Option Codec :=
  (names.find? fun (_, ns) => ns.any fun n => n.toList = key name).map (·.1)

def decode : Codec → Bytes → Except CodecFault Text
  | utf8 => Utf8.decode
  | utf16 => Utf16.decode
  | ascii => SingleByte.ascii.decode
  | latin1 => SingleByte.latin1.decode
  | windows1252 => SingleByte.windows1252.decode

def encode : Codec → Text → Except CodecFault Bytes
  | utf8 => fun t => .ok (Utf8.encode t)
  | utf16 => fun t => .ok (Utf16.encode t)
  | ascii => SingleByte.ascii.encode
  | latin1 => SingleByte.latin1.encode
  | windows1252 => SingleByte.windows1252.encode

def charset (c : Codec) : Charset := ⟨c.decode, c.encode⟩

variable [Charsets]

def byName (name : Text) : Except CodecFault Charset :=
  match ofName? name with
  | some c => .ok c.charset
  | none =>
    match Charsets.find? name with
    | some c => .ok c
    | none => .error (.unknownEncoding name)

def decodeBy (name : Text) (raw : Bytes) : Except CodecFault Text := do
  (← byName name).decode raw

def encodeBy (name : Text) (t : Text) : Except CodecFault Bytes := do
  (← byName name).encode t

end Codec

end CommentToggle
