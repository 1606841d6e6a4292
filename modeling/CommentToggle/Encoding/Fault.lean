import CommentToggle.Text.Quoted

/-!
Why bytes are no text in an encoding, or a text has no bytes in it. Positions
count bytes when decoding and code points when encoding, from zero.
-/
namespace CommentToggle

abbrev Bytes := List UInt8

inductive CodecFault
  | unknownEncoding (name : Text)
  | undecodable (codec : String) (start : Nat) (bytes : Bytes) (reason : String)
  | unencodable (codec : String) (start : Nat) (chars : Text) (reason : String)
  deriving DecidableEq, Repr

namespace CodecFault

open Text

/-- A character written by its code point. -/
def escapedPoint (c : Char) : String :=
  toStr <|
    if c.toNat < 0x100 then '\\' :: 'x' :: hexDigits 2 c.toNat
    else if c.toNat < 0x10000 then '\\' :: 'u' :: hexDigits 4 c.toNat
    else '\\' :: 'U' :: hexDigits 8 c.toNat

def message : CodecFault → String
  | unknownEncoding name => "unknown encoding: " ++ toStr name
  | undecodable codec start [b] reason =>
      "'" ++ codec ++ "' codec can't decode byte 0x" ++ toStr (hexDigits 2 b.toNat) ++
        s!" in position {start}: " ++ reason
  | undecodable codec start bytes reason =>
      "'" ++ codec ++ s!"' codec can't decode bytes in position {start}-{start + bytes.length - 1}: "
        ++ reason
  | unencodable codec start [c] reason =>
      "'" ++ codec ++ "' codec can't encode character '" ++ escapedPoint c ++
        s!"' in position {start}: " ++ reason
  | unencodable codec start chars reason =>
      "'" ++ codec ++
        s!"' codec can't encode characters in position {start}-{start + chars.length - 1}: "
        ++ reason

end CodecFault

end CommentToggle
