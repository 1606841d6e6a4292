import CommentToggle.Encoding.Fault

/-!
Encodings with one byte for each character, given by a table from bytes to
characters and back. Reading stops at the first byte without a character, writing
at the first run of characters without a byte.
-/
namespace CommentToggle

structure SingleByte where
  /-- The name and the reason given in faults. -/
  name : String
  reason : String
  charOf : UInt8 → Option Char
  byteOf : Char → Option UInt8

namespace SingleByte

def decode (s : SingleByte) (raw : Bytes) : Except CodecFault Text :=
  let good := raw.takeWhile fun b => (s.charOf b).isSome
  match raw.drop good.length with
  | [] => .ok (raw.filterMap s.charOf)
  | b :: _ => .error (.undecodable s.name good.length [b] s.reason)

def encode (s : SingleByte) (t : Text) : Except CodecFault Bytes :=
  let good := t.takeWhile fun c => (s.byteOf c).isSome
  match t.drop good.length with
  | [] => .ok (t.filterMap s.byteOf)
  | c :: rest => .error (.unencodable s.name good.length
      ((c :: rest).takeWhile fun d => (s.byteOf d).isNone) s.reason)

/-- The characters below a bound, each with its code point as its byte. -/
def below (bound : Nat) (name : String) : SingleByte where
  name := name
  reason := s!"ordinal not in range({bound})"
  charOf b := if b.toNat < bound then some (Char.ofNat b.toNat) else none
  byteOf c := if c.toNat < bound then some (UInt8.ofNat c.toNat) else none

def ascii : SingleByte := below 128 "ascii"

def latin1 : SingleByte := below 256 "latin-1"

/-- The code points of the bytes from 0x80 to 0x9f, zero where there is none. -/
def windowsPoints : List Nat :=
  [0x20ac, 0, 0x201a, 0x0192, 0x201e, 0x2026, 0x2020, 0x2021,
   0x02c6, 0x2030, 0x0160, 0x2039, 0x0152, 0, 0x017d, 0,
   0, 0x2018, 0x2019, 0x201c, 0x201d, 0x2022, 0x2013, 0x2014,
   0x02dc, 0x2122, 0x0161, 0x203a, 0x0153, 0, 0x017e, 0x0178]

def windowsPoint? (n : Nat) : Option Nat :=
  if n < 0x80 || 0xa0 ≤ n then some n
  else windowsPoints[n - 0x80]?.filter (· ≠ 0)

def windowsByte? (n : Nat) : Option Nat :=
  if n < 0x80 || (0xa0 ≤ n && n < 0x100) then some n
  else (windowsPoints.findIdx? (· = n)).map (· + 0x80)

def windows1252 : SingleByte where
  name := "charmap"
  reason := "character maps to <undefined>"
  charOf b := (windowsPoint? b.toNat).map Char.ofNat
  byteOf c := (windowsByte? c.toNat).map UInt8.ofNat

end SingleByte

end CommentToggle
