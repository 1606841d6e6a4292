import CommentToggle.Encoding.Fault

/-!
UTF-16 with a byte order mark. Writing puts the mark and then the low byte of each
unit first. Reading follows the mark, and takes the low byte first without one.
-/
namespace CommentToggle.Utf16

def unit (n : Nat) : Bytes := [UInt8.ofNat (n % 256), UInt8.ofNat (n / 256)]

def encodeChar (c : Char) : Bytes :=
  let n := c.toNat
  if n < 0x10000 then unit n
  else unit (0xd800 + (n - 0x10000) / 1024) ++ unit (0xdc00 + (n - 0x10000) % 1024)

def encode (t : Text) : Bytes := 0xff :: 0xfe :: t.flatMap encodeChar

inductive ByteOrder
  | little
  | big
  deriving DecidableEq, Repr

def ByteOrder.codec : ByteOrder → String
  | little => "utf-16-le"
  | big => "utf-16-be"

def ByteOrder.unit : ByteOrder → UInt8 → UInt8 → Nat
  | little, a, b => a.toNat + 256 * b.toNat
  | big, a, b => 256 * a.toNat + b.toNat

/-- A high surrogate that waits for its low one. -/
structure Pending where
  bytes : Bytes
  value : Nat
  deriving DecidableEq, Repr

def isHigh (u : Nat) : Bool := 0xd800 ≤ u && u < 0xdc00

def isLow (u : Nat) : Bool := 0xdc00 ≤ u && u < 0xe000

/-- Reads on from byte number `pos`, with the characters so far, last first. -/
def decodeFrom (order : ByteOrder) (pos : Nat) (done : Text) (held : Option Pending) :
    Bytes → Except CodecFault Text
  | [] =>
    match held with
    | none => .ok done.reverse
    | some p => .error (.undecodable order.codec (pos - 2) p.bytes "unexpected end of data")
  | [b] =>
    match held with
    | none => .error (.undecodable order.codec pos [b] "truncated data")
    | some p => .error (.undecodable order.codec (pos - 2) (p.bytes ++ [b]) "unexpected end of data")
  | a :: b :: rest =>
    let u := order.unit a b
    match held with
    | none =>
      if isHigh u then decodeFrom order (pos + 2) done (some ⟨[a, b], u⟩) rest
      else if isLow u then .error (.undecodable order.codec pos [a, b] "illegal encoding")
      else decodeFrom order (pos + 2) (Char.ofNat u :: done) none rest
    | some p =>
      if isLow u then
        decodeFrom order (pos + 2)
          (Char.ofNat (0x10000 + 1024 * (p.value - 0xd800) + (u - 0xdc00)) :: done) none rest
      else .error (.undecodable order.codec (pos - 2) p.bytes "illegal UTF-16 surrogate")

def decode : Bytes → Except CodecFault Text
  | 0xff :: 0xfe :: rest => decodeFrom .little 2 [] none rest
  | 0xfe :: 0xff :: rest => decodeFrom .big 2 [] none rest
  | raw => decodeFrom .little 0 [] none raw

end CommentToggle.Utf16
