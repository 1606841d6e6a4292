import CommentToggle.Encoding.Fault

/-!
UTF-8 without any leniency: the shortest form only, no surrogates, nothing beyond
the last code point. A byte order mark is a character like any other. Reading
takes one byte at a time and holds back the bytes of an unfinished character.
-/
namespace CommentToggle.Utf8

def encodeChar (c : Char) : Bytes :=
  let n := c.toNat
  if n < 0x80 then [UInt8.ofNat n]
  else if n < 0x800 then [UInt8.ofNat (0xc0 + n / 64), UInt8.ofNat (0x80 + n % 64)]
  else if n < 0x10000 then
    [UInt8.ofNat (0xe0 + n / 4096), UInt8.ofNat (0x80 + n / 64 % 64), UInt8.ofNat (0x80 + n % 64)]
  else
    [UInt8.ofNat (0xf0 + n / 262144), UInt8.ofNat (0x80 + n / 4096 % 64),
      UInt8.ofNat (0x80 + n / 64 % 64), UInt8.ofNat (0x80 + n % 64)]

def encode (t : Text) : Bytes := t.flatMap encodeChar

/-- An unfinished character: its bytes so far, last first, the value they give, how
many bytes are missing, and the bounds of the next one. -/
structure Pending where
  bytes : Bytes
  value : Nat
  missing : Nat
  low : Nat
  high : Nat
  deriving DecidableEq, Repr

inductive Lead
  | char (c : Char)
  | pending (p : Pending)
  | invalid

/-- What a byte begins that does not continue a character. -/
def lead (b : UInt8) : Lead :=
  let n := b.toNat
  if n < 0x80 then .char (Char.ofNat n)
  else if n < 0xc2 then .invalid
  else if n < 0xe0 then .pending ⟨[b], n - 0xc0, 1, 0x80, 0xbf⟩
  else if n = 0xe0 then .pending ⟨[b], 0, 2, 0xa0, 0xbf⟩
  else if n = 0xed then .pending ⟨[b], 0xd, 2, 0x80, 0x9f⟩
  else if n < 0xf0 then .pending ⟨[b], n - 0xe0, 2, 0x80, 0xbf⟩
  else if n = 0xf0 then .pending ⟨[b], 0, 3, 0x90, 0xbf⟩
  else if n < 0xf4 then .pending ⟨[b], n - 0xf0, 3, 0x80, 0xbf⟩
  else if n = 0xf4 then .pending ⟨[b], 4, 3, 0x80, 0x8f⟩
  else .invalid

def flaw (start : Nat) (bytes : Bytes) (reason : String) : CodecFault :=
  .undecodable "utf-8" start bytes reason

/-- Reads on from byte number `pos`, with the characters so far, last first. -/
def decodeFrom (pos : Nat) (done : Text) (held : Option Pending) : Bytes → Except CodecFault Text
  | [] =>
    match held with
    | none => .ok done.reverse
    | some p => .error (flaw (pos - p.bytes.length) p.bytes.reverse "unexpected end of data")
  | b :: rest =>
    match held with
    | none =>
      match lead b with
      | .char c => decodeFrom (pos + 1) (c :: done) none rest
      | .pending p => decodeFrom (pos + 1) done (some p) rest
      | .invalid => .error (flaw pos [b] "invalid start byte")
    | some p =>
      if p.low ≤ b.toNat ∧ b.toNat ≤ p.high then
        let value := p.value * 64 + (b.toNat - 0x80)
        if p.missing = 1 then decodeFrom (pos + 1) (Char.ofNat value :: done) none rest
        else decodeFrom (pos + 1) done
          (some ⟨b :: p.bytes, value, p.missing - 1, 0x80, 0xbf⟩) rest
      else .error (flaw (pos - p.bytes.length) p.bytes.reverse "invalid continuation byte")

def decode (raw : Bytes) : Except CodecFault Text := decodeFrom 0 [] none raw

end CommentToggle.Utf8
