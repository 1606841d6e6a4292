import CommentToggle.Encoding.Codec
import CommentToggle.Log

/-!
Reading bytes as text so that they can be written back unchanged. Valid UTF-8 is
read as such. Otherwise a detector may name an encoding from a sample; its guess
is taken when it is confident enough and the bytes survive the way there and back.
Latin-1, in which every byte is a character, is the last resort.
-/
namespace CommentToggle.Reading

open Text

variable [Charsets]

structure Guess where
  encoding : Option Text
  confidence : Option Float

structure Decoded where
  text : Text
  encoding : Text
  /-- The bytes shown to the detector, if it was asked. -/
  sample : Option Bytes
  deriving Repr

def sampleSize : Nat := 20480

def enough : Float := 0.75

/-- A decimal with two places, ties to the even neighbour, of a finite number. -/
def twoPlaces (x : Float) : Text :=
  let bits := x.toBits.toNat
  let fraction := bits % (1 <<< 52)
  let exponent := (bits >>> 52) % (1 <<< 11)
  let mantissa := if exponent = 0 then fraction else fraction + (1 <<< 52)
  let power := if exponent = 0 then 1 else exponent
  let scaled := mantissa * 100
  let hundredths :=
    if 1075 ≤ power then scaled <<< (power - 1075)
    else
      let unit := 1 <<< (1075 - power)
      let rest := scaled % unit
      let down := scaled / unit
      if 2 * rest < unit || (2 * rest = unit && down % 2 = 0) then down else down + 1
  let sign : Text := if bits >>> 63 = 1 then ['-'] else []
  sign ++ (toString (hundredths / 100)).toList ++
    ['.', Nat.digitChar (hundredths / 10 % 10), Nat.digitChar (hundredths % 10)]

/-- Missing and zero confidence are the same. -/
def confidenceOf (g : Guess) : Float :=
  match g.confidence with
  | some x => if x == 0 then 0 else x
  | none => 0

/-- The bytes read in the named encoding, if writing gives them back. -/
def roundTrip (name : Text) (raw : Bytes) : Except CodecFault (Option Text) := do
  let text ← Codec.decodeBy name raw
  if (← Codec.encodeBy name text) = raw then return some text else return none

def guessRecord (g : Guess) (source : Text) : Record :=
  ⟨.debug, .program, "Chardet detected encoding '" ++ toStr (g.encoding.getD "None".toList) ++
    "' with confidence " ++ toStr (twoPlaces (confidenceOf g)) ++ " for '" ++ toStr source ++ "'."⟩

def failedRecord (source name : Text) (f : CodecFault) : Record :=
  ⟨.warning, .program,
    "Failed to decode '" ++ toStr source ++ "' as '" ++ toStr name ++ "': " ++ f.message⟩

def fallbackRecord (source : Text) : Record :=
  ⟨.info, .program, "Falling back to latin-1 for '" ++ toStr source ++ "'."⟩

/-- The text under the detector's guess, with a record when the attempt fails. -/
def tryGuess (source : Text) (raw : Bytes) (g : Guess) : List Record × Option (Text × Text) :=
  match g.encoding with
  | none => ([], none)
  | some name =>
    if name.isEmpty || !decide (enough ≤ confidenceOf g) then ([], none)
    else match roundTrip name raw with
      | .ok found => ([], found.map (·, name))
      | .error f => ([failedRecord source name f], none)

def latin1Text (raw : Bytes) : Text := raw.map fun b => Char.ofNat b.toNat

def decode (detector : Bytes → Guess) (source : Text) (raw : Bytes) : List Record × Decoded :=
  match Utf8.decode raw with
  | .ok text => ([], ⟨text, "utf-8".toList, none⟩)
  | .error _ =>
    let sample := raw.take sampleSize
    let guess := detector sample
    match tryGuess source raw guess with
    | (rs, some (text, name)) => (guessRecord guess source :: rs, ⟨text, name, some sample⟩)
    | (rs, none) =>
      (guessRecord guess source :: rs ++ [fallbackRecord source],
        ⟨latin1Text raw, "latin-1".toList, some sample⟩)

end CommentToggle.Reading
