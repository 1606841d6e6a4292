import CommentToggle.Text.Basic
import CommentToggle.Text.CaseTable

/-!
Small letters. Each capital has one small letter, except that the dotted capital
I becomes two characters, and that a capital sigma at the end of a word becomes
the final sigma. Whether it ends a word is told by the nearest letters around it
that are not passed over.
-/
namespace CommentToggle.Text

def inRanges (ranges : List (Nat × Nat)) (c : Char) : Bool :=
  ranges.any fun (first, last) => first ≤ c.toNat && c.toNat ≤ last

def isCased (c : Char) : Bool := inRanges casedRanges c

def isCaseIgnorable (c : Char) : Bool := inRanges caseIgnorableRanges c

def CaseRun.covers (r : CaseRun) (n : Nat) : Bool :=
  r.first ≤ n && n ≤ r.last && (n - r.first) % r.step = 0

def lowerChar (c : Char) : Char :=
  match lowerRuns.find? (·.covers c.toNat) with
  | some r => Char.ofNat (c.toNat + r.shift).toNat
  | none => c

/-- A cased letter comes first once the characters passed over are left out. -/
def startsCased (t : Text) : Bool := (t.dropWhile isCaseIgnorable).head?.any isCased

/-- `before` holds the characters already read, last first. -/
def lowerFrom (before : Text) : Text → Text
  | [] => []
  | c :: rest =>
    let small : Text :=
      if c = '\u0130' then ['i', '\u0307']
      else if c = '\u03a3' then
        if startsCased before && !startsCased rest then ['\u03c2'] else ['\u03c3']
      else [lowerChar c]
    small ++ lowerFrom (c :: before) rest

def lower (t : Text) : Text := lowerFrom [] t

/-- The capital form, for letters whose capital lies in the basic Latin alphabet. -/
def latinUpperChar (c : Char) : Text :=
  match c with
  | '\u0131' => ['I']
  | '\u017f' => ['S']
  | '\u00df' => ['S', 'S']
  | '\ufb00' => ['F', 'F']
  | '\ufb01' => ['F', 'I']
  | '\ufb02' => ['F', 'L']
  | '\ufb03' => ['F', 'F', 'I']
  | '\ufb04' => ['F', 'F', 'L']
  | '\ufb05' => ['S', 'T']
  | '\ufb06' => ['S', 'T']
  | _ => [c.toUpper]

def latinUpper (t : Text) : Text := t.flatMap latinUpperChar

end CommentToggle.Text
