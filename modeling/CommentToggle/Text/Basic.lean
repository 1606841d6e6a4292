/-!
Texts are lists of characters, so that positions count code points and every
reader is a recursion on its text. White space is the set of Unicode characters
with the property White_Space together with the four information separators;
a zero-width space or a byte order mark is an ordinary character.
-/
namespace CommentToggle

abbrev Text := List Char

namespace Text

def toStr (t : Text) : String := String.ofList t

def blanks : List Char :=
  ['\t', '\n', '\x0b', '\x0c', '\r', '\x1c', '\x1d', '\x1e', '\x1f', ' ',
   '\u0085', '\u00a0', '\u1680',
   '\u2000', '\u2001', '\u2002', '\u2003', '\u2004', '\u2005', '\u2006',
   '\u2007', '\u2008', '\u2009', '\u200a',
   '\u2028', '\u2029', '\u202f', '\u205f', '\u3000']

def isBlank (c : Char) : Bool := blanks.contains c

def trimStart (t : Text) : Text := t.dropWhile isBlank

def trimEnd (t : Text) : Text := (t.reverse.dropWhile isBlank).reverse

def trim (t : Text) : Text := trimEnd (trimStart t)

/-- The longest runs of characters that are not white space, in order. -/
def words : Text → List Text
  | [] => []
  | [c] => if isBlank c then [] else [[c]]
  | c :: d :: rest =>
    if isBlank c then words (d :: rest)
    else if isBlank d then [c] :: words (d :: rest)
    else match words (d :: rest) with
      | [] => [[c]]
      | w :: ws => (c :: w) :: ws

def joinWith (sep : Text) : List Text → Text
  | [] => []
  | [t] => t
  | t :: u :: rest => t ++ sep ++ joinWith sep (u :: rest)

/-- Cuts at every occurrence of the separator, so there is one more piece than separators. -/
def splitAtChar (sep : Char) : Text → List Text
  | [] => [[]]
  | c :: rest =>
    if c = sep then [] :: splitAtChar sep rest
    else match splitAtChar sep rest with
      | [] => [[c]]
      | t :: ts => (c :: t) :: ts

/-- Order by code points, a proper beginning first. -/
def before : Text → Text → Bool
  | [], [] => false
  | [], _ :: _ => true
  | _ :: _, [] => false
  | c :: r, d :: s => c.toNat < d.toNat || (c = d && before r s)

/-- Adds a text to a strictly increasing list, unless it is there. -/
def insertSorted (t : Text) : List Text → List Text
  | [] => [t]
  | u :: us => if t = u then u :: us else if before t u then t :: u :: us else u :: insertSorted t us

/-- The distinct members, in increasing order. -/
def sortedDistinct (ts : List Text) : List Text := ts.foldr insertSorted []

/-- Fills up with spaces on the right to the given width in code points. -/
def padTo (width : Nat) (t : Text) : Text := t ++ List.replicate (width - t.length) ' '

theorem trimStart_append_takeWhile (t : Text) : t.takeWhile isBlank ++ trimStart t = t :=
  List.takeWhile_append_dropWhile

theorem mem_insertSorted (x t : Text) (us : List Text) :
    x ∈ insertSorted t us ↔ x = t ∨ x ∈ us := by
  induction us with
  | nil => simp [insertSorted]
  | cons u us ih =>
    unfold insertSorted
    split
    · rename_i h; subst h; simp
    · split <;> simp [ih]
      · exact or_left_comm

theorem mem_sortedDistinct (x : Text) (ts : List Text) : x ∈ sortedDistinct ts ↔ x ∈ ts := by
  induction ts with
  | nil => simp [sortedDistinct]
  | cons t ts ih =>
    have h : sortedDistinct (t :: ts) = insertSorted t (sortedDistinct ts) := rfl
    rw [h, mem_insertSorted, ih, List.mem_cons]

end Text

end CommentToggle
