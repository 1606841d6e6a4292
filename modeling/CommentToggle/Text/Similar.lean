import CommentToggle.Text.Basic

/-!
How alike two texts are: twice the number of characters in common blocks over the
number of all characters. The longest common block is taken first, the earliest of
several, and then what lies before it and what lies after it on both sides.
-/
namespace CommentToggle.Text

def commonStart : Text → Text → Nat
  | c :: r, d :: s => if c = d then commonStart r s + 1 else 0
  | _, _ => 0

structure CommonBlock where
  left : Nat
  right : Nat
  size : Nat

def longer (best next : CommonBlock) : CommonBlock :=
  if best.size < next.size then next else best

def longestBlock (a b : Text) : CommonBlock :=
  (List.range a.length).foldl (fun best i =>
    (List.range b.length).foldl (fun best j =>
      longer best ⟨i, j, commonStart (a.drop i) (b.drop j)⟩) best) ⟨0, 0, 0⟩

/-- The characters in common blocks, with at most `n` levels of blocks. -/
def commonWithin : Nat → Text → Text → Nat
  | 0, _, _ => 0
  | n + 1, a, b =>
    let k := longestBlock a b
    if k.size = 0 then 0
    else k.size + commonWithin n (a.take k.left) (b.take k.right) +
      commonWithin n (a.drop (k.left + k.size)) (b.drop (k.right + k.size))

def commonCount (a b : Text) : Nat := commonWithin a.length a b

/-- At least three fifths of the characters are in common. -/
def isAlike (a b : Text) : Bool := 3 * (a.length + b.length) ≤ 10 * commonCount a b

/-- Whether the first is more like the word than the second; of equals the later in
order of code points. -/
def closer (word a b : Text) : Bool :=
  let left := commonCount a word * (b.length + word.length)
  let right := commonCount b word * (a.length + word.length)
  right < left || (left = right && before b a)

/-- The three texts most like the word, best first. -/
def closest (word : Text) (choices : List Text) : List Text :=
  ((choices.filter (isAlike · word)).mergeSort (fun a b => !closer word b a)).take 3

end CommentToggle.Text
