import CommentToggle.Config.Reference

/-!
Files of assignments, one variable a line. A value may stand in single or double
quotes; without them it ends at a number sign that follows white space. A name alone
takes away what was assigned to it. A line that does not parse is passed over, and
its number noted. Lines end with LF.
-/
namespace CommentToggle

/-- A name with its value, or with none. -/
abbrev Assignment := Text × Option Text

namespace Assignments

open Text

def isGap (c : Char) : Bool := isBlank c && c ≠ '\n'

def skipGap (t : Text) : Text := t.dropWhile isGap

/-- Reads to the closing quote. A backslash before a quote keeps it in the value,
unless no other quote follows. -/
def quotedBody (quote : Char) : Text → Option (Text × Text)
  | [] => none
  | [c] => if c = quote then some ([], []) else none
  | c :: d :: rest =>
    if c = '\\' && d = quote then
      ((quotedBody quote rest).map fun (v, r) => (c :: d :: v, r)).or (some ([c], rest))
    else if c = quote then some ([], d :: rest)
    else (quotedBody quote (d :: rest)).map fun (v, r) => (c :: v, r)

def plainEscape? (c : Char) : Option Char :=
  if c = '\\' || c = '\'' then some c else none

def richEscape? (c : Char) : Option Char :=
  match c with
  | '\\' | '\'' | '"' => some c
  | 'a' => some '\x07'
  | 'b' => some '\x08'
  | 'f' => some '\x0c'
  | 'n' => some '\n'
  | 'r' => some '\r'
  | 't' => some '\t'
  | 'v' => some '\x0b'
  | _ => none

def unescape (escape? : Char → Option Char) : Text → Text
  | [] => []
  | [c] => [c]
  | c :: d :: rest =>
    if c = '\\' then
      match escape? d with
      | some e => e :: unescape escape? rest
      | none => c :: unescape escape? (d :: rest)
    else c :: unescape escape? (d :: rest)

/-- Cuts at the first stretch of white space before a number sign. -/
def withoutRemark : Text → Text
  | [] => []
  | c :: rest =>
    if isBlank c && (rest.dropWhile isBlank).head? = some '#' then []
    else c :: withoutRemark rest

/-- A value and what follows it. -/
def value? (t : Text) : Option (Text × Text) :=
  match t with
  | '\'' :: rest => (quotedBody '\'' rest).map fun (v, r) => (unescape plainEscape? v, r)
  | '"' :: rest => (quotedBody '"' rest).map fun (v, r) => (unescape richEscape? v, r)
  | _ =>
    let line := t.takeWhile (· ≠ '\n')
    some (trimEnd (withoutRemark line), t.drop line.length)

/-- A name and what follows it; a remark has none. -/
def name? (t : Text) : Option (Option Text × Text) :=
  match t with
  | '#' :: _ => some (none, t)
  | '\'' :: rest =>
    let name := rest.takeWhile (· ≠ '\'')
    match name, rest.drop name.length with
    | [], _ => none
    | _, [] => none
    | _, _ :: after => some (some name, after)
  | _ =>
    let name := t.takeWhile fun c => c ≠ '=' && c ≠ '#' && !isBlank c
    if name.isEmpty then none else some (some name, t.drop name.length)

def skipExport (t : Text) : Text :=
  match "export".toList.isPrefixOf? t with
  | some (c :: rest) => if isGap c then skipGap rest else t
  | _ => t

def skipRemark (t : Text) : Text :=
  match skipGap t with
  | '#' :: remark => remark.dropWhile (· ≠ '\n')
  | _ => t

/-- The rest after the end of the line, if only a remark comes before it; else the
place where something else stands. -/
def lineEnd (t : Text) : Except Text Text :=
  let rest := skipRemark t
  match skipGap rest with
  | [] => .ok []
  | '\n' :: after => .ok after
  | _ => .error rest

/-- What a name is assigned, and what follows on the line. -/
def assigned (t : Text) : Except Text (Option Text × Text) :=
  match skipGap t with
  | '=' :: rest =>
    match value? (skipGap rest) with
    | some (v, after) => .ok (some v, after)
    | none => .error (skipGap rest)
  | rest => .ok (none, rest)

/-- One line and what follows it, or the place up to which it can be read. -/
def line (t : Text) : Except Text (Option Assignment × Text) := do
  let start := skipExport t
  let some (name, afterName) := name? start | .error start
  let (v, after) ← assigned afterName
  return (name.map (·, v), ← lineEnd after)

def skipLine (t : Text) : Text := (t.dropWhile (· ≠ '\n')).drop 1

/-- What a file holds: its assignments, and the numbers of the lines at which statements
begin that do not parse. -/
structure Contents where
  assignments : List Assignment
  unread : List Nat

/-- The next `n` statements, the first of which begins on the given line. -/
def parseFrom : Nat → Nat → Text → Contents
  | 0, _, _ => ⟨[], []⟩
  | n + 1, number, t =>
    match t.dropWhile isBlank with
    | [] => ⟨[], []⟩
    | start =>
      let next (rest : Text) : Nat := number + (t.count '\n' - rest.count '\n')
      match line start with
      | .ok (found, rest) =>
        let more := parseFrom n (next rest) rest
        { more with assignments := found.toList ++ more.assignments }
      | .error stop =>
        let rest := skipLine stop
        let more := parseFrom n (next rest) rest
        { more with unread := number :: more.unread }

def parse (t : Text) : Contents := parseFrom t.length 1 t

/-- The text of a name: the one around the file, else the one assigned last. -/
def textOf (around : Text → Option Text) (done : List Assignment) (name : Text) : Option Text :=
  (around name).or ((done.reverse.lookup name).map (·.getD []))

/-- Puts in, for each reference, what its name stands for at that place. -/
def resolve (around : Text → Option Text) (found : List Assignment) : List Assignment :=
  found.foldl (fun done (name, v) =>
    done ++ [(name, v.map (Reference.expand (textOf around done)))]) []

/-- Each name once, with the value assigned last. -/
def settle (found : List Assignment) : List (Text × Text) :=
  (found.map (·.1)).eraseDups.filterMap fun name =>
    ((found.reverse.lookup name).getD none).map (name, ·)

end Assignments

end CommentToggle
