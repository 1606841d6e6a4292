import CommentToggle.Text.Quoted
import CommentToggle.Text.Similar

/-!
Reading the command line. Options and arguments may be mixed; two dashes end the
options. A long option may carry its value behind an equals sign, a short one right
behind its letter; several short options may share one dash.
-/
namespace CommentToggle.CommandLine

open Text

inductive Flag
  | moreFiles
  | enable
  | disable
  | reset
  | styleName
  | leader
  | closer
  | toStdout
  | list
  | check
  | config
  | verbose
  | version
  | help
  deriving DecidableEq, Repr

namespace Flag

def all : List Flag :=
  [moreFiles, enable, disable, reset, styleName, leader, closer, toStdout, list, check, config,
   verbose, version, help]

def letter? : Flag → Option Char
  | moreFiles => some 'f'
  | enable => some 'e'
  | disable => some 'd'
  | styleName => some 's'
  | leader => some 'c'
  | toStdout => some 'o'
  | list => some 'l'
  | verbose => some 'v'
  | help => some 'h'
  | _ => none

def long : Flag → Text
  | moreFiles => "--file".toList
  | enable => "--enable".toList
  | disable => "--disable".toList
  | reset => "--reset".toList
  | styleName => "--syntax".toList
  | leader => "--comment".toList
  | closer => "--closing-comment".toList
  | toStdout => "--stdout".toList
  | list => "--list".toList
  | check => "--check".toList
  | config => "--config".toList
  | verbose => "--verbose".toList
  | version => "--version".toList
  | help => "--help".toList

def takesValue : Flag → Bool
  | moreFiles | enable | disable | styleName | leader | closer | config => true
  | _ => false

def ofLetter? (c : Char) : Option Flag := all.find? (·.letter? = some c)

def ofLong? (t : Text) : Option Flag := all.find? (·.long = t)

/-- All spellings of the option, as a fault names it. -/
def hint (f : Flag) : String :=
  match f.letter? with
  | some c => "'" ++ toStr ['-', c] ++ "' / '" ++ toStr f.long ++ "'"
  | none => "'" ++ toStr f.long ++ "'"

end Flag

inductive UsageFault
  | noSuchOption (name : Text) (similar : List Text)
  | needsArgument (name : Text)
  | takesNoValue (name : Text)
  | missingFile
  | isFolder (hint : String) (path : Text)
  | notReadable (hint : String) (path : Text)
  deriving DecidableEq, Repr

namespace UsageFault

def suggestion : List Text → String
  | [] => ""
  | [one] => " Did you mean " ++ toStr one ++ "?"
  | several => " (Possible options: " ++ toStr (joinWith ", ".toList (sortedDistinct several)) ++ ")"

def message : UsageFault → String
  | noSuchOption name similar => "No such option: " ++ toStr name ++ suggestion similar
  | needsArgument name => "Option " ++ toStr name.quoted ++ " requires an argument."
  | takesNoValue name => "Option " ++ toStr name.quoted ++ " does not take a value."
  | missingFile => "Missing argument 'FILE'."
  | isFolder hint path =>
      "Invalid value for " ++ hint ++ ": File " ++ toStr path.quoted ++ " is a directory."
  | notReadable hint path =>
      "Invalid value for " ++ hint ++ ": File " ++ toStr path.quoted ++ " is not readable."

/-- A fault in the form of an option is told without a reminder of the usage. -/
def remindsOfUsage : UsageFault → Bool
  | needsArgument _ => false
  | takesNoValue _ => false
  | _ => true

end UsageFault

/-- The options in order with their values, and the other arguments. -/
structure Parsed where
  options : List (Flag × Text)
  arguments : List Text
  deriving DecidableEq, Repr

/-- The options found in one argument; the last may still need the next argument. -/
structure Found where
  options : List (Flag × Text)
  pending : Option (Flag × Text)

def readLong (name : Text) (value : Option Text) : Except UsageFault Found :=
  match Flag.ofLong? name with
  | none => .error (.noSuchOption name (closest name (Flag.all.map Flag.long)))
  | some f =>
    match f.takesValue, value with
    | true, some v => .ok ⟨[(f, v)], none⟩
    | true, none => .ok ⟨[], some (f, name)⟩
    | false, some _ => .error (.takesNoValue name)
    | false, none => .ok ⟨[(f, [])], none⟩

def readShort : Text → Except UsageFault Found
  | [] => .ok ⟨[], none⟩
  | c :: rest =>
    match Flag.ofLetter? c with
    | none => .error (.noSuchOption ['-', c] [])
    | some f =>
      if f.takesValue then
        if rest.isEmpty then .ok ⟨[], some (f, ['-', c])⟩ else .ok ⟨[(f, rest)], none⟩
      else do
        let found ← readShort rest
        return { found with options := (f, []) :: found.options }

/-- Reads an argument that begins with a dash and has more to it. -/
def readOption (arg : Text) : Except UsageFault Found :=
  if "--".toList.isPrefixOf arg then
    let name := arg.takeWhile (· ≠ '=')
    readLong name ((arg.drop name.length).tail?)
  else readShort (arg.drop 1)

def isOption (arg : Text) : Bool := arg.head? = some '-' && 1 < arg.length

def parse : List Text → Except UsageFault Parsed
  | [] => .ok ⟨[], []⟩
  | arg :: rest =>
    if arg = "--".toList then .ok ⟨[], rest⟩
    else if isOption arg then do
      let found ← readOption arg
      match found.pending with
      | none =>
        let p ← parse rest
        return { p with options := found.options ++ p.options }
      | some (f, name) =>
        match rest with
        | [] => .error (.needsArgument name)
        | value :: others =>
          let p ← parse others
          return { p with options := found.options ++ (f, value) :: p.options }
    else do
      let p ← parse rest
      return { p with arguments := arg :: p.arguments }

namespace Parsed

def values (p : Parsed) (f : Flag) : List Text :=
  (p.options.filter (·.1 = f)).map (·.2)

/-- The value given last. -/
def value? (p : Parsed) (f : Flag) : Option Text := (p.values f).getLast?

def has (p : Parsed) (f : Flag) : Bool := p.options.any (·.1 = f)

end Parsed

end CommentToggle.CommandLine
