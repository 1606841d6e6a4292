import CommentToggle.Error
import CommentToggle.Files.Tree

/-!
The environment variables and the home folders of accounts, and the paths that
follow from them. A path is tidied by leaving out idle parts; steps up are kept,
and so are two slashes at the very beginning.
-/
namespace CommentToggle

structure Environment where
  bindings : List (Text × Text)
  /-- Home folder of the named account, of the user's own when the name is empty. -/
  homeOf : Text → Option Text

namespace Environment

def get? (e : Environment) (name : Text) : Option Text := e.bindings.lookup name

/-- Sets a variable unless it is there. -/
def propose (e : Environment) (name value : Text) : Except VariableFault Environment :=
  if (e.get? name).isSome then .ok e
  else if name.contains '\x00' || value.contains '\x00' then .error .nullCharacter
  else if name.contains '=' then .error .badName
  else .ok { e with bindings := e.bindings ++ [(name, value)] }

def home? (e : Environment) (account : Text) : Option Text :=
  if account.isEmpty then (e.get? "HOME".toList).or (e.homeOf []) else e.homeOf account

/-- Replaces a tilde and an account name at the beginning by that account's home. -/
def expandHome (e : Environment) (path : Text) : Text :=
  match path with
  | '~' :: rest =>
    let account := rest.takeWhile (· ≠ '/')
    match e.home? account with
    | none => path
    | some home =>
      let bare := (home.reverse.dropWhile (· = '/')).reverse
      let full := bare ++ rest.drop account.length
      if full.isEmpty then ['/'] else full
  | _ => path

end Environment

namespace Path

def rootOf (t : Text) : Text :=
  match t with
  | ['/', '/'] => ['/', '/']
  | '/' :: '/' :: '/' :: _ => ['/']
  | '/' :: '/' :: _ => ['/', '/']
  | '/' :: _ => ['/']
  | _ => []

def tidyParts (t : Text) : List Text := (parts t).filter (!isIdle ·)

def assemble (root : Text) (names : List Text) : Text :=
  match root ++ Text.joinWith ['/'] names with
  | [] => ['.']
  | t => t

def tidy (t : Text) : Text := assemble (rootOf t) (tidyParts t)

/-- The path with one more name. -/
def child (t : Text) (name : Text) : Text := assemble (rootOf t) (tidyParts t ++ [name])

end Path

namespace Environment

def configFolderName : Text := "smartcomment".toList

/-- A path given by the user, tidied and with its home folder put in. A home that
itself begins with a tilde is as good as unknown. -/
def userPath (e : Environment) (path : Text) : Except Error Text :=
  match Path.rootOf path, Path.tidyParts path with
  | [], ('~' :: account) :: rest =>
    if account.contains '\x00' then .error (.file ⟨.nullCharacter, path, none⟩)
    else match e.expandHome ('~' :: account) with
      | '~' :: _ => .error .noHome
      | home => .ok (Path.assemble (Path.rootOf home) (Path.tidyParts home ++ rest))
  | _, _ => .ok (Path.tidy path)

/-- The folder with the user's configuration. -/
def configFolder (e : Environment) : Except Error Text := do
  let base ← match (e.get? "XDG_CONFIG_HOME".toList).filter (!·.isEmpty) with
    | some folder => .ok folder
    | none => (e.userPath ['~']).map (Path.child · ".config".toList)
  return Path.child base configFolderName

end Environment

end CommentToggle
