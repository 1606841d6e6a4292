import CommentToggle.Text.Basic

/-!
Records of what happens during a run. A `Logged` computation carries the records
written so far beside its outcome, which never depends on them: the outcome of a
sequence is the sequence of the outcomes, and the records add up in order.
-/
namespace CommentToggle

inductive Level
  | debug
  | info
  | warning
  | error
  | critical
  deriving DecidableEq, Repr

namespace Level

def rank : Level → Nat
  | debug => 10
  | info => 20
  | warning => 30
  | error => 40
  | critical => 50

def name : Level → String
  | debug => "DEBUG"
  | info => "INFO"
  | warning => "WARNING"
  | error => "ERROR"
  | critical => "CRITICAL"

end Level

/-- The part of the program, or of what it uses, that writes a record. -/
inductive Channel
  | program
  | style
  | scanner
  | resolver
  | engine
  | commandLine
  | other (name : String)
  deriving DecidableEq, Repr

def Channel.name : Channel → String
  | program => "smartcomment"
  | style => "smartcomment.syntax"
  | scanner => "smartcomment.scanner"
  | resolver => "smartcomment.resolver"
  | engine => "smartcomment.engine"
  | commandLine => "smartcomment.cli"
  | other name => name

structure Record where
  level : Level
  channel : Channel
  message : String
  deriving DecidableEq, Repr

structure Logged (ε α : Type) where
  records : List Record
  outcome : Except ε α

namespace Logged

variable {ε α β : Type}

def note (level : Level) (channel : Channel) (message : String) : Logged ε Unit :=
  ⟨[⟨level, channel, message⟩], .ok ()⟩

def notes (records : List Record) : Logged ε Unit := ⟨records, .ok ()⟩

def ofExcept (e : Except ε α) : Logged ε α := ⟨[], e⟩

def fail (e : ε) : Logged ε α := ⟨[], .error e⟩

def bind (x : Logged ε α) (f : α → Logged ε β) : Logged ε β :=
  match x.outcome with
  | .error e => ⟨x.records, .error e⟩
  | .ok a => ⟨x.records ++ (f a).records, (f a).outcome⟩

def mapError {δ : Type} (f : ε → δ) (x : Logged ε α) : Logged δ α :=
  ⟨x.records, x.outcome.mapError f⟩

instance : Monad (Logged ε) where
  pure a := ⟨[], .ok a⟩
  bind := bind

@[simp] theorem outcome_pure (a : α) : (pure a : Logged ε α).outcome = .ok a := rfl

@[simp] theorem outcome_bind (x : Logged ε α) (f : α → Logged ε β) :
    (x >>= f).outcome = x.outcome.bind fun a => (f a).outcome := by
  show (bind x f).outcome = _
  unfold bind
  cases x.outcome <;> rfl

@[simp] theorem records_pure (a : α) : (pure a : Logged ε α).records = [] := rfl

end Logged

end CommentToggle
