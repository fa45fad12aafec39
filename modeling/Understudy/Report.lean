import Understudy.Failure
import Understudy.Text.Terminal

/-!
# Reports

A computation that can fail and takes notes on the way. The notes are what the program can write
to its log; those taken before a failure are kept. The result of a computation does not depend
on its notes: `result` of a sequence is the sequence of the results.
-/

set_option autoImplicit false

namespace Understudy

/-- How important a note is. -/
inductive Level where
  | error
  | warn
  | info
  | debug
  | trace
  deriving Repr, DecidableEq

namespace Level

/-- The name of a level in the log. -/
def label : Level → String
  | error => "ERROR"
  | warn => "WARN"
  | info => "INFO"
  | debug => "DEBUG"
  | trace => "TRACE"

/-- How much detail a level brings. -/
def detail : Level → Nat
  | error => 1
  | warn => 2
  | info => 3
  | debug => 4
  | trace => 5

end Level

/-- A note for the log. -/
structure Note where
  level : Level
  message : String
  deriving Repr, DecidableEq

/-- The line of a note in the log. -/
def Note.line (n : Note) : String := n.level.label ++ " " ++ Text.inert n.message

/-- A result with the notes that were taken. -/
structure Report (α : Type) where
  notes : List Note
  result : Except Failure α

namespace Report

variable {α β : Type}

instance : Monad Report where
  pure a := ⟨[], .ok a⟩
  bind r f :=
    match r.result with
    | .ok a =>
      let s := f a
      ⟨r.notes ++ s.notes, s.result⟩
    | .error failure => ⟨r.notes, .error failure⟩

/-- Takes a note. -/
def note (level : Level) (message : String) : Report Unit := ⟨[⟨level, message⟩], .ok ()⟩

/-- Takes several notes. -/
def noteAll (notes : List Note) : Report Unit := ⟨notes, .ok ()⟩

/-- Fails. -/
def fail (failure : Failure) : Report α := ⟨[], .error failure⟩

/-- A result without notes. -/
def ofExcept (result : Except Failure α) : Report α := ⟨[], result⟩

@[simp] theorem result_pure (a : α) : (pure a : Report α).result = .ok a := rfl

@[simp] theorem result_bind (r : Report α) (f : α → Report β) :
    (r >>= f).result = (r.result >>= fun a => (f a).result) := by
  cases h : r.result <;> simp [bind, Except.bind, h]

@[simp] theorem result_note (level : Level) (message : String) :
    (note level message).result = .ok () := rfl

@[simp] theorem result_noteAll (notes : List Note) : (noteAll notes).result = .ok () := rfl

@[simp] theorem result_fail (failure : Failure) :
    (fail failure : Report α).result = .error failure := rfl

@[simp] theorem result_ofExcept (result : Except Failure α) :
    (ofExcept result).result = result := rfl

end Report

end Understudy
