import Mathlib.Logic.Function.Basic

/-! Files by path, and programs that change them an operation at a time: an operation can fail,
and a program can be killed at any of them. -/
namespace McuUpdater.Disk

abbrev Files (π β : Type) := π → Option β

inductive Fate
  | succeeds
  | fails
  | killed
  deriving DecidableEq

inductive Outcome (α : Type)
  | returned (value : α)
  | raised
  | killed
  deriving DecidableEq

def Program (π β α : Type) := Files π β → Files π β × Outcome α

namespace Program
variable {π β α γ : Type}

/-- What follows is not run where the program has raised or is dead. -/
def andThen (p : Program π β α) (next : α → Program π β γ) : Program π β γ := fun files =>
  match p files with
  | (files, .returned value) => next value files
  | (files, .raised) => (files, .raised)
  | (files, .killed) => (files, .killed)

instance : Monad (Program π β) where
  pure value files := (files, .returned value)
  bind := andThen

def raise : Program π β α := fun files => (files, .raised)

/-- `try: p` and `except: handler` -/
def attempt (p handler : Program π β α) : Program π β α := fun files =>
  match p files with
  | (files, .raised) => handler files
  | result => result

/-- An operation that makes of the files `effect` or, where it does not come to its end, `broken`. -/
def operation (fate : Fate) (effect broken : Files π β → Files π β) : Program π β Unit :=
  fun files =>
    match fate with
    | .succeeds => (effect files, .returned ())
    | .fails => (broken files, .raised)
    | .killed => (broken files, .killed)

def isfile (path : π) : Program π β Bool := fun files => (files, .returned (files path).isSome)

variable [DecidableEq π]

/-- A write that does not come to its end leaves some other content, or none. -/
def write (path : π) (text : β) (left : Option β) (fate : Fate) : Program π β Unit :=
  operation fate (Function.update · path (some text)) (Function.update · path left)

def unlink (path : π) (fate : Fate) : Program π β Unit := fun files =>
  if (files path).isNone then (files, .raised)
  else operation fate (Function.update · path none) id files

/-- A rename is made whole or not at all. -/
def rename (source target : π) (fate : Fate) : Program π β Unit := fun files =>
  if (files source).isNone then (files, .raised)
  else operation fate
    (fun files => Function.update (Function.update files target (files source)) source none) id files

/-! ## Where a program stops -/

section Stops
omit [DecidableEq π]
variable {p : Program π β α} {next : α → Program π β γ} {files after : Files π β}

theorem bind_returned {value : α} (h : p files = (after, .returned value)) :
    (p >>= next) files = next value after := by
  change andThen p next files = next value after
  rw [andThen, h]

theorem bind_stopped (h : ∀ value, (p files).2 ≠ .returned value) :
    ((p >>= next) files).1 = (p files).1 := by
  change (andThen p next files).1 = (p files).1
  rcases heq : p files with ⟨after, value | _ | _⟩
  · exact absurd (by rw [heq]) (h value)
  · rw [andThen, heq]
  · rw [andThen, heq]

theorem succeeds_of_operation {fate : Fate} {effect broken : Files π β → Files π β} {value : Unit}
    (h : (operation fate effect broken files).2 = .returned value) : fate = .succeeds := by
  cases fate with
  | succeeds => rfl
  | fails | killed => cases h

theorem bind_raise_ne (value : γ) : ((p >>= fun _ => (raise : Program π β γ)) files).2 ≠
    .returned value := by
  change (andThen p _ files).2 ≠ _
  rw [andThen]
  split <;> exact nofun

/-- A handler that raises only lets the program's own value through. -/
theorem returned_of_attempt {handler : Program π β α} {value : α}
    (h : (attempt p handler files).2 = .returned value)
    (hraises : ∀ files, (handler files).2 ≠ .returned value) : (p files).2 = .returned value := by
  rw [attempt] at h
  split at h
  · exact absurd h (hraises _)
  · exact h

end Stops

/-! ## What a program leaves alone -/

def Leaves (path : π) (p : Program π β α) : Prop := ∀ files, (p files).1 path = files path

variable {path other : π} {p handler : Program π β α} {fate : Fate}

omit [DecidableEq π] in
theorem leaves_operation {effect broken : Files π β → Files π β}
    (heffect : ∀ files, effect files path = files path)
    (hbroken : ∀ files, broken files path = files path) :
    Leaves path (operation fate effect broken) := by
  intro files
  cases fate with
  | succeeds => exact heffect files
  | fails | killed => exact hbroken files

theorem leaves_write (h : path ≠ other) (text : β) (left : Option β) :
    Leaves path (write other text left fate) :=
  leaves_operation (fun _ => Function.update_of_ne h _ _) fun _ => Function.update_of_ne h _ _

theorem leaves_unlink (h : path ≠ other) : Leaves path (unlink (β := β) other fate) := by
  intro files
  rw [unlink]
  split
  · rfl
  · exact leaves_operation (fun _ => Function.update_of_ne h _ _) (fun _ => rfl) files

omit [DecidableEq π] in
theorem leaves_bind {next : α → Program π β γ} (hp : Leaves path p)
    (hnext : ∀ value, Leaves path (next value)) : Leaves path (p >>= next) := by
  intro files
  by_cases h : ∃ value, (p files).2 = .returned value
  · obtain ⟨value, hvalue⟩ := h
    rw [bind_returned (Prod.ext rfl hvalue), hnext value]
    exact hp files
  · rw [bind_stopped (not_exists.1 h)]
    exact hp files

omit [DecidableEq π] in
theorem leaves_attempt (hp : Leaves path p) (hhandler : Leaves path handler) :
    Leaves path (attempt p handler) := by
  intro files
  have hfirst := hp files
  rw [attempt]
  split
  next after heq =>
    rw [heq] at hfirst
    exact (hhandler after).trans hfirst
  next => exact hfirst

end Program
end McuUpdater.Disk
