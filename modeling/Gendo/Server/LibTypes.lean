import Mathlib.Data.Int.Notation

/-!
# Return values and what ends the process

The constants of `lib-types.h` by which most functions of the server report success, and the
ways in which a function can fail to return at all.
-/

namespace Gendo

/-- `OK`. -/
def OK : ℤ := 0

/-- `ERROR`. -/
def ERROR : ℤ := -1

/-- Why a function does not return. -/
inductive Stop
  | nullPointer
  | assertion
  /-- A loop of the model has used up its number of rounds. -/
  | rounds
  deriving DecidableEq, Repr

/-- A pointer about to be dereferenced. -/
def deref {α : Type} : Option α → Except Stop α
  | some a => .ok a
  | none => .error .nullPointer

/-- `lib_assert`. -/
def libAssert (cond : Prop) [Decidable cond] : Except Stop Unit :=
  if cond then .ok () else .error .assertion

@[simp]
theorem ok_bind {α β : Type} (a : α) (f : α → Except Stop β) : (.ok a >>= f) = f a := rfl

@[simp]
theorem pure_eq_ok {α : Type} (a : α) : (pure a : Except Stop α) = .ok a := rfl

@[simp]
theorem deref_some {α : Type} (a : α) : deref (some a) = .ok a := rfl

end Gendo
