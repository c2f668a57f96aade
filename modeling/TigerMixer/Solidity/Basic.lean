import Mathlib.Data.Nat.ModEq

/-!
# Execution of the contract language

Arithmetic of 256-bit unsigned words, memory arrays and counting loops. Words are naturals. Reading
or writing outside a memory array, and dividing by zero, end the call, as `none`. `Loop.run_spec` is
the invariant rule: a loop whose body succeeds under the invariant succeeds.
-/

namespace TigerMixer

universe u v

abbrev Address := ℕ

structure Msg where
  sender : Address
  value : ℕ
  timestamp : ℕ

/-- The number of 256-bit words. Irreducible, so that unification does not count up to it. -/
@[irreducible]
def wordSize : ℕ := 2 ^ 256

theorem lt_wordSize {value : ℕ} (small : value < 2 ^ 64) : value < wordSize := by
  unfold wordSize
  omega

namespace Word

def add (left right : ℕ) : ℕ := (left + right) % wordSize

def sub (left right : ℕ) : ℕ := (left + (wordSize - right % wordSize)) % wordSize

def mul (left right : ℕ) : ℕ := left * right % wordSize

theorem add_of_lt {left right : ℕ} (fits : left + right < wordSize) :
    add left right = left + right :=
  Nat.mod_eq_of_lt fits

theorem mul_of_lt {left right : ℕ} (fits : left * right < wordSize) :
    mul left right = left * right :=
  Nat.mod_eq_of_lt fits

theorem mul_le (left right : ℕ) : mul left right ≤ left * right :=
  Nat.mod_le _ _

theorem sub_of_le {left right : ℕ} (fits : left < wordSize) (le : right ≤ left) :
    sub left right = left - right := by
  have rightFits : right < wordSize := le.trans_lt fits
  rw [sub, Nat.mod_eq_of_lt rightFits,
    show left + (wordSize - right) = left - right + wordSize by omega, Nat.add_mod_right]
  exact Nat.mod_eq_of_lt ((Nat.sub_le left right).trans_lt fits)

end Word

structure Arithmetic where
  add : ℕ → ℕ → Option ℕ
  sub : ℕ → ℕ → Option ℕ
  mul : ℕ → ℕ → Option ℕ

namespace Arithmetic

def wrapping : Arithmetic where
  add left right := some (Word.add left right)
  sub left right := some (Word.sub left right)
  mul left right := some (Word.mul left right)

def checked : Arithmetic where
  add left right := if left + right < wordSize then some (left + right) else none
  sub left right := if right ≤ left then some (left - right) else none
  mul left right := if left * right < wordSize then some (left * right) else none

/-- Without overflow the arithmetic is that of the naturals. -/
structure Exact (arithmetic : Arithmetic) : Prop where
  add_eq : ∀ {left right : ℕ}, left + right < wordSize →
    arithmetic.add left right = some (left + right)
  sub_eq : ∀ {left right : ℕ}, left < wordSize → right ≤ left →
    arithmetic.sub left right = some (left - right)
  mul_eq : ∀ {left right : ℕ}, left * right < wordSize →
    arithmetic.mul left right = some (left * right)

theorem wrapping_exact : wrapping.Exact where
  add_eq fits := congrArg some (Word.add_of_lt fits)
  sub_eq fits le := congrArg some (Word.sub_of_le fits le)
  mul_eq fits := congrArg some (Word.mul_of_lt fits)

theorem checked_exact : checked.Exact where
  add_eq fits := if_pos fits
  sub_eq _ le := if_pos le
  mul_eq fits := if_pos fits

end Arithmetic

def divide (dividend divisor : ℕ) : Option ℕ :=
  if divisor = 0 then none else some (dividend / divisor)

def remainder (dividend divisor : ℕ) : Option ℕ :=
  if divisor = 0 then none else some (dividend % divisor)

/-- An array in memory: its length is fixed, its cells beyond the length are out of reach. -/
structure MemArray (α : Type u) where
  length : ℕ
  cell : ℕ → α

namespace MemArray

variable {α : Type u}

def create (length : ℕ) (default : α) : MemArray α := ⟨length, fun _ => default⟩

def get (array : MemArray α) (index : ℕ) : Option α :=
  if index < array.length then some (array.cell index) else none

def set (array : MemArray α) (index : ℕ) (value : α) : Option (MemArray α) :=
  if index < array.length then some { array with cell := Function.update array.cell index value }
  else none

def toList (array : MemArray α) : List α := (List.range array.length).map array.cell

theorem get_mk {length index : ℕ} {cell : ℕ → α} (inside : index < length) :
    get ⟨length, cell⟩ index = some (cell index) :=
  if_pos inside

theorem set_mk {length index : ℕ} {cell : ℕ → α} {value : α} (inside : index < length) :
    set ⟨length, cell⟩ index value = some ⟨length, Function.update cell index value⟩ :=
  if_pos inside

end MemArray

inductive Step (σ : Type u)
  | next (state : σ)
  | stop (state : σ)

namespace Loop

variable {σ : Type u}

/-- `for (i = index; i < index + count; i++)`. -/
def run (body : ℕ → σ → Option (Step σ)) (index : ℕ) : ℕ → σ → Option σ
  | 0, state => some state
  | count + 1, state =>
    match body index state with
    | none => none
    | some (.stop state) => some state
    | some (.next state) => run body (index + 1) count state

variable {body : ℕ → σ → Option (Step σ)} {index count : ℕ} {state : σ}

theorem run_spec (invariant : ℕ → σ → Prop) (post : σ → Prop)
    (step : ∀ i state, index ≤ i → i < index + count → invariant i state →
      (∃ state', body i state = some (.next state') ∧ invariant (i + 1) state') ∨
        ∃ state', body i state = some (.stop state') ∧ post state')
    (exit : ∀ state, invariant (index + count) state → post state) (start : invariant index state) :
    ∃ state', run body index count state = some state' ∧ post state' := by
  induction count generalizing index state with
  | zero => exact ⟨state, rfl, exit state start⟩
  | succ count ih =>
    rcases step index state le_rfl (by omega) start with
      ⟨state', continued, start'⟩ | ⟨state', stopped, reached⟩
    · rw [run, continued]
      apply ih _ _ start'
      · intro i state low high
        exact step i state (by omega) (by omega)
      · intro state after
        exact exit state (by rwa [show index + (count + 1) = index + 1 + count by omega])
    · rw [run, stopped]
      exact ⟨state', rfl, reached⟩

theorem run_next (invariant : ℕ → σ → Prop)
    (step : ∀ i state, index ≤ i → i < index + count → invariant i state →
      ∃ state', body i state = some (.next state') ∧ invariant (i + 1) state')
    (start : invariant index state) :
    ∃ state', run body index count state = some state' ∧ invariant (index + count) state' :=
  run_spec invariant _ (fun i state low high holds => Or.inl (step i state low high holds))
    (fun _ holds => holds) start

theorem run_fill {α : Type u} {body : ℕ → MemArray α → Option (Step (MemArray α))} {length : ℕ}
    (default : α) (value : ℕ → α) (step : ∀ index cell, index < length → body index ⟨length, cell⟩ =
      some (.next ⟨length, Function.update cell index (value index)⟩)) :
    ∃ cell, run body 0 length (.create length default) = some ⟨length, cell⟩ ∧
      ∀ index < length, cell index = value index := by
  have filled : ∃ array, run body 0 length (.create length default) = some array ∧
      ∃ cell, array = ⟨length, cell⟩ ∧ ∀ index < 0 + length, cell index = value index := by
    apply run_next fun (bound : ℕ) (array : MemArray α) =>
      ∃ cell, array = ⟨length, cell⟩ ∧ ∀ index < bound, cell index = value index
    · rintro bound - - high ⟨cell, rfl, before⟩
      refine ⟨_, step bound cell (by omega), _, rfl, ?_⟩
      intro index below
      by_cases last : index = bound
      · subst last
        rw [Function.update_self]
      · rw [Function.update_of_ne last]
        exact before index (by omega)
    · exact ⟨_, rfl, by simp⟩
  rcases filled with ⟨-, returned, cell, rfl, values⟩
  exact ⟨cell, returned, by simpa using values⟩

end Loop

end TigerMixer
