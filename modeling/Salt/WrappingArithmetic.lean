import Mathlib.Data.Int.Notation
import Mathlib.Data.Nat.Notation

set_option autoImplicit false

/-!
# Arithmetic modulo a bound

A computation on machine words keeps the exact results of its operations, so
that it can be asked whether one of them has wrapped. Where none has, the words
are the numbers.
-/
namespace WrappingArithmetic
universe u

structure Computed (α : Type u) where
  value : α
  steps : List ℤ

instance : Monad Computed where
  pure a := ⟨a, []⟩
  bind c f := ⟨(f c.value).value, c.steps ++ (f c.value).steps⟩

/-- The word of an exact result. -/
def word (modulus : ℕ) (result : ℤ) : Computed ℕ := ⟨(result % modulus).toNat, [result]⟩

def add (modulus a b : ℕ) : Computed ℕ := word modulus (a + b)
def sub (modulus a b : ℕ) : Computed ℕ := word modulus (a - b)
def mul (modulus a b : ℕ) : Computed ℕ := word modulus (a * b)

def Unwrapped {α : Type u} (modulus : ℕ) (c : Computed α) : Prop :=
  ∀ n ∈ c.steps, 0 ≤ n ∧ n < modulus

/-- No operation wraps, and this is the value. -/
structure Yields {α : Type u} (modulus : ℕ) (c : Computed α) (a : α) : Prop where
  unwrapped : Unwrapped modulus c
  value : c.value = a

section Rules
variable {α β : Type u} {modulus a b : ℕ}

theorem Yields.bind {c : Computed α} {f : α → Computed β} {x : α} {y : β} (hc : Yields modulus c x)
    (hf : Yields modulus (f x) y) : Yields modulus (c >>= f) y := by
  obtain ⟨hsteps, rfl⟩ := hc
  refine ⟨fun n hn => ?_, hf.value⟩
  rcases List.mem_append.1 hn with hn | hn
  · exact hsteps n hn
  · exact hf.unwrapped n hn

theorem Yields.bind_value {c : Computed α} {x : α} (hc : Yields modulus c x)
    (f : α → Computed β) : (c >>= f).value = (f x).value := by
  obtain ⟨-, rfl⟩ := hc
  rfl

theorem Yields.otherwise {p : Prop} [Decidable p] {c d : Computed α} {x : α} (hp : ¬ p)
    (h : Yields modulus d x) : Yields modulus (if p then c else d) x := by
  rwa [if_neg hp]

theorem yields_word {n : ℕ} (h : n < modulus) : Yields modulus (word modulus n) n := by
  refine ⟨fun m hm => ?_, ?_⟩
  · obtain rfl : m = n := by simpa [word] using hm
    omega
  · change ((n : ℤ) % modulus).toNat = n
    rw [Int.emod_eq_of_lt] <;> omega

theorem yields_add (h : a + b < modulus) : Yields modulus (add modulus a b) (a + b) := by
  have hsum : ((a : ℤ) + b) = (a + b : ℕ) := by omega
  rw [add, hsum]
  exact yields_word h

theorem yields_sub (hb : b ≤ a) (ha : a < modulus) : Yields modulus (sub modulus a b) (a - b) := by
  have hdiff : ((a : ℤ) - b) = (a - b : ℕ) := by omega
  rw [sub, hdiff]
  exact yields_word (by omega)

theorem yields_mul (h : a * b < modulus) : Yields modulus (mul modulus a b) (a * b) := by
  rw [mul, ← Int.natCast_mul]
  exact yields_word h

end Rules

end WrappingArithmetic
