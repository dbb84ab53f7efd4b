import Mathlib.Algebra.Order.Group.Nat
import Mathlib.Algebra.Order.Monoid.Prod
import Salt.TracedState

set_option autoImplicit false

/-!
# What a program may spend on its way

A meter says how far apart two states can be when so much was spent between
them. Distances add up, so a program spends at most what its parts spend, in
every state it passes through. Rises and falls of a measure are meters, two
meters make one that counts both, and a meter can be read under a condition
that it keeps up.
-/
namespace Expenses
open TracedState
universe u

structure Meter (M σ : Type u) [AddMonoid M] [Preorder M] where
  within : M → σ → σ → Prop
  refl : ∀ s, within 0 s s
  trans : ∀ {a b r s t}, within a r s → within b s t → within (a + b) r t
  mono : ∀ {a b s t}, a ≤ b → within a s t → within b s t

namespace Meter

section Meters
variable {M N σ : Type u} [AddMonoid M] [Preorder M] [AddMonoid N] [Preorder N]

/-- How much a measure has risen. -/
def rise {σ : Type} (μ : σ → ℕ) : Meter ℕ σ where
  within a s t := μ t ≤ μ s + a
  refl _ := le_rfl
  trans h h' := by omega
  mono h h' := by omega

def fall {σ : Type} (μ : σ → ℕ) : Meter ℕ σ where
  within a s t := μ s ≤ μ t + a
  refl _ := le_rfl
  trans h h' := by omega
  mono h h' := by omega

def both (D : Meter M σ) (E : Meter N σ) : Meter (M × N) σ where
  within a s t := D.within a.1 s t ∧ E.within a.2 s t
  refl s := ⟨D.refl s, E.refl s⟩
  trans h h' := ⟨D.trans h.1 h'.1, E.trans h.2 h'.2⟩
  mono h h' := ⟨D.mono h.1 h'.1, E.mono h.2 h'.2⟩

/-- Distances from the states in `P`, which lead to states in `P`. -/
def under (D : Meter M σ) (P : σ → Prop) : Meter M σ where
  within a s t := P s → P t ∧ D.within a s t
  refl s hs := ⟨hs, D.refl s⟩
  trans h h' hr :=
    have hs := h hr
    have ht := h' hs.1
    ⟨ht.1, D.trans hs.2 ht.2⟩
  mono h h' hs := ⟨(h' hs).1, D.mono h (h' hs).2⟩

end Meters

section Spending
variable {M σ α β : Type u} [AddMonoid M] [Preorder M] {D : Meter M σ} {a b c : M} {s : σ}
  {m n : Traced σ α} {f : α → Traced σ β}

def SpendsAt (D : Meter M σ) (a : M) (m : Traced σ α) (s : σ) : Prop := Stays (D.within a s) m s

def Spends (D : Meter M σ) (a : M) (m : Traced σ α) : Prop := ∀ s, D.SpendsAt a m s

theorem spends_of_through {R : σ → σ → Prop} (hm : Through R m)
    (h : ∀ s t, R s t → D.within a s t) : D.Spends a m := fun s => hm.stays fun t => h s t

theorem SpendsAt.mono (hm : D.SpendsAt a m s) (h : a ≤ b) : D.SpendsAt b m s :=
  ⟨D.mono h hm.1, fun t ht => D.mono h (hm.2 t ht)⟩

theorem Spends.mono (hm : D.Spends a m) (h : a ≤ b) : D.Spends b m := fun s => (hm s).mono h

theorem Spends.step {f : σ → α × σ} (h : ∀ s, D.within a s (f s).2) :
    D.Spends a (Traced.step f) := fun s => Stays.step (h s)

theorem SpendsAt.ite {p : Prop} [Decidable p] (hm : p → D.SpendsAt a m s)
    (hn : ¬ p → D.SpendsAt a n s) : D.SpendsAt a (if p then m else n) s := by
  split_ifs with hp
  · exact hm hp
  · exact hn hp

theorem Spends.ite {p : Prop} [Decidable p] (hm : D.Spends a m) (hn : D.Spends a n) :
    D.Spends a (if p then m else n) := fun s => .ite (fun _ => hm s) fun _ => hn s

theorem spends_under {P : σ → Prop} (h : ∀ s, P s → (D.under P).SpendsAt a m s) :
    (D.under P).Spends a m := by
  intro s
  by_cases hs : P s
  · exact h s hs
  · exact ⟨fun hp => absurd hp hs, fun t _ hp => absurd hp hs⟩

theorem SpendsAt.of_under {P : σ → Prop} (hm : (D.under P).SpendsAt a m s) (hs : P s) :
    D.SpendsAt a m s :=
  ⟨(hm.1 hs).2, fun t ht => (hm.2 t ht hs).2⟩

variable [CanonicallyOrderedAdd M]

/-- What the rest spends depends on the value and the state it starts with. -/
theorem SpendsAt.bind (hm : D.SpendsAt a m s) (hf : D.SpendsAt b (f (m s).value) (m s).final) :
    D.SpendsAt (a + b) (m >>= f) s :=
  Stays.bind (fun t ht => D.mono le_self_add (hm.2 t ht))
    ⟨D.trans hm.1 hf.1, fun t ht => D.trans hm.1 (hf.2 t ht)⟩

theorem Spends.bind (hm : D.Spends a m) (hf : ∀ x, D.Spends b (f x)) :
    D.Spends (a + b) (m >>= f) := fun s => (hm s).bind (hf _ _)

/-- The rest may rely on what the first program returns. -/
theorem Spends.bind_value {Q : α → Prop} (hm : D.Spends a m) (hq : ∀ s, Q (m s).value)
    (hf : ∀ x, Q x → D.Spends b (f x)) : D.Spends (a + b) (m >>= f) := fun s =>
  (hm s).bind (hf _ (hq s) _)

theorem SpendsAt.free_bind (hm : D.SpendsAt 0 m s) (hf : D.SpendsAt b (f (m s).value) (m s).final) :
    D.SpendsAt b (m >>= f) s := zero_add b ▸ hm.bind hf

theorem Spends.free_bind (hm : D.Spends 0 m) (hf : ∀ x, D.Spends b (f x)) :
    D.Spends b (m >>= f) := fun s => (hm s).free_bind (hf _ _)

theorem SpendsAt.bind_free (hm : D.SpendsAt a m s) (hf : ∀ x, D.Spends 0 (f x)) :
    D.SpendsAt a (m >>= f) s := add_zero a ▸ hm.bind (hf _ _)

theorem Spends.bind_free (hm : D.Spends a m) (hf : ∀ x, D.Spends 0 (f x)) :
    D.Spends a (m >>= f) := fun s => (hm s).bind_free hf

end Spending
end Meter
end Expenses
