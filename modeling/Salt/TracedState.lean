import Mathlib.Tactic.Common

set_option autoImplicit false

/-!
# Deterministic programs over a state, with the states they pass through

A program maps the state it starts in to a result, a final state and the list
of states left by its atomic steps, in order. Choices of the environment are
read from the state, so a theorem about every environment is a theorem about
every initial state.
-/
namespace TracedState
universe u

structure Run (σ α : Type u) where
  value : α
  final : σ
  visited : List σ

def Traced (σ α : Type u) := σ → Run σ α

namespace Traced
variable {σ α β : Type u}

def pure (a : α) : Traced σ α := fun s => ⟨a, s, []⟩

def bind (m : Traced σ α) (f : α → Traced σ β) : Traced σ β := fun s =>
  let r := m s
  let q := f r.value r.final
  ⟨q.value, q.final, r.visited ++ q.visited⟩

instance : Monad (Traced σ) where
  pure := Traced.pure
  bind := Traced.bind

def step (f : σ → α × σ) : Traced σ α := fun s => ⟨(f s).1, (f s).2, [(f s).2]⟩

/-- A read leaves no state behind. -/
def read (f : σ → α) : Traced σ α := fun s => ⟨f s, s, []⟩

def update (g : σ → σ) : Traced σ PUnit := step fun s => (⟨⟩, g s)

end Traced

section Equations
variable {σ α β : Type u}

@[simp] theorem pure_value (a : α) (s : σ) : ((pure a : Traced σ α) s).value = a := rfl
@[simp] theorem pure_final (a : α) (s : σ) : ((pure a : Traced σ α) s).final = s := rfl

@[simp] theorem bind_value (m : Traced σ α) (f : α → Traced σ β) (s : σ) :
    ((m >>= f) s).value = (f (m s).value (m s).final).value := rfl

@[simp] theorem bind_final (m : Traced σ α) (f : α → Traced σ β) (s : σ) :
    ((m >>= f) s).final = (f (m s).value (m s).final).final := rfl

@[simp] theorem step_value (f : σ → α × σ) (s : σ) : (Traced.step f s).value = (f s).1 := rfl
@[simp] theorem step_final (f : σ → α × σ) (s : σ) : (Traced.step f s).final = (f s).2 := rfl
@[simp] theorem read_value (f : σ → α) (s : σ) : (Traced.read f s).value = f s := rfl
@[simp] theorem read_final (f : σ → α) (s : σ) : (Traced.read f s).final = s := rfl
@[simp] theorem update_final (g : σ → σ) (s : σ) : (Traced.update g s).final = g s := rfl

@[simp] theorem pure_visited (a : α) (s : σ) : ((pure a : Traced σ α) s).visited = [] := rfl

@[simp] theorem bind_visited (m : Traced σ α) (f : α → Traced σ β) (s : σ) :
    ((m >>= f) s).visited = (m s).visited ++ (f (m s).value (m s).final).visited := rfl

end Equations

/-- From the state `s` the program ends with a value and a state in `Q`. -/
def Ends {σ α : Type u} (m : Traced σ α) (s : σ) (Q : α → σ → Prop) : Prop :=
  Q (m s).value (m s).final

section Ending
variable {σ α β : Type u} {s : σ} {Q R : α → σ → Prop}

theorem Ends.ret {a : α} (h : Q a s) : Ends (pure a) s Q := h

theorem Ends.bind {m : Traced σ α} {f : α → Traced σ β} {S : β → σ → Prop} (hm : Ends m s R)
    (hf : ∀ a s', R a s' → Ends (f a) s' S) : Ends (m >>= f) s S :=
  hf _ _ hm

theorem Ends.then {m : Traced σ α} {f : α → Traced σ β} {S : β → σ → Prop}
    (hf : ∀ a s', Ends (f a) s' S) : Ends (m >>= f) s S := hf _ _

theorem Ends.ite {c : Prop} [Decidable c] {m n : Traced σ α} (hm : c → Ends m s Q)
    (hn : ¬ c → Ends n s Q) : Ends (if c then m else n) s Q := by
  split_ifs with h
  · exact hm h
  · exact hn h

theorem Ends.mono {m : Traced σ α} (h : Ends m s R) (hq : ∀ a s', R a s' → Q a s') :
    Ends m s Q :=
  hq _ _ h

/-- A read hands on its value and nothing else. -/
theorem Ends.bind_read {f : σ → α} {k : α → Traced σ β} {S : β → σ → Prop} {a : α} (ha : f s = a)
    (hk : Ends (k a) s S) : Ends (Traced.read f >>= k) s S := by
  subst ha
  exact hk

theorem Ends.and {m : Traced σ α} (h : Ends m s Q) (h' : Ends m s R) :
    Ends m s fun a s' => Q a s' ∧ R a s' :=
  ⟨h, h'⟩

end Ending

/-- Every state a program passes through, the last one too, is related to the first. -/
def Through {σ α : Type u} (R : σ → σ → Prop) (m : Traced σ α) : Prop :=
  ∀ s, R s (m s).final ∧ ∀ t ∈ (m s).visited, R s t

section Passing
variable {σ α β : Type u} {R : σ → σ → Prop}

theorem Through.ret (hrefl : ∀ s, R s s) (a : α) : Through R (pure a : Traced σ α) := fun s =>
  ⟨hrefl s, fun _ ht => absurd ht List.not_mem_nil⟩

theorem Through.bind (htrans : ∀ r s t, R r s → R s t → R r t) {m : Traced σ α}
    {f : α → Traced σ β} (hm : Through R m) (hf : ∀ a, Through R (f a)) : Through R (m >>= f) := by
  intro s
  obtain ⟨hfinal, hvisited⟩ := hm s
  obtain ⟨hfinal', hvisited'⟩ := hf (m s).value (m s).final
  refine ⟨htrans _ _ _ hfinal hfinal', fun t ht => ?_⟩
  rcases List.mem_append.1 ht with ht | ht
  · exact hvisited t ht
  · exact htrans _ _ _ hfinal (hvisited' t ht)

theorem Through.step {f : σ → α × σ} (h : ∀ s, R s (f s).2) : Through R (Traced.step f) := fun s =>
  ⟨h s, fun _ ht => List.mem_singleton.1 ht ▸ h s⟩

theorem Through.read (hrefl : ∀ s, R s s) (f : σ → α) : Through R (Traced.read f) := fun s =>
  ⟨hrefl s, fun _ ht => absurd ht List.not_mem_nil⟩

end Passing

/-- From the state `s` every state the program passes through, the last one too, is in `P`. -/
def Stays {σ α : Type u} (P : σ → Prop) (m : Traced σ α) (s : σ) : Prop :=
  P (m s).final ∧ ∀ t ∈ (m s).visited, P t

section Staying
variable {σ α β : Type u} {P : σ → Prop} {s : σ}

theorem Stays.ret {a : α} (h : P s) : Stays P (pure a : Traced σ α) s :=
  ⟨h, fun _ ht => absurd ht List.not_mem_nil⟩

theorem Stays.bind {m : Traced σ α} {f : α → Traced σ β} (hm : ∀ t ∈ (m s).visited, P t)
    (hf : Stays P (f (m s).value) (m s).final) : Stays P (m >>= f) s := by
  refine ⟨hf.1, fun t ht => ?_⟩
  rcases List.mem_append.1 ht with ht | ht
  · exact hm t ht
  · exact hf.2 t ht

theorem Stays.congr {m n : Traced σ α} (h : m s = n s) (hn : Stays P n s) : Stays P m s := by
  unfold Stays
  rw [h]
  exact hn

theorem Stays.step {f : σ → α × σ} (h : P (f s).2) : Stays P (Traced.step f) s :=
  ⟨h, fun _ ht => List.mem_singleton.1 ht ▸ h⟩

theorem Through.stays {R : σ → σ → Prop} {m : Traced σ α} (h : Through R m)
    (hp : ∀ t, R s t → P t) : Stays P m s :=
  ⟨hp _ (h s).1, fun t ht => hp t ((h s).2 t ht)⟩

end Staying

/-- Changing the state by `g` before the program is changing it afterwards. -/
def Commutes {σ α : Type u} (g : σ → σ) (m : Traced σ α) : Prop :=
  ∀ s, (m (g s)).value = (m s).value ∧ (m (g s)).final = g (m s).final

section Commuting
variable {σ α β : Type u} {g : σ → σ}

theorem Commutes.ret (a : α) : Commutes g (pure a : Traced σ α) := fun _ => ⟨rfl, rfl⟩

theorem Commutes.bind {m : Traced σ α} {f : α → Traced σ β} (hm : Commutes g m)
    (hf : ∀ a, Commutes g (f a)) : Commutes g (m >>= f) := by
  intro s
  obtain ⟨hv, hs⟩ := hm s
  simp only [bind_value, bind_final, hv, hs]
  exact hf _ _

theorem Commutes.ite {c : Prop} [Decidable c] {m n : Traced σ α} (hm : Commutes g m)
    (hn : Commutes g n) : Commutes g (if c then m else n) := by
  split_ifs <;> assumption

theorem Commutes.step {f : σ → α × σ} (h : ∀ s, f (g s) = ((f s).1, g (f s).2)) :
    Commutes g (Traced.step f) := by
  intro s
  simp only [Traced.step, h s, and_self]

theorem Commutes.read {f : σ → α} (h : ∀ s, f (g s) = f s) : Commutes g (Traced.read f) :=
  fun s => ⟨h s, rfl⟩

theorem Commutes.update {k : σ → σ} (h : ∀ s, k (g s) = g (k s)) :
    Commutes g (Traced.update k) := fun s => ⟨rfl, h s⟩

end Commuting

/-- Two programs, each from its own state, end in related results. -/
def Jointly {σ α β : Type u} (m : Traced σ α) (n : Traced σ β) (s t : σ)
    (Q : α → β → σ → σ → Prop) : Prop :=
  Q (m s).value (n t).value (m s).final (n t).final

section Pairs
variable {σ α β γ δ : Type u} {s t : σ} {Q R : α → β → σ → σ → Prop}

theorem Jointly.ret {a : α} {b : β} (h : Q a b s t) : Jointly (pure a) (pure b) s t Q := h

theorem Jointly.bind {m : Traced σ α} {n : Traced σ β} {f : α → Traced σ γ} {g : β → Traced σ δ}
    {S : γ → δ → σ → σ → Prop} (hm : Jointly m n s t R)
    (hf : ∀ a b s' t', R a b s' t' → Jointly (f a) (g b) s' t' S) :
    Jointly (m >>= f) (n >>= g) s t S :=
  hf _ _ _ _ hm

theorem Jointly.bind_read {f : σ → α} {g : σ → β} {k : α → Traced σ γ} {k' : β → Traced σ δ}
    {S : γ → δ → σ → σ → Prop} {a : α} {b : β} (ha : f s = a) (hb : g t = b)
    (hk : Jointly (k a) (k' b) s t S) : Jointly (Traced.read f >>= k) (Traced.read g >>= k') s t S := by
  subst ha hb
  exact hk

theorem Jointly.ite {c d : Prop} [Decidable c] [Decidable d] {m m' : Traced σ α}
    {n n' : Traced σ β} (hcd : c ↔ d) (hm : c → Jointly m n s t Q)
    (hn : ¬ c → Jointly m' n' s t Q) :
    Jointly (if c then m else m') (if d then n else n') s t Q := by
  by_cases h : c
  · rw [if_pos h, if_pos (hcd.1 h)]
    exact hm h
  · rw [if_neg h, if_neg fun hd => h (hcd.2 hd)]
    exact hn h

theorem Jointly.mono {m : Traced σ α} {n : Traced σ β} (h : Jointly m n s t R)
    (hq : ∀ a b s' t', R a b s' t' → Q a b s' t') : Jointly m n s t Q :=
  hq _ _ _ _ h

theorem Jointly.and_ends {m : Traced σ α} {n : Traced σ β} {P : α → σ → Prop} {P' : β → σ → Prop}
    (h : Jointly m n s t Q) (hm : Ends m s P) (hn : Ends n t P') :
    Jointly m n s t fun a b s' t' => Q a b s' t' ∧ P a s' ∧ P' b t' :=
  ⟨h, hm, hn⟩

end Pairs

/-- From related states two programs end with related values in related states. -/
def Paired {σ α β : Type u} (R : σ → σ → Prop) (V : α → β → Prop) (m : Traced σ α)
    (n : Traced σ β) : Prop :=
  ∀ s t, R s t → Jointly m n s t fun a b s' t' => V a b ∧ R s' t'

section Pairing
variable {σ α β γ δ : Type u} {R : σ → σ → Prop} {U : γ → δ → Prop} {V : α → β → Prop}

theorem Paired.ret {a : α} {b : β} (h : V a b) : Paired R V (pure a) (pure b) :=
  fun _ _ hr => ⟨h, hr⟩

theorem Paired.bind {m : Traced σ α} {n : Traced σ β} {f : α → Traced σ γ} {g : β → Traced σ δ}
    (hm : Paired R V m n) (hf : ∀ a b, V a b → Paired R U (f a) (g b)) :
    Paired R U (m >>= f) (n >>= g) :=
  fun s t hr => (hm s t hr).bind fun a b _ _ h => hf a b h.1 _ _ h.2

theorem Paired.bind_eq {m n : Traced σ α} {f : α → Traced σ γ} {g : α → Traced σ δ}
    (hm : Paired R Eq m n) (hf : ∀ a, Paired R U (f a) (g a)) : Paired R U (m >>= f) (n >>= g) :=
  hm.bind fun a _ hab => hab ▸ hf a

theorem Paired.ite {c d : Prop} [Decidable c] [Decidable d] {m m' : Traced σ α}
    {n n' : Traced σ β} (hcd : c ↔ d) (hm : Paired R V m n) (hn : Paired R V m' n') :
    Paired R V (if c then m else m') (if d then n else n') :=
  fun s t hr => .ite hcd (fun _ => hm s t hr) fun _ => hn s t hr

end Pairing
end TracedState
