import Salt.TracedState

set_option autoImplicit false

/-!
# Programs and their shadows

The shadow of a program is its run from the image of the state under a map
`g`. It goes along with the program, state for state, until something happens
that lets the program end in `B`; and whatever happens, the states of the
program stay related by `R`.
-/
namespace TracedState
universe u

structure Shadowed {σ α : Type u} (g : σ → σ) (R : σ → σ → Prop) (B : α → σ → σ → Prop)
    (m : Traced σ α) : Prop where
  related : ∀ s, R s (m s).final
  shadow : ∀ s, ((m (g s)).value = (m s).value ∧ (m (g s)).final = g (m s).final) ∨
    B (m s).value s (m s).final

section Shadows
variable {σ α β : Type u} {g : σ → σ} {R : σ → σ → Prop} {B : α → σ → σ → Prop}
  {C : β → σ → σ → Prop}

/-- What commutes with the map never leaves its shadow. -/
theorem Shadowed.of_commutes {m : Traced σ α} (hm : Commutes g m) (hr : ∀ s, R s (m s).final) :
    Shadowed g R B m := ⟨hr, fun s => .inl (hm s)⟩

theorem Shadowed.mono {B' : α → σ → σ → Prop} {m : Traced σ α} (hm : Shadowed g R B m)
    (hb : ∀ a s s', B a s s' → B' a s s') : Shadowed g R B' m :=
  ⟨hm.related, fun s => (hm.shadow s).imp_right (hb _ _ _)⟩

theorem Shadowed.ite {c : Prop} [Decidable c] {m n : Traced σ α} (hm : Shadowed g R B m)
    (hn : Shadowed g R B n) : Shadowed g R B (if c then m else n) := by
  split_ifs <;> assumption

/-- A program that has left its shadow has to end in `C`; from then on nothing is asked of the
shadow. -/
theorem Shadowed.bind (htrans : ∀ r s t, R r s → R s t → R r t)
    (hearlier : ∀ b r s t, R r s → R s t → C b s t → C b r t) {m : Traced σ α} {f : α → Traced σ β}
    (hm : Shadowed g R B m) (hf : ∀ a, Shadowed g R C (f a))
    (hleft : ∀ a s s', R s s' → B a s s' → C (f a s').value s (f a s').final) :
    Shadowed g R C (m >>= f) where
  related s := htrans _ _ _ (hm.related s) ((hf _).related _)
  shadow s := by
    rcases hm.shadow s with ⟨hv, hs⟩ | hb
    · rcases (hf (m s).value).shadow (m s).final with h | hc
      · refine .inl ?_
        simp only [bind_value, bind_final, hv, hs]
        exact h
      · exact .inr (hearlier _ _ _ _ (hm.related s) ((hf _).related _) hc)
    · exact .inr (hleft _ _ _ (hm.related s) hb)

end Shadows
end TracedState
