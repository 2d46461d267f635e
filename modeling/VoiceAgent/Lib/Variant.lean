import VoiceAgent.Lib.TSys

/-!
# Progress under interference

Some steps of a system are its progress towards a goal, the others are taken by its
environment as it likes. A `Variant` is a measure that each step of progress brings
down and no other step raises, so a run holds at most as many steps of progress as the
measure says at its start (`Variant.run`), whatever else happens in between. Where some
step brings a measure down in every state short of the goal, the goal is in reach
(`reaches_of_falls`).
-/

namespace Lib

namespace TSys

universe u v

variable {S : Type u} {A : Type v} {T : TSys S A}

/-- Steps that meet `P` bring `μ` down, no other step raises it, and all of them keep
`I`. -/
structure Variant (T : TSys S A) (I : S → Prop) (P : S → A → Bool) (μ : S → Nat) : Prop where
  keeps : T.Preserved I
  falls : ∀ ⦃σ a τ⦄, I σ → P σ a = true → T.step σ a = some τ → μ τ < μ σ
  stays : ∀ ⦃σ a τ⦄, I σ → P σ a = false → T.step σ a = some τ → μ τ ≤ μ σ

variable {I : S → Prop} {P : S → A → Bool} {μ : S → Nat}

/-- The steps of progress of a run are paid for by the measure. -/
theorem Variant.run (h : T.Variant I P μ) {σ τ : S} {tr : List (S × A)} (hσ : I σ)
    (hrun : T.Run σ tr τ) : tr.countP (fun p => P p.1 p.2) + μ τ ≤ μ σ := by
  induction hrun with
  | nil => simp
  | @snoc tr ρ τ a hrun hstep ih =>
      have hρ : I ρ := h.keeps.run hrun hσ
      rw [List.countP_append, List.countP_singleton]
      cases hP : P ρ a with
      | true =>
          have hlt := h.falls hρ hP hstep
          simp only [if_true]
          omega
      | false =>
          have hle := h.stays hρ hP hstep
          simp only [Bool.false_eq_true, if_false]
          omega

/-- Where some step brings the measure down in every state short of the goal, the goal is
in reach. -/
theorem reaches_of_falls {G : S → Prop} {Q : A → Prop}
    (henabled : ∀ ⦃σ⦄, I σ → ¬ G σ → ∃ a τ, T.step σ a = some τ ∧ Q a ∧ I τ ∧ μ τ < μ σ) {σ : S}
    (hσ : I σ) : ∃ tr τ, T.Run σ tr τ ∧ G τ ∧ I τ ∧ ∀ p ∈ tr, Q p.2 := by
  induction hn : μ σ using Nat.strongRecOn generalizing σ with
  | _ n ih =>
      by_cases hG : G σ
      · exact ⟨[], σ, .nil, hG, hσ, by simp⟩
      · obtain ⟨a, ρ, hstep, hQ, hρ, hlt⟩ := henabled hσ hG
        obtain ⟨tr, τ, hrun, hτ, hI, hall⟩ := ih (μ ρ) (hn ▸ hlt) hρ rfl
        refine ⟨(σ, a) :: tr, τ, Run.cons hstep hrun, hτ, hI, ?_⟩
        rw [List.forall_mem_cons]
        exact ⟨hQ, hall⟩

end TSys

end Lib
