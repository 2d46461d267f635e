import VoiceAgent.Lib.TSys

/-!
# Forward simulations between transition systems

A system `C` is simulated by a system `M` where every step of `C` is matched by
a run of `M`, of any length, that shows the same. What an action shows is a list
of observations, so that a step of `C` may show nothing, or several things at
once, and `M` may take as many steps as it needs for them.

`Simulation.run` lifts this to runs: what a run of `C` shows, a run of `M` shows
in the same order. An invariant of `M` then holds of every reachable state of
`C`, seen through the relation (`Simulation.invariant`), and simulations compose
(`Simulation.trans`).
-/

namespace Lib

universe u v w

namespace TSys

variable {S S' S'' A A' A'' : Type u} {O : Type v}

/-- What the actions of a trace show, in order. -/
def shown (show' : A → List O) (tr : List (S × A)) : List O :=
  tr.flatMap fun p => show' p.2

@[simp] theorem shown_nil (show' : A → List O) : shown (S := S) show' [] = [] := rfl

@[simp] theorem shown_append (show' : A → List O) (tr tr' : List (S × A)) :
    shown show' (tr ++ tr') = shown show' tr ++ shown show' tr' := List.flatMap_append

@[simp] theorem shown_singleton (show' : A → List O) (p : S × A) :
    shown show' [p] = show' p.2 := List.flatMap_singleton ..

/-- `C` is simulated by `M` up to `R`: related states are matched at the start,
and each step of `C` is matched by a run of `M` that shows the same. -/
structure Simulation (C : TSys S A) (M : TSys S' A') (see : A → List O)
    (see' : A' → List O) (R : S → S' → Prop) : Prop where
  init : ∀ σ, C.init σ → ∃ σ', M.init σ' ∧ R σ σ'
  step : ∀ ⦃σ a τ σ'⦄, R σ σ' → C.step σ a = some τ →
    ∃ tr' τ', M.Run σ' tr' τ' ∧ shown see' tr' = see a ∧ R τ τ'

variable {C : TSys S A} {M : TSys S' A'} {N : TSys S'' A''} {see : A → List O}
  {see' : A' → List O} {see'' : A'' → List O} {R : S → S' → Prop} {R' : S' → S'' → Prop}

/-- Every run is matched from a related state. -/
theorem Simulation.run (h : Simulation C M see see' R) {σ τ : S} {σ' : S'}
    {tr : List (S × A)} (hR : R σ σ') (hrun : C.Run σ tr τ) :
    ∃ tr' τ', M.Run σ' tr' τ' ∧ shown see' tr' = shown see tr ∧ R τ τ' := by
  induction hrun with
  | nil => exact ⟨[], σ', .nil, rfl, hR⟩
  | @snoc tr ρ τ a _ hstep ih =>
      obtain ⟨tr₁, ρ', hrun₁, hshown₁, hρ⟩ := ih
      obtain ⟨tr₂, τ', hrun₂, hshown₂, hτ⟩ := h.step hρ hstep
      refine ⟨tr₁ ++ tr₂, τ', hrun₁.append hrun₂, ?_, hτ⟩
      rw [shown_append, shown_append, shown_singleton, hshown₁, hshown₂]

/-- Every run from a start state is matched by one from a start state. -/
theorem Simulation.run_init (h : Simulation C M see see' R) {σ τ : S}
    {tr : List (S × A)} (hσ : C.init σ) (hrun : C.Run σ tr τ) :
    ∃ σ' tr' τ', M.init σ' ∧ M.Run σ' tr' τ' ∧ shown see' tr' = shown see tr ∧ R τ τ' := by
  obtain ⟨σ', hσ', hR⟩ := h.init σ hσ
  obtain ⟨tr', τ', hrun', hshown, hτ⟩ := h.run hR hrun
  exact ⟨σ', tr', τ', hσ', hrun', hshown, hτ⟩

/-- What always holds of `M` holds of `C`, seen through the relation. -/
theorem Simulation.invariant (h : Simulation C M see see' R) {I : S' → Prop}
    (hI : ∀ τ', M.Reachable τ' → I τ') {τ : S} (hτ : C.Reachable τ) : ∃ τ', R τ τ' ∧ I τ' := by
  obtain ⟨σ, tr, hσ, hrun⟩ := hτ
  obtain ⟨σ', tr', τ', hσ', hrun', -, hR⟩ := h.run_init hσ hrun
  exact ⟨τ', hR, hI τ' ⟨σ', tr', hσ', hrun'⟩⟩

/-- A simulation of a simulation. -/
theorem Simulation.trans (h : Simulation C M see see' R) (h' : Simulation M N see' see'' R') :
    Simulation C N see see'' fun σ σ'' => ∃ σ', R σ σ' ∧ R' σ' σ'' where
  init σ hσ := by
    obtain ⟨σ', hσ', hR⟩ := h.init σ hσ
    obtain ⟨σ'', hσ'', hR'⟩ := h'.init σ' hσ'
    exact ⟨σ'', hσ'', σ', hR, hR'⟩
  step σ a τ σ'' := by
    rintro ⟨σ', hR, hR'⟩ hstep
    obtain ⟨tr', τ', hrun', hshown', hτ⟩ := h.step hR hstep
    obtain ⟨tr'', τ'', hrun'', hshown'', hτ'⟩ := h'.run hR' hrun'
    exact ⟨tr'', τ'', hrun'', hshown''.trans hshown', τ', hτ, hτ'⟩

end TSys

end Lib
