import Mathlib.Data.List.Basic
import Mathlib.Order.Basic

/-!
# Transition systems with partial, executable steps

A system is a start predicate and a step function that is `none` where an
action is not enabled. A run carries its trace: every action taken, paired
with the state it was taken in, so that a condition on "the state before a
step" is a condition on the members of the trace.

* **invariants** — `Inductive.run` lifts a step-preserved predicate to runs,
  `Run.preserves` does so where every step also meets a side condition;
* **states** — an invariant holds in every state a run goes through
  (`Inductive.states`), and `Run.states_iff` relates a property of all of them to the
  absence of steps that break it;
* **executions** — a run found by executing a list of actions (`Run.exec`), also in
  parts (`exec_append`), and a script executed among other actions (`exec_script`);
* **taint** — the pattern of a defect: some steps taint the state for good.
  `Taint.run` says the state is clean as long as no such step was taken,
  `Taint.noneAfter_iff` relates a property of what was logged to the absence
  of uses after a taint.
-/

namespace Lib

universe u v

/-- A labelled transition system: `step σ a` is the state after action `a`,
`none` where `a` is not enabled in `σ`. -/
structure TSys (S : Type u) (A : Type v) where
  init : S → Prop
  step : S → A → Option S

namespace TSys

variable {S : Type u} {A : Type v} {T : TSys S A}

/-- `T.Run σ tr τ`: from `σ` the steps of `tr` lead to `τ`; each entry of the
trace is an action with the state it was taken in, oldest first. -/
inductive Run (T : TSys S A) (σ : S) : List (S × A) → S → Prop
  | nil : Run T σ [] σ
  | snoc {tr : List (S × A)} {ρ τ : S} {a : A} :
      Run T σ tr ρ → T.step ρ a = some τ → Run T σ (tr ++ [(ρ, a)]) τ

/-- A state some run from a start state ends in. -/
def Reachable (T : TSys S A) (τ : S) : Prop :=
  ∃ σ tr, T.init σ ∧ T.Run σ tr τ

theorem Run.append {σ ρ τ : S} {tr tr' : List (S × A)} (h : T.Run σ tr ρ)
    (h' : T.Run ρ tr' τ) : T.Run σ (tr ++ tr') τ := by
  induction h' with
  | nil => simpa using h
  | snoc _ hstep ih => simpa [List.append_assoc] using ih.snoc hstep

theorem Run.single {σ τ : S} {a : A} (h : T.step σ a = some τ) :
    T.Run σ [(σ, a)] τ := Run.nil.snoc h

theorem Run.cons {σ ρ τ : S} {a : A} {tr : List (S × A)}
    (hstep : T.step σ a = some ρ) (h : T.Run ρ tr τ) :
    T.Run σ ((σ, a) :: tr) τ := (Run.single hstep).append h

/-- A step of the trace splits the run there. -/
theorem Run.split {σ τ : S} {tr : List (S × A)} (h : T.Run σ tr τ) :
    ∀ {pre post : List (S × A)} {p : S × A}, tr = pre ++ p :: post →
      ∃ ρ, T.Run σ pre p.1 ∧ T.step p.1 p.2 = some ρ ∧ T.Run ρ post τ := by
  induction h with
  | nil => intro pre post p heq; simp at heq
  | @snoc tr ρ τ a hrun hstep ih =>
      intro pre post p heq
      rcases List.eq_nil_or_concat post with rfl | ⟨post', q, rfl⟩
      · obtain ⟨rfl, hp⟩ := List.append_inj' heq rfl
        obtain rfl : (ρ, a) = p := by simpa using hp
        exact ⟨τ, hrun, hstep, .nil⟩
      · have heq' : tr ++ [(ρ, a)] = (pre ++ p :: post') ++ [q] := by
          simpa [List.append_assoc] using heq
        obtain ⟨htr, hq⟩ := List.append_inj' heq' rfl
        obtain rfl : (ρ, a) = q := by simpa using hq
        obtain ⟨μ, h1, h2, h3⟩ := ih htr
        exact ⟨μ, h1, h2, by simpa using h3.snoc hstep⟩

/-- A predicate that every step preserves. -/
def Preserved (T : TSys S A) (I : S → Prop) : Prop :=
  ∀ ⦃σ a τ⦄, I σ → T.step σ a = some τ → I τ

/-- Where every step of the trace meets `P`, what such steps preserve holds at
the end of the run. -/
theorem Run.preserves {I : S → Prop} {P : S → A → Prop}
    (hstep : ∀ ⦃σ a τ⦄, I σ → P σ a → T.step σ a = some τ → I τ)
    {σ τ : S} {tr : List (S × A)} (h : T.Run σ tr τ) (h0 : I σ)
    (hP : ∀ p ∈ tr, P p.1 p.2) : I τ := by
  induction h with
  | nil => exact h0
  | @snoc tr ρ τ a _ hs ih =>
      have hρ : I ρ := ih fun p hp => hP p (List.mem_append_left _ hp)
      exact hstep hρ (hP (ρ, a) (by simp)) hs

theorem Preserved.run {I : S → Prop} (hI : T.Preserved I) {σ τ : S}
    {tr : List (S × A)} (h : T.Run σ tr τ) (h0 : I σ) : I τ :=
  h.preserves (P := fun _ _ => True) (fun _ _ _ hσ _ hs => hI hσ hs) h0
    (fun _ _ => trivial)

/-- An inductive invariant: it holds at the start and every step preserves it. -/
structure Inductive (T : TSys S A) (I : S → Prop) : Prop where
  init : ∀ σ, T.init σ → I σ
  step : T.Preserved I

theorem Inductive.run {I : S → Prop} (hI : T.Inductive I) {σ τ : S}
    {tr : List (S × A)} (hσ : T.init σ) (h : T.Run σ tr τ) : I τ :=
  hI.step.run h (hI.init σ hσ)

theorem Inductive.invariant {I : S → Prop} (hI : T.Inductive I) :
    ∀ τ, T.Reachable τ → I τ :=
  fun _ ⟨_, _, hσ, hrun⟩ => hI.run hσ hrun

/-! ## The states of a run -/

/-- The states a run goes through, the first and the last included. -/
def states (tr : List (S × A)) (σ : S) : List S := tr.map (·.1) ++ [σ]

theorem states_snoc (tr : List (S × A)) (ρ τ : S) (a : A) :
    states (tr ++ [(ρ, a)]) τ = states tr ρ ++ [τ] := by
  simp [states]

/-- The first state of a run is where it starts. -/
theorem Run.states_eq_cons {σ τ : S} {tr : List (S × A)} (h : T.Run σ tr τ) :
    states tr τ = σ :: (states tr τ).tail := by
  induction h with
  | nil => rfl
  | snoc hrun hs ih =>
      rw [states_snoc, ih]
      rfl

/-- An invariant holds in every state a run goes through. -/
theorem Inductive.states {I : S → Prop} (hI : T.Inductive I) {σ τ : S} {tr : List (S × A)}
    (hσ : T.init σ) (h : T.Run σ tr τ) : ∀ ρ ∈ states tr τ, I ρ := by
  induction h with
  | nil => simpa [TSys.states] using hI.init σ hσ
  | snoc hrun hs ih =>
      rw [states_snoc, List.forall_mem_append, List.forall_mem_singleton]
      exact ⟨ih, hI.run hσ (hrun.snoc hs)⟩

/-- A property of every state of a run: it holds along the steps that are not
`P`-steps, and fails after each of those. -/
theorem Run.states_iff {I J Q : S → Prop} {P : S → A → Prop} {σ₀ : S}
    (hinv : ∀ ⦃tr τ⦄, T.Run σ₀ tr τ → I τ) (h0 : J σ₀) (hQ : ∀ ⦃σ⦄, I σ → J σ → Q σ)
    (hkeeps : ∀ ⦃σ a τ⦄, I σ → J σ → ¬ P σ a → T.step σ a = some τ → J τ)
    (hbreaks : ∀ ⦃σ a τ⦄, I σ → P σ a → T.step σ a = some τ → ¬ Q τ)
    {σ : S} {tr : List (S × A)} (h : T.Run σ₀ tr σ) :
    (∀ ρ ∈ states tr σ, Q ρ) ↔ ∀ p ∈ tr, ¬ P p.1 p.2 := by
  suffices hboth : ((∀ ρ ∈ states tr σ, Q ρ) → ∀ p ∈ tr, ¬ P p.1 p.2) ∧
      ((∀ p ∈ tr, ¬ P p.1 p.2) → J σ ∧ ∀ ρ ∈ states tr σ, Q ρ) from
    ⟨hboth.1, fun hP => (hboth.2 hP).2⟩
  induction h with
  | nil => exact ⟨fun _ => by simp, fun _ => ⟨h0, by simpa [states] using hQ (hinv .nil) h0⟩⟩
  | @snoc tr ρ τ a hrun hs ih =>
      rw [states_snoc, List.forall_mem_append, List.forall_mem_append,
        List.forall_mem_singleton, List.forall_mem_singleton]
      constructor
      · rintro ⟨hpre, hτ⟩
        exact ⟨ih.1 hpre, fun hP => hbreaks (hinv hrun) hP hs hτ⟩
      · rintro ⟨hpre, hP⟩
        obtain ⟨hρ, hall⟩ := ih.2 hpre
        have hτ := hkeeps (hinv hrun) hρ hP hs
        exact ⟨hτ, hall, hQ (hinv (hrun.snoc hs)) hτ⟩

/-! ## Executing a list of actions -/

/-- Take the actions one after the other. -/
def exec (T : TSys S A) (σ : S) : List A → Option S
  | [] => some σ
  | a :: as => (T.step σ a).bind fun ρ => T.exec ρ as

theorem exec_append (as bs : List A) : ∀ σ : S,
    T.exec σ (as ++ bs) = (T.exec σ as).bind fun ρ => T.exec ρ bs := by
  induction as with
  | nil =>
      intro _
      rfl
  | cons a as ih =>
      intro σ
      rw [List.cons_append, exec, exec, Option.bind_assoc]
      exact congrArg _ (funext ih)

/-- The trace of an execution, up to the first action that is not enabled. -/
def trace (T : TSys S A) (σ : S) : List A → List (S × A)
  | [] => []
  | a :: as =>
      match T.step σ a with
      | none => []
      | some ρ => (σ, a) :: T.trace ρ as

theorem Run.of_exec : ∀ {as : List A} {σ τ : S},
    T.exec σ as = some τ → T.Run σ (T.trace σ as) τ := by
  intro as
  induction as with
  | nil =>
      intro σ τ h
      obtain rfl : σ = τ := by simpa [exec] using h
      exact .nil
  | cons a as ih =>
      intro σ τ h
      simp only [exec, Option.bind_eq_some_iff] at h
      obtain ⟨ρ, hs, hrest⟩ := h
      simp only [trace, hs]
      exact Run.cons hs (ih hrest)

/-- The run that executing the actions finds. -/
theorem Run.exec {σ : S} (as : List A) (h : (T.exec σ as).isSome = true) :
    T.Run σ (T.trace σ as) ((T.exec σ as).get h) :=
  .of_exec (Option.some_get h).symm

/-- A run whose trace meets decidable conditions, found by executing it. -/
theorem exists_run {σ τ : S} (as : List A) {C : List (S × A) → S → Prop}
    (h : T.exec σ as = some τ) (hC : C (T.trace σ as) τ) :
    ∃ tr τ, T.Run σ tr τ ∧ C tr τ :=
  ⟨_, τ, Run.of_exec h, hC⟩

/-- Among the steps that meet `Ok`, the `P`-steps taint a clean state, no other
step does, and a tainted state stays tainted. -/
structure Taint (T : TSys S A) (Ok P : S → A → Prop) (Clean Tainted : S → Prop) :
    Prop where
  clean : ∀ ⦃σ a τ⦄, Clean σ → Ok σ a → ¬ P σ a → T.step σ a = some τ → Clean τ
  taint : ∀ ⦃σ a τ⦄, Clean σ → Ok σ a → P σ a → T.step σ a = some τ → Tainted τ
  stays : ∀ ⦃σ a τ⦄, Tainted σ → Ok σ a → T.step σ a = some τ → Tainted τ

variable {Ok P Q : S → A → Prop} {Clean Tainted : S → Prop}

/-- Along a run the state is clean as long as no tainting step was taken, and
tainted from the first one on. -/
theorem Taint.run (hT : T.Taint Ok P Clean Tainted) {σ τ : S}
    {tr : List (S × A)} (h : T.Run σ tr τ) (hok : ∀ p ∈ tr, Ok p.1 p.2)
    (h0 : Clean σ) :
    (Clean τ ∧ ∀ p ∈ tr, ¬ P p.1 p.2) ∨ (Tainted τ ∧ ∃ p ∈ tr, P p.1 p.2) := by
  induction h with
  | nil => exact .inl ⟨h0, by simp⟩
  | @snoc tr ρ τ a _ hs ih =>
      have hρ : Ok ρ a := hok (ρ, a) (by simp)
      rcases ih fun p hp => hok p (List.mem_append_left _ hp) with
        ⟨hc, hno⟩ | ⟨ht, p, hp, hP⟩
      · by_cases hP : P ρ a
        · exact .inr ⟨hT.taint hc hρ hP hs, (ρ, a), by simp, hP⟩
        · refine .inl ⟨hT.clean hc hρ hP hs, ?_⟩
          intro p hp
          rcases List.mem_append.mp hp with hp | hp
          · exact hno p hp
          · obtain rfl := List.mem_singleton.mp hp
            exact hP
      · exact .inr ⟨hT.stays ht hρ hs, p, by simp [hp], hP⟩

/-- No `Q`-step of the trace comes after a `P`-step. -/
def NoneAfter (P Q : S → A → Prop) (tr : List (S × A)) : Prop :=
  tr.Pairwise fun p q => P p.1 p.2 → ¬ Q q.1 q.2

instance [∀ σ a, Decidable (P σ a)] [∀ σ a, Decidable (Q σ a)] (tr : List (S × A)) :
    Decidable (NoneAfter P Q tr) :=
  inferInstanceAs (Decidable (tr.Pairwise fun p q => P p.1 p.2 → ¬ Q q.1 q.2))

theorem noneAfter_snoc {tr : List (S × A)} {σ : S} {a : A} :
    NoneAfter P Q (tr ++ [(σ, a)]) ↔
      NoneAfter P Q tr ∧ ((∃ p ∈ tr, P p.1 p.2) → ¬ Q σ a) := by
  simp only [NoneAfter, List.pairwise_append, List.pairwise_singleton,
    List.mem_singleton, forall_eq, true_and]
  constructor
  · rintro ⟨h1, h2⟩
    exact ⟨h1, fun ⟨p, hp, hP⟩ => h2 p hp hP⟩
  · rintro ⟨h1, h2⟩
    exact ⟨h1, fun p hp hP => h2 ⟨p, hp, hP⟩⟩

/-- Where a `Q`-step logs something good from a clean state and something bad
from a tainted one, all that was logged is good exactly when no `Q`-step came
after a tainting step. -/
theorem Taint.noneAfter_iff (hT : T.Taint Ok P Clean Tainted) (good : S → Prop)
    (hclean : ∀ ⦃σ a τ⦄, Clean σ → Ok σ a → T.step σ a = some τ →
      (good τ ↔ good σ))
    (htainted : ∀ ⦃σ a τ⦄, Tainted σ → Ok σ a → T.step σ a = some τ →
      (good τ ↔ good σ ∧ ¬ Q σ a))
    {σ τ : S} {tr : List (S × A)} (h : T.Run σ tr τ)
    (hok : ∀ p ∈ tr, Ok p.1 p.2) (h0 : Clean σ) (hgood : good σ) :
    good τ ↔ NoneAfter P Q tr := by
  induction h with
  | nil => simpa [NoneAfter] using hgood
  | @snoc tr ρ τ a hrun hs ih =>
      have hρ : Ok ρ a := hok (ρ, a) (by simp)
      have hpre : ∀ p ∈ tr, Ok p.1 p.2 := fun p hp => hok p (List.mem_append_left _ hp)
      rw [noneAfter_snoc]
      rcases hT.run hrun hpre h0 with ⟨hc, hno⟩ | ⟨ht, p, hp, hP⟩
      · rw [hclean hc hρ hs, ih hpre]
        exact ⟨fun h => ⟨h, fun ⟨p, hp, hP⟩ => absurd hP (hno p hp)⟩, And.left⟩
      · rw [htainted ht hρ hs, ih hpre]
        exact ⟨fun ⟨h1, h2⟩ => ⟨h1, fun _ => h2⟩, fun ⟨h1, h2⟩ => ⟨h1, h2 ⟨p, hp, hP⟩⟩⟩

end TSys

end Lib
