import VoiceAgent.Logic.Handlers
import VoiceAgent.Logic.Stopping

/-!
# From the process to its calls

A call of the process is stopped only after its `start()` came to an end, and
its other steps are its own. So whatever the sessions do, each call goes through
a run of `callSys`: what holds of every such run holds of every call.
-/

namespace VoiceAgent

open Lib Lib.TSys

/-- The call has come where it is by a run of its own. -/
def Call.Runs (c : Call) : Prop :=
  ∃ tr, (callSys c.cfg).Run { llm := { registry := buildDefaultRegistry } } tr c.state

theorem Call.Runs.reachable {c : Call} (hc : c.Runs) : (callSys c.cfg).Reachable c.state := by
  obtain ⟨tr, hrun⟩ := hc
  exact ⟨_, tr, ⟨_, rfl⟩, hrun⟩

theorem CallOrchestrator.stop_startPc (σ : CallOrchestrator) : σ.stop.startPc = σ.startPc := by
  unfold stop
  split
  · rfl
  · rw [cancelTasks_eq]
    obtain ⟨pc, h⟩ := σ.cancelAll.join_eq σ.tasks
    rw [h]
    rfl

theorem Call.Runs.step {c : Call} {a : CallAct} {state : CallOrchestrator} (hc : c.Runs)
    (h : c.state.step c.cfg a = some state) : Call.Runs { c with state } := by
  obtain ⟨tr, hrun⟩ := hc
  exact ⟨_, hrun.snoc h⟩

theorem Call.Runs.stop {c : Call} (hc : c.Runs)
    (hstart : c.state.startPc = .started ∨ c.state.startPc = .failed) : c.stop.Runs := by
  obtain ⟨tr, hrun⟩ := hc
  have hstep : (callSys c.cfg).step c.state .stop = some c.stop.state := if_pos hstart
  exact ⟨_, hrun.snoc hstep⟩

namespace Server

variable {synthesize : Nat → Nat → String → List Bytes} {max : Int} {σ τ : Server}

/-- A handler that is past its `start()` serves a call that has started. -/
def Serving (σ : Server) : Prop :=
  ∀ (i : Nat) (s : Session) (k : Nat) (c : Call), σ.sessions[i]? = some s →
    s.orchestrator = some k → s.pc.inLoop = true → s.pc ≠ .starting →
    σ.calls[k]? = some c → c.state.startPc = .started

theorem serving_step {a : ServerAct} (hhandler : HandlerInv max σ) (hσ : Serving σ)
    (h : Step synthesize σ a τ) : Serving τ := by
  intro i s k c hs hk hloop hpc hc
  cases h with
  | connects hgate ha hnew =>
      rcases getElem?_snoc_cases hs with hs | ⟨-, rfl⟩
      · exact hσ i s k c hs hk hloop hpc hc
      · cases hk
  | gates hgate => exact hσ i s k c hs hk hloop hpc hc
  | skips hno => exact hσ i s k c hs hk hloop hpc hc
  | @moves _ j s' pc gate hno hs' hqueued hsame hfinished hgate hpermit hstarted =>
      rcases getElem?_set_cases hs with ⟨rfl, rfl⟩ | ⟨-, hs⟩
      · have hne : s'.orchestrator ≠ none := by
          rw [show s'.orchestrator = some k from hk]
          exact Option.some_ne_none k
        have hq : s'.pc ≠ .queued := fun h => hne (hhandler.queued j s' hs' h).1
        have hloop' : s'.pc.inLoop = true := (hsame hne hq).symm.trans hloop
        by_cases hfrom : s'.pc = .starting
        · exact hstarted c.state (current?_eq hk hc) hfrom
        · exact hσ j s' k c hs' hk hloop' hfrom hc
      · exact hσ i s k c hs hk hloop hpc hc
  | constructs hstart hs' hreceiving =>
      rcases getElem?_set_cases hs with ⟨-, rfl⟩ | ⟨-, hs⟩
      · exact absurd rfl hpc
      · obtain ⟨d, hd, -⟩ := hhandler.current i s k hs hk
        have hc' : σ.calls[k]? = some c :=
          (List.getElem?_append_left (List.getElem?_eq_some_iff.mp hd).1).symm.trans hc
        exact hσ i s k c hs hk hloop hpc hc'
  | stops hno hs' hloop' hk' hfailed =>
      rcases getElem?_set_cases hs with ⟨-, rfl⟩ | ⟨-, hs⟩
      · cases hloop
      · obtain ⟨d, hd, rfl⟩ := getElem?_modify_cases hc
        have hstarted := hσ i s k d hs hk hloop hpc hd
        split
        · exact d.state.stop_startPc.trans hstarted
        · exact hstarted
  | call hd hnot hanswers hstep =>
      rcases getElem?_set_cases hc with ⟨rfl, rfl⟩ | ⟨-, hc⟩
      · have hstarted := hσ i s _ _ hs hk hloop hpc hd
        have hsame := CallOrchestrator.startPc_step (.inl hstarted)
          (CallOrchestrator.step_cases hstep)
        exact hsame.trans hstarted
      · exact hσ i s k c hs hk hloop hpc hc

/-- What a step of the process is to each of its calls: a step of the call, or
nothing. -/
theorem runs_step {a : ServerAct} (hserving : Serving σ)
    (hσ : ∀ (k : Nat) (c : Call), σ.calls[k]? = some c → c.Runs)
    (h : Step synthesize σ a τ) :
    ∀ (k : Nat) (c : Call), τ.calls[k]? = some c → c.Runs := by
  intro k c hc
  cases h with
  | constructs hstart hs hreceiving =>
      rcases getElem?_snoc_cases hc with hc | ⟨-, rfl⟩
      · exact hσ k c hc
      · exact ⟨[], .nil⟩
  | @stops _ i k' s hno hs hloop hk hfailed =>
      obtain ⟨d, hd, rfl⟩ := getElem?_modify_cases hc
      split
      · -- the one call that the handler stops: it has started, or failed to
        rename_i heq
        subst heq
        apply (hσ k' d hd).stop
        by_cases hpc : s.pc = .starting
        · exact .inr (hfailed d.state (current?_eq hk hd) hpc)
        · exact .inl (hserving i s k' d hs hk hloop hpc hd)
      · exact hσ k d hd
  | call hd hnot hanswers hstep =>
      rcases getElem?_set_cases hc with ⟨rfl, rfl⟩ | ⟨-, hc⟩
      · exact (hσ _ _ hd).step hstep
      · exact hσ k c hc
  | _ => exact hσ k c hc

/-- **Every call of the process runs as a call on its own does.** -/
theorem calls_run {gate : CallGate} (hinit : CallGate.init max = .ok gate)
    {tr : List (Server × ServerAct)}
    (h : (serverSys synthesize).Run { gate := { gate } } tr σ) :
    ∀ (k : Nat) (c : Call), σ.calls[k]? = some c → c.Runs := by
  have hall : Serving σ ∧ ∀ (k : Nat) (c : Call), σ.calls[k]? = some c → c.Runs := by
    induction h with
    | nil => exact ⟨fun i s k c hs => by simp at hs, fun k c hc => by simp at hc⟩
    | @snoc tr ρ τ a hrun hs ih =>
        have hhandler := handlerInv_run hinit hrun
        have hstep := step_cases hs
        exact ⟨serving_step hhandler ih.1 hstep, runs_step ih.1 ih.2 hstep⟩
  exact hall.2

end Server

end VoiceAgent
