import VoiceAgent.Lib.Variant
import VoiceAgent.Logic.Seats
import VoiceAgent.Logic.StopMeasure
import VoiceAgent.Theorems.Cleanup

/-!
# No permit is lost

Whatever the sessions do, the gate counts exactly those that run (`permits_accounted`),
so when all of them are gone it is as it was at the beginning. And they can always get
there: no session is stuck at an await that nothing can end (`process_drains`). The
argument goes session by session, each from where its handler is suspended to the
`finally` block, through `stop()` and out of the gate.
-/

namespace VoiceAgent

open Lib Lib.TSys

/-- A new session comes to the gate. -/
def ServerAct.isConnect : ServerAct → Bool
  | .connect _ => true
  | _ => false

theorem CallOrchestrator.called_stop (c : CallOrchestrator) : c.stop.stopPc ≠ .notCalled := by
  unfold stop
  split
  · assumption
  · rcases (c.tasks.foldl cancelTask c.cancelSpeak).join_cases c.tasks with ⟨h, -⟩ | ⟨t, l, h, -⟩
    · rw [h]
      simp
    · rw [h]
      simp

namespace Server

variable {synthesize : Nat → Nat → String → List Bytes} {max : Int} {σ ρ τ : Server}

/-! ## What the handlers wait for -/

/-- A handler that awaits `start()` or `stop()` has a call. -/
def Orchestrated (σ : Server) : Prop :=
  ∀ (i : Nat) (s : Session), σ.sessions[i]? = some s → s.pc = .starting ∨ s.pc = .stopping →
    s.orchestrator ≠ none

theorem orchestrated_put {i : Nat} {s : Session} (hσ : Orchestrated σ)
    (hs : s.pc = .starting ∨ s.pc = .stopping → s.orchestrator ≠ none) :
    Orchestrated (σ.put i s) := by
  intro j s' hs' hpc
  rcases getElem?_set_cases hs' with ⟨-, rfl⟩ | ⟨-, hs'⟩
  · exact hs hpc
  · exact hσ j s' hs' hpc

theorem orchestrated_finallyBlock {i : Nat} {s : Session} (hσ : Orchestrated σ) :
    Orchestrated (σ.finallyBlock i s) := by
  unfold finallyBlock
  split
  · exact orchestrated_put hσ (by simp)
  · rename_i k hk
    have hput : Orchestrated (σ.put i { s with pc := .stopping }) := by
      refine orchestrated_put hσ fun _ => ?_
      show s.orchestrator ≠ none
      rw [hk]
      exact Option.some_ne_none k
    exact hput

theorem orchestrated_receive {i : Nat} {s : Session} {frame : Received}
    (hσ : Orchestrated σ) : Orchestrated (σ.receive synthesize i s frame) := by
  cases frame with
  | badJson => exact hσ
  | raises => exact orchestrated_finallyBlock hσ
  | json msg =>
      unfold receive
      dsimp only
      split
      · exact orchestrated_finallyBlock hσ
      · exact hσ
      · have hput : Orchestrated (σ.put i
            { s with pc := .starting, orchestrator := some σ.calls.length }) :=
          orchestrated_put hσ fun _ => Option.some_ne_none _
        exact hput
      · exact orchestrated_put hσ (by simp)
      · exact orchestrated_finallyBlock hσ

theorem orchestrated_step {a : ServerAct} (hσ : Orchestrated σ)
    (h : σ.step synthesize a = some τ) : Orchestrated τ := by
  have hsnoc : ∀ (gate : GateState) (s : Session), s.pc ≠ .starting → s.pc ≠ .stopping →
      Orchestrated { σ with gate, sessions := σ.sessions ++ [s] } := by
    intro gate s hne hne' j s' hs' hpc
    rcases getElem?_snoc_cases hs' with hs' | ⟨-, rfl⟩
    · exact hσ j s' hs' hpc
    · exact absurd hpc (not_or.mpr ⟨hne, hne'⟩)
  cases a with
  | connect transport =>
      cases transport with
      | twilio =>
          obtain ⟨gate, hgate, rfl⟩ := Option.map_eq_some_iff.mp h
          refine hsnoc _ _ ?_ ?_ <;> dsimp only <;> split <;> simp
      | webrtc =>
          obtain ⟨gate, hgate, rfl⟩ := Option.map_eq_some_iff.mp h
          refine hsnoc _ _ ?_ ?_ <;> dsimp only <;> split <;> simp
  | cancelWait i =>
      obtain ⟨s, hs, h⟩ := Option.bind_eq_some_iff.mp h
      obtain ⟨gate, hgate, rfl⟩ := Option.map_eq_some_iff.mp h
      exact hσ
  | wake i =>
      obtain ⟨s, hs, h⟩ := Option.bind_eq_some_iff.mp h
      obtain ⟨gate, hgate, rfl⟩ := Option.map_eq_some_iff.mp h
      refine orchestrated_put (σ := { σ with gate }) hσ ?_
      split <;> simp
  | receive i frame =>
      obtain ⟨s, hs, rfl⟩ := Option.map_eq_some_iff.mp h
      exact orchestrated_receive hσ
  | startDone i =>
      obtain ⟨s, hs, h⟩ := Option.bind_eq_some_iff.mp h
      obtain ⟨c, -, h⟩ := Option.bind_eq_some_iff.mp h
      split at h
      · exact Option.some.inj h ▸ orchestrated_put hσ (by simp)
      · exact Option.some.inj h ▸ orchestrated_finallyBlock hσ
      · cases h
  | audioDone i w =>
      obtain ⟨s, hs, rfl⟩ := Option.map_eq_some_iff.mp h
      cases w with
      | returns => exact orchestrated_put hσ (by simp)
      | raises => exact orchestrated_finallyBlock hσ
  | stopDone i =>
      obtain ⟨s, hs, h⟩ := Option.bind_eq_some_iff.mp h
      obtain ⟨c, -, h⟩ := Option.bind_eq_some_iff.mp h
      split at h
      · exact Option.some.inj h ▸ orchestrated_put hσ (by simp)
      · exact Option.some.inj h ▸ orchestrated_put hσ (by simp)
      · cases h
  | leave i =>
      obtain ⟨s, hs, h⟩ := Option.bind_eq_some_iff.mp h
      obtain ⟨gate, hgate, rfl⟩ := Option.map_eq_some_iff.mp h
      exact orchestrated_put (σ := { σ with gate }) hσ (by simp)
  | call k a =>
      obtain ⟨-, hsessions⟩ := callStep_frame h
      intro j s hs
      rw [hsessions] at hs
      exact hσ j s hs

/-- A call whose `stop()` was called has begun it. -/
def Begun (σ : Server) : Prop :=
  ∀ (k : Nat) (c : Call), σ.calls[k]? = some c → 0 < c.stops → c.state.stopPc ≠ .notCalled

theorem begun_step {a : ServerAct} (hσ : Begun σ) (h : Step synthesize σ a τ) : Begun τ := by
  intro k c hc hstops
  cases h with
  | constructs hstart hs hpc =>
      rcases getElem?_snoc_cases hc with hc | ⟨-, rfl⟩
      · exact hσ k c hc hstops
      · exact absurd hstops (Nat.lt_irrefl 0)
  | @stops _ i k' s hno hs hloop hk hfailed =>
      obtain ⟨d, hd, rfl⟩ := getElem?_modify_cases hc
      split
      · exact d.state.called_stop
      · rename_i hne
        rw [if_neg hne] at hstops
        exact hσ k d hd hstops
  | @call k' d b inDoubt state hd hnot hanswers hstep =>
      rcases getElem?_set_cases hc with ⟨rfl, rfl⟩ | ⟨-, hc⟩
      · exact CallOrchestrator.called_preserved (hσ _ d hd hstops) hstep
      · exact hσ k c hc hstops
  | _ => exact hσ k c hc hstops

/-- What holds in every state of the process. -/
structure Sound (max : Int) (σ : Server) : Prop where
  handler : HandlerInv max σ
  seated : Seated σ
  serving : Serving σ
  runs : ∀ (k : Nat) (c : Call), σ.calls[k]? = some c → c.Runs
  orchestrated : Orchestrated σ
  begun : Begun σ

theorem sound_step {a : ServerAct} (hσ : Sound max σ) (h : σ.step synthesize a = some τ) :
    Sound max τ where
  handler := handlerInv_step hσ.handler (step_cases h)
  seated := seated_step hσ.handler hσ.seated h
  serving := serving_step hσ.handler hσ.serving (step_cases h)
  runs := runs_step hσ.serving hσ.runs (step_cases h)
  orchestrated := orchestrated_step hσ.orchestrated h
  begun := begun_step hσ.begun (step_cases h)

theorem sound_run {gate : CallGate} (hinit : CallGate.init max = .ok gate)
    {tr : List (Server × ServerAct)}
    (h : (serverSys synthesize).Run { gate := { gate } } tr σ) : Sound max σ := by
  induction h with
  | nil =>
      have hnil : (serverSys synthesize).Run { gate := { gate } } [] { gate := { gate } } := .nil
      refine ⟨handlerInv_run hinit hnil, seated_run hinit hnil, ?_, ?_, ?_, ?_⟩
      · intro i s k c hs
        cases hs
      · intro k c hc
        cases hc
      · intro i s hs
        cases hs
      · intro k c hc
        cases hc
  | snoc hrun hs ih => exact sound_step ih hs

/-! ## A gate that nobody uses -/

theorem eq_nil_of_no_mem {l : List Nat} (h : ∀ i, i ∉ l) : l = [] :=
  List.eq_nil_iff_forall_not_mem.mpr h

/-- When every session is gone, the gate is as it was made. -/
theorem gate_of_gone {gate : CallGate} (hinit : CallGate.init max = .ok gate) (hσ : Sound max σ)
    (hgone : ∀ s ∈ σ.sessions, s.pc = .gone) : σ.gate.gate = gate := by
  have hout : ∀ i, σ.seat i = .out := by
    intro i
    unfold seat
    cases hs : σ.sessions[i]? with
    | none => rfl
    | some s =>
        rw [Option.map_some, Option.getD_some, Session.seat, hgone s (List.mem_of_getElem? hs)]
  have hseats := hσ.seated.seats
  have hqueued : σ.gate.gate.sem.queued = [] := by
    refine eq_nil_of_no_mem fun i hi => ?_
    have := (hseats i).1.mp hi
    rw [hout] at this
    cases this
  have hpermits : ∀ t, σ.gate.permits t = [] := by
    intro t
    refine eq_nil_of_no_mem fun i hi => ?_
    have := ((hseats i).2 t).mp hi
    rw [hout] at this
    cases this
  obtain ⟨hmax, hsum, -, hactive, hlock⟩ := hσ.handler.gate
  obtain ⟨-, rfl⟩ := CallGate.init_eq hinit
  have hbodies : σ.gate.bodies = [] := hpermits .twilio
  have hholders : σ.gate.holders = [] := hpermits .webrtc
  have hzero : σ.gate.gate.active = 0 := by
    rw [hactive, hbodies, hholders]
    rfl
  have hwaiters : σ.gate.gate.sem.waiters = [] := List.map_eq_nil_iff.mp hqueued
  have hvalue : σ.gate.gate.sem.value = max := by
    rw [Semaphore.permits, Semaphore.inFlight, hwaiters, hzero] at hsum
    simpa using hsum
  generalize σ.gate.gate = g at hmax hzero hwaiters hvalue hlock ⊢
  obtain ⟨⟨value, waiters⟩, m, active, lock⟩ := g
  simp only at hmax hzero hwaiters hvalue hlock
  subst hmax hzero hwaiters hvalue hlock
  rfl

/-! ## A session on its way out -/

/-- From `σ` to `τ` without a new session, and with the other sessions where they were. -/
def Settles (synthesize : Nat → Nat → String → List Bytes) (i : Nat) (σ τ : Server) : Prop :=
  ∃ tr, (serverSys synthesize).Run σ tr τ ∧ (∀ p ∈ tr, p.2.isConnect = false) ∧
    τ.sessions.length = σ.sessions.length ∧ ∀ j, j ≠ i → τ.sessions[j]? = σ.sessions[j]?

theorem Settles.refl (i : Nat) (σ : Server) : Settles synthesize i σ σ :=
  ⟨[], .nil, by simp, rfl, fun _ _ => rfl⟩

theorem Settles.trans {i : Nat} (h : Settles synthesize i σ ρ) (h' : Settles synthesize i ρ τ) :
    Settles synthesize i σ τ := by
  obtain ⟨tr, hrun, htr, hlen, hsame⟩ := h
  obtain ⟨tr', hrun', htr', hlen', hsame'⟩ := h'
  refine ⟨tr ++ tr', hrun.append hrun', List.forall_mem_append.mpr ⟨htr, htr'⟩,
    hlen'.trans hlen, fun j hj => (hsame' j hj).trans (hsame j hj)⟩

theorem Settles.of_step {i : Nat} {a : ServerAct} {s : Session}
    (h : σ.step synthesize a = some τ) (ha : a.isConnect = false)
    (hsessions : τ.sessions = σ.sessions.set i s) : Settles synthesize i σ τ := by
  refine ⟨_, Run.single h, List.forall_mem_singleton.mpr ha, ?_, fun j hj => ?_⟩
  · rw [hsessions, List.length_set]
  · rw [hsessions, List.getElem?_set_ne (Ne.symm hj)]

theorem Settles.of_frame {i : Nat} {tr : List (Server × ServerAct)}
    (h : (serverSys synthesize).Run σ tr τ) (htr : ∀ p ∈ tr, p.2.isConnect = false)
    (hsessions : τ.sessions = σ.sessions) : Settles synthesize i σ τ :=
  ⟨tr, h, htr, by rw [hsessions], fun j _ => by rw [hsessions]⟩

theorem Settles.sound {i : Nat} (h : Settles synthesize i σ τ) (hσ : Sound max σ) :
    Sound max τ := by
  obtain ⟨tr, hrun, -⟩ := h
  exact TSys.Preserved.run (I := Sound max) (fun _ _ _ hσ hs => sound_step hσ hs) hrun hσ

/-- The session can be brought to a place of this kind. -/
def Leads (synthesize : Nat → Nat → String → List Bytes) (i : Nat) (P : SessionPc → Prop)
    (σ : Server) : Prop :=
  ∃ τ s, Settles synthesize i σ τ ∧ τ.sessions[i]? = some s ∧ P s.pc

variable {P Q : SessionPc → Prop}

theorem Leads.trans {i : Nat} (h : Leads synthesize i P σ) (hσ : Sound max σ)
    (hnext : ∀ (τ : Server) (s : Session), Sound max τ → τ.sessions[i]? = some s → P s.pc →
      Leads synthesize i Q τ) : Leads synthesize i Q σ := by
  obtain ⟨ρ, s, hsettles, hs, hP⟩ := h
  obtain ⟨τ, s', hsettles', hs', hQ⟩ := hnext ρ s (hsettles.sound hσ) hs hP
  exact ⟨τ, s', hsettles.trans hsettles', hs', hQ⟩

theorem Leads.of_put {i : Nat} {a : ServerAct} {s s' : Session} (hs : σ.sessions[i]? = some s)
    (h : σ.step synthesize a = some τ) (ha : a.isConnect = false)
    (hsessions : τ.sessions = σ.sessions.set i s') (hP : P s'.pc) :
    Leads synthesize i P σ := by
  refine ⟨τ, s', .of_step h ha hsessions, ?_, hP⟩
  rw [hsessions, List.getElem?_set_self (List.getElem?_eq_some_iff.mp hs).1]

theorem session?_of {i : Nat} {s : Session} {pc : SessionPc} (hs : σ.sessions[i]? = some s)
    (hpc : s.pc = pc) : σ.session? i pc = some s := by
  rw [session?, hs, Option.filter_some, hpc, beq_self_eq_true, if_pos rfl]

/-- The `finally` block of a handler. -/
theorem leads_finallyBlock {i : Nat} {a : ServerAct} {s : Session}
    (hs : σ.sessions[i]? = some s) (h : σ.step synthesize a = some (σ.finallyBlock i s))
    (ha : a.isConnect = false) :
    Leads synthesize i (fun pc => pc = .stopping ∨ pc = .ended) σ := by
  cases hk : s.orchestrator with
  | none =>
      have hfinally : σ.finallyBlock i s = σ.put i { s with pc := .ended } := by
        simp only [finallyBlock, hk]
      exact .of_put hs h ha (by rw [hfinally]; rfl) (.inr rfl)
  | some k =>
      have hsessions : (σ.finallyBlock i s).sessions =
          σ.sessions.set i { s with pc := .stopping } := by
        simp only [finallyBlock, hk]
        rfl
      exact .of_put hs h ha hsessions (.inl rfl)

theorem leads_of_ended {i : Nat} {s : Session} (hσ : Sound max σ)
    (hs : σ.sessions[i]? = some s) (hpc : s.pc = .ended) :
    Leads synthesize i (· = .gone) σ := by
  have hmem := hσ.handler.permit i s hs (by rw [hpc]; rfl)
  have hgate : ∃ gate, σ.leave i s = some ({ σ with gate }.put i { s with pc := .gone }) := by
    unfold leave
    cases ht : s.transport with
    | twilio =>
        rw [ht] at hmem
        have hbody : i ∈ σ.gate.bodies := hmem
        simp only [GateState.step, if_pos hbody, CallGate.leave_eq hσ.handler.gate.lock,
          Option.map_some]
        exact ⟨_, rfl⟩
    | webrtc =>
        rw [ht] at hmem
        have hheld : i ∈ σ.gate.holders := hmem
        obtain ⟨r, hr⟩ := hσ.handler.gate.release_ok hheld
        simp only [GateState.step, if_pos hheld, hr, Option.map_some]
        exact ⟨_, rfl⟩
  obtain ⟨gate, hgate⟩ := hgate
  have hstep : σ.step synthesize (.leave i) =
      some ({ σ with gate }.put i { s with pc := .gone }) := by
    show (σ.session? i .ended).bind _ = _
    rw [session?_of hs hpc]
    exact hgate
  exact .of_put hs hstep rfl rfl rfl

/-- What a call may do on its own. -/
theorem step_call (synthesize : Nat → Nat → String → List Bytes) (inDoubt : Bool) {k : Nat}
    {c : Call} {a : CallAct} {state : CallOrchestrator}
    (hc : σ.calls[k]? = some c) (hstop : a ≠ .stop) (hanswers : σ.answers c a = true)
    (hstep : c.state.step c.cfg a = some state) :
    σ.step synthesize (.call k a inDoubt) = some { σ with
      calls := σ.calls.set k { c with state }, rows := σ.rowsAfter k c inDoubt a } := by
  show σ.callStep k a inDoubt = _
  unfold callStep
  split
  · rename_i hnone
    rw [hc] at hnone
    cases hnone
  · exact absurd rfl hstop
  · rename_i d hd _
    obtain rfl := Option.some.inj (hc.symm.trans hd)
    rw [if_pos hanswers, hstep]
    rfl

/-- The k-th call, where `stop()` of it is awaited. -/
structure Awaits (max : Int) (sessions : List Session) (k : Nat) (σ : Server) : Prop where
  sound : Sound max σ
  sessions : σ.sessions = sessions
  stopping : ∃ c, σ.calls[k]? = some c ∧ c.state.stopPc ≠ .notCalled

/-- How far its `stop()` has to go. -/
def callLeft (k : Nat) (σ : Server) : Nat :=
  (σ.calls[k]?.map fun c => c.state.tasksLeft + c.state.joinsLeft).getD 0

theorem awaits_nearer {sessions : List Session} {k : Nat} (hσ : Awaits max sessions k σ)
    (hopen : ¬ ∃ c, σ.calls[k]? = some c ∧ c.state.stopPc.rank = 7) :
    ∃ a τ, (serverSys synthesize).step σ a = some τ ∧ a.isConnect = false ∧
      Awaits max sessions k τ ∧ callLeft k τ < callLeft k σ := by
  obtain ⟨hsound, rfl, c, hc, hcalled⟩ := hσ
  have hruns := hsound.runs k c hc
  have hstop : c.state.StopInv := (CallOrchestrator.stopInv_inductive).invariant _ hruns.reachable
  have hne : c.state.stopPc ≠ .joining [] := by
    obtain ⟨tr, hrun⟩ := hruns
    exact CallOrchestrator.joining_ne_nil hrun
  obtain ⟨a, state, hstep, hlt, ha⟩ := CallOrchestrator.exists_nearer c.cfg
    (hstop.quiet hcalled) hne fun hrank => hopen ⟨c, hc, hrank⟩
  have hself : a ≠ .stop ∧ σ.answers c a = true := by
    rcases ha with ha | ⟨j, w, rfl⟩ | rfl | rfl
    · obtain ⟨w, rfl⟩ : ∃ w, a = .consumer w := by
        cases a <;> first | exact ⟨_, rfl⟩ | cases ha
      exact ⟨by simp, rfl⟩
    · exact ⟨by simp, rfl⟩
    · exact ⟨by simp, rfl⟩
    · exact ⟨by simp, rfl⟩
  have hserver := step_call synthesize false hc hself.1 hself.2 hstep
  have hc' : (σ.calls.set k { c with state })[k]? = some { c with state } :=
    List.getElem?_set_self (List.getElem?_eq_some_iff.mp hc).1
  refine ⟨.call k a, _, hserver, rfl, ⟨sound_step hsound hserver, rfl, _, hc', ?_⟩, ?_⟩
  · exact CallOrchestrator.called_preserved hcalled hstep
  · unfold callLeft
    rw [hc, hc']
    exact hlt

theorem leads_of_stopping {i : Nat} {s : Session} (hσ : Sound max σ)
    (hs : σ.sessions[i]? = some s) (hpc : s.pc = .stopping) :
    Leads synthesize i (· = .ended) σ := by
  obtain ⟨k, hk⟩ := Option.ne_none_iff_exists'.mp (hσ.orchestrated i s hs (.inr hpc))
  obtain ⟨c, hc, hsession, -⟩ := hσ.handler.current i s k hs hk
  have hstops : c.stops = 1 := by
    obtain ⟨s', hs', hstops⟩ := hσ.handler.stops k c hc
    rw [hsession] at hs'
    obtain rfl := Option.some.inj (hs.symm.trans hs')
    rw [hstops, if_pos ⟨hk, by rw [hpc]; rfl⟩]
  have hcalled := hσ.begun k c hc (by omega)
  obtain ⟨tr, ρ, hrun, ⟨d, hd, hrank⟩, hρ, htr⟩ :=
    reaches_of_falls (T := serverSys synthesize) (I := Awaits max σ.sessions k)
      (Q := fun a => a.isConnect = false) (fun _ => awaits_nearer) ⟨hσ, rfl, c, hc, hcalled⟩
  have hs' : ρ.sessions[i]? = some s := by
    rw [hρ.sessions]
    exact hs
  have hstep : ρ.step synthesize (.stopDone i) = some (ρ.put i { s with pc := .ended }) := by
    show (ρ.session? i .stopping).bind _ = _
    rw [session?_of hs' hpc, Option.bind_some, stopDone, current?_eq hk hd, Option.bind_some]
    cases hstop : d.state.stopPc <;> rw [hstop] at hrank <;> first | rfl | cases hrank
  obtain ⟨τ, s', hsettles, hend⟩ := Leads.of_put (P := (· = .ended)) hs' hstep rfl rfl rfl
  exact ⟨τ, s', (Settles.of_frame hrun htr hρ.sessions).trans hsettles, hend⟩

/-- A `start()` that is awaited can fail, or has come to an end already. -/
theorem leads_of_starting {i : Nat} {s : Session} (hσ : Sound max σ)
    (hs : σ.sessions[i]? = some s) (hpc : s.pc = .starting) :
    Leads synthesize i (fun pc => pc = .stopping ∨ pc = .ended) σ := by
  obtain ⟨k, hk⟩ := Option.ne_none_iff_exists'.mp (hσ.orchestrated i s hs (.inl hpc))
  obtain ⟨c, hc, -⟩ := hσ.handler.current i s k hs hk
  have hdone : ∀ (ρ : Server) (d : Call), ρ.sessions[i]? = some s → ρ.calls[k]? = some d →
      d.state.startPc = .failed →
      Leads synthesize i (fun pc => pc = .stopping ∨ pc = .ended) ρ := by
    intro ρ d hs' hd hfailed
    refine leads_finallyBlock (a := .startDone i) hs' ?_ rfl
    show (ρ.session? i .starting).bind _ = _
    rw [session?_of hs' hpc, Option.bind_some, startDone, current?_eq hk hd, Option.bind_some]
    simp only [hfailed]
  have hfails : ∀ h : c.state.step c.cfg (.starting .raises) =
      some { c.state with startPc := .failed },
      Leads synthesize i (fun pc => pc = .stopping ∨ pc = .ended) σ := by
    intro h
    have hserver := step_call synthesize false hc (by simp) rfl h
    have hc' : (σ.calls.set k { c with state := { c.state with startPc := .failed } })[k]? =
        some { c with state := { c.state with startPc := .failed } } :=
      List.getElem?_set_self (List.getElem?_eq_some_iff.mp hc).1
    obtain ⟨τ, s', hsettles, hend⟩ := hdone { σ with
      calls := σ.calls.set k { c with state := { c.state with startPc := .failed } }
      rows := σ.rowsAfter k c false (.starting .raises) } _ hs hc' rfl
    have hcall : (serverSys synthesize).Run σ [(σ, .call k (.starting .raises))] _ :=
      Run.single hserver
    have hframe : Settles synthesize i σ _ :=
      .of_frame hcall (List.forall_mem_singleton.mpr rfl) rfl
    exact ⟨τ, s', hframe.trans hsettles, hend⟩
  cases hstart : c.state.startPc with
  | connecting => exact hfails (by simp [CallOrchestrator.step, CallOrchestrator.starting, hstart])
  | creating => exact hfails (by simp [CallOrchestrator.step, CallOrchestrator.starting, hstart])
  | leavingScope =>
      exact hfails (by simp [CallOrchestrator.step, CallOrchestrator.starting, hstart])
  | failed => exact hdone σ c hs hc hstart
  | started =>
      -- the handler goes on to its loop, and the socket closes there
      have hstep : σ.step synthesize (.startDone i) =
          some (σ.put i { s with pc := .receiving }) := by
        show (σ.session? i .starting).bind _ = _
        rw [session?_of hs hpc, Option.bind_some, startDone, current?_eq hk hc, Option.bind_some]
        simp only [hstart]
      have hloop := Leads.of_put (P := (· = .receiving)) hs hstep rfl rfl rfl
      refine hloop.trans hσ fun ρ s' hρ hs' hpc' => ?_
      refine leads_finallyBlock (a := .receive i .raises) hs' ?_ rfl
      show (ρ.session? i .receiving).map _ = _
      rw [session?_of hs' hpc']
      rfl

theorem leads_of_inLoop {i : Nat} {s : Session} (hσ : Sound max σ)
    (hs : σ.sessions[i]? = some s) (hloop : s.pc.inLoop = true) :
    Leads synthesize i (fun pc => pc = .stopping ∨ pc = .ended) σ := by
  cases hpc : s.pc with
  | starting => exact leads_of_starting hσ hs hpc
  | receiving =>
      refine leads_finallyBlock (a := .receive i .raises) hs ?_ rfl
      show (σ.session? i .receiving).map _ = _
      rw [session?_of hs hpc]
      rfl
  | sendingAudio =>
      refine leads_finallyBlock (a := .audioDone i .raises) hs ?_ rfl
      show (σ.session? i .sendingAudio).map _ = _
      rw [session?_of hs hpc]
      rfl
  | _ =>
      rw [hpc] at hloop
      cases hloop

/-! ## A session in the queue -/

theorem cancel_done {s : Semaphore Nat} {i : Nat} {w : Waiter Nat} (h : w ∈ (s.cancel i).waiters)
    (htask : w.task = i) : w.fut ≠ .pending := by
  obtain ⟨v, hv, rfl⟩ := List.mem_map.mp h
  by_cases hi : v.task = i
  · rw [if_pos hi, Semaphore.cancelFut]
    split
    · simp
    · assumption
  · rw [if_neg hi] at htask
    exact absurd htask hi

/-- The loop resumes a session whose future is done. -/
theorem leads_of_done {i : Nat} {s : Session} {w : Waiter Nat} (hσ : Sound max σ)
    (hs : σ.sessions[i]? = some s) (hpc : s.pc = .queued)
    (hw : σ.gate.gate.sem.waiter? i = some w) (hdone : w.fut ≠ .pending) :
    Leads synthesize i (fun pc => pc = .receiving ∨ pc = .gone) σ := by
  obtain ⟨hmem, htask⟩ := Semaphore.waiter?_eq hw
  have hready : i ∈ σ.gate.ready := htask ▸ hσ.seated.tidy.roused w hmem hdone
  obtain ⟨⟨sem, acquired, woken⟩, hres⟩ :=
    Semaphore.exists_resume hw hdone (σ.gate.mustCancel.contains i)
  obtain ⟨gate, hgate⟩ : ∃ gate, σ.gate.step (.resume i) = some gate := by
    have hlock : ({ σ.gate.gate with sem } : CallGate).lock = false := hσ.handler.gate.lock
    simp only [GateState.step, if_pos hready, hres]
    cases acquired with
    | false => exact ⟨_, rfl⟩
    | true =>
        rw [if_pos rfl, CallGate.enter_eq hlock]
        exact ⟨_, rfl⟩
  have hstep : σ.step synthesize (.wake i) = some ({ σ with gate }.put i
      { s with pc := if i ∈ gate.bodies then .receiving else .gone }) := by
    show (σ.session? i .queued).bind _ = _
    rw [session?_of hs hpc, Option.bind_some, wake, hgate]
    rfl
  refine .of_put hs hstep rfl rfl ?_
  dsimp only
  split
  · exact .inl rfl
  · exact .inr rfl

theorem leads_of_queued {i : Nat} {s : Session} (hσ : Sound max σ)
    (hs : σ.sessions[i]? = some s) (hpc : s.pc = .queued) :
    Leads synthesize i (fun pc => pc = .receiving ∨ pc = .gone) σ := by
  have hwaits : ∀ ρ : Server, Sound max ρ → ρ.sessions = σ.sessions →
      ∃ w, ρ.gate.gate.sem.waiter? i = some w := by
    intro ρ hρ hsessions
    refine Semaphore.waiter?_of_queued ((hρ.seated.seats i).1.mpr (seat_eq_waits.mpr ?_))
    exact ⟨s, by rw [hsessions, hs], hpc⟩
  obtain ⟨w, hw⟩ := hwaits σ hσ rfl
  by_cases hdone : w.fut = .pending
  · -- it is cancelled first
    have hstep : σ.step synthesize (.cancelWait i) = some { σ with gate := { σ.gate with
        gate := { σ.gate.gate with sem := σ.gate.gate.sem.cancel i }
        ready := σ.gate.ready ++ [i] } } := by
      show (σ.session? i .queued).bind _ = _
      rw [session?_of hs hpc, Option.bind_some, GateState.step, hw]
      simp only [hdone, Option.map_some]
    have hρ := sound_step hσ hstep
    obtain ⟨v, hv⟩ := hwaits _ hρ rfl
    obtain ⟨hmem, htask⟩ := Semaphore.waiter?_eq hv
    have hleads : Leads synthesize i (fun pc => pc = .receiving ∨ pc = .gone) _ :=
      leads_of_done hρ hs hpc hv (cancel_done hmem htask)
    obtain ⟨τ, s', hsettles, hend⟩ := hleads
    have hcancel : (serverSys synthesize).Run σ [(σ, .cancelWait i)] _ := Run.single hstep
    have hframe : Settles synthesize i σ _ :=
      .of_frame hcancel (List.forall_mem_singleton.mpr rfl) rfl
    exact ⟨τ, s', hframe.trans hsettles, hend⟩
  · exact leads_of_done hσ hs hpc hw hdone

/-- Wherever a session is, it can leave. -/
theorem leads_gone {i : Nat} {s : Session} (hσ : Sound max σ) (hs : σ.sessions[i]? = some s) :
    Leads synthesize i (· = .gone) σ := by
  have hfinally : ∀ (ρ : Server) (s' : Session), Sound max ρ → ρ.sessions[i]? = some s' →
      s'.pc = .stopping ∨ s'.pc = .ended → Leads synthesize i (· = .gone) ρ := by
    intro ρ s' hρ hs' hpc
    rcases hpc with hpc | hpc
    · exact (leads_of_stopping hρ hs' hpc).trans hρ fun _ _ => leads_of_ended
    · exact leads_of_ended hρ hs' hpc
  have hloop : ∀ (ρ : Server) (s' : Session), Sound max ρ → ρ.sessions[i]? = some s' →
      s'.pc.inLoop = true → Leads synthesize i (· = .gone) ρ := fun ρ s' hρ hs' hin =>
    (leads_of_inLoop hρ hs' hin).trans hρ hfinally
  cases hpc : s.pc with
  | queued =>
      refine (leads_of_queued hσ hs hpc).trans hσ fun ρ s' hρ hs' hto => ?_
      rcases hto with hto | hto
      · exact hloop ρ s' hρ hs' (by rw [hto]; rfl)
      · exact ⟨ρ, s', .refl i ρ, hs', hto⟩
  | receiving => exact hloop σ s hσ hs (by rw [hpc]; rfl)
  | starting => exact hloop σ s hσ hs (by rw [hpc]; rfl)
  | sendingAudio => exact hloop σ s hσ hs (by rw [hpc]; rfl)
  | stopping => exact hfinally σ s hσ hs (.inl hpc)
  | ended => exact hfinally σ s hσ hs (.inr hpc)
  | gone => exact ⟨σ, s, .refl i σ, hs, hpc⟩

/-- One session after the other. -/
theorem drains (hσ : Sound max σ) (n : Nat) :
    ∃ tr τ, (serverSys synthesize).Run σ tr τ ∧ (∀ p ∈ tr, p.2.isConnect = false) ∧
      τ.sessions.length = σ.sessions.length ∧
      ∀ (j : Nat) (s : Session), j < n → τ.sessions[j]? = some s → s.pc = .gone := by
  induction n with
  | zero =>
      refine ⟨[], σ, .nil, by simp, rfl, fun j s hj => ?_⟩
      exact absurd hj (Nat.not_lt_zero j)
  | succ n ih =>
      obtain ⟨tr, ρ, hrun, htr, hlen, hgone⟩ := ih
      have hρ : Sound max ρ :=
        TSys.Preserved.run (I := Sound max) (fun _ _ _ hσ hs => sound_step hσ hs) hrun hσ
      cases hs : ρ.sessions[n]? with
      | none =>
          refine ⟨tr, ρ, hrun, htr, hlen, fun j s hj hs' => ?_⟩
          rcases Nat.lt_succ_iff_lt_or_eq.mp hj with hj | rfl
          · exact hgone j s hj hs'
          · rw [hs] at hs'
            cases hs'
      | some s =>
          have hleads : Leads synthesize n (· = .gone) ρ := leads_gone hρ hs
          obtain ⟨τ, s', ⟨tr', hrun', htr', hlen', hsame⟩, hs', hpc⟩ := hleads
          refine ⟨tr ++ tr', τ, hrun.append hrun', List.forall_mem_append.mpr ⟨htr, htr'⟩,
            hlen'.trans hlen, fun j u hj hu => ?_⟩
          rcases Nat.lt_succ_iff_lt_or_eq.mp hj with hj | rfl
          · rw [hsame j (Nat.ne_of_lt hj)] at hu
            exact hgone j u hj hu
          · obtain rfl := Option.some.inj (hs'.symm.trans hu)
            exact hpc

end Server

open Server

/-- **The gate counts who runs.** In every state of the process, the queue of the semaphore
holds exactly the sessions that wait in `slot()`, and `active` counts exactly those whose
handler runs, each once; so when all sessions are gone, the gate is as it was made. -/
theorem permits_accounted {synthesize : Nat → Nat → String → List Bytes} {max : Int}
    {gate : CallGate} (hinit : CallGate.init max = .ok gate) {tr : List (Server × ServerAct)}
    {σ : Server} (h : (serverSys synthesize).Run { gate := { gate } } tr σ) :
    (σ.gate.gate.sem.queued.Nodup ∧ ∀ i, i ∈ σ.gate.gate.sem.queued ↔
      ∃ s, σ.sessions[i]? = some s ∧ s.pc = .queued) ∧
    (σ.gate.gate.active = (σ.gate.permits .twilio).length + (σ.gate.permits .webrtc).length ∧
      ∀ t, (σ.gate.permits t).Nodup ∧ ∀ i, i ∈ σ.gate.permits t ↔
        ∃ s, σ.sessions[i]? = some s ∧ s.transport = t ∧ s.pc.hasPermit = true) ∧
    ((∀ s ∈ σ.sessions, s.pc = .gone) → σ.gate.gate = gate) := by
  have hσ := sound_run hinit h
  refine ⟨⟨hσ.seated.tidy.order.order.distinct, fun i => ?_⟩,
    ⟨hσ.handler.gate.active, fun t => ⟨hσ.seated.tidy.nodup t, fun i => ?_⟩⟩,
    gate_of_gone hinit hσ⟩
  · exact ((hσ.seated.seats i).1).trans seat_eq_waits
  · exact ((hσ.seated.seats i).2 t).trans seat_eq_holds

/-- Two calls and a browser at a gate for one. -/
def crowdedActs : List ServerAct :=
  [.connect .twilio, .connect .twilio, .connect .webrtc]

theorem permits_accounted_crowded :
    ∃ tr σ, (serverSys fun _ _ _ => []).Run
        { gate := { gate := { sem := { value := 1 }, max := 1 } } } tr σ ∧
      σ.gate.gate.sem.queued = [1] ∧ σ.gate.permits .twilio = [0] ∧
      (∀ i, i ∈ σ.gate.gate.sem.queued ↔ ∃ s, σ.sessions[i]? = some s ∧ s.pc = .queued) := by
  have hinit : CallGate.init 1 = .ok { sem := { value := 1 }, max := 1 } := rfl
  have hrun : (serverSys fun _ _ _ => []).Run
      { gate := { gate := { sem := { value := 1 }, max := 1 } } } _ _ :=
    TSys.Run.exec crowdedActs (by decide +kernel)
  exact ⟨_, _, hrun, by decide +kernel, by decide +kernel, (permits_accounted hinit hrun).1.2⟩

/-- **No session is stuck.** From every state that the process can be in, it can come,
without a new session, to a state in which every session is gone and the gate is as it was
made. -/
theorem process_drains {synthesize : Nat → Nat → String → List Bytes} {max : Int}
    {gate : CallGate} (hinit : CallGate.init max = .ok gate) {tr : List (Server × ServerAct)}
    {σ : Server} (h : (serverSys synthesize).Run { gate := { gate } } tr σ) :
    ∃ tr' τ, (serverSys synthesize).Run σ tr' τ ∧ (∀ p ∈ tr', p.2.isConnect = false) ∧
      τ.sessions.length = σ.sessions.length ∧ (∀ s ∈ τ.sessions, s.pc = .gone) ∧
      τ.gate.gate = gate := by
  have hσ := sound_run hinit h
  obtain ⟨tr', τ, hrun, htr, hlen, hgone⟩ := drains hσ σ.sessions.length
  have hall : ∀ s ∈ τ.sessions, s.pc = .gone := by
    intro s hs
    obtain ⟨j, hj, hget⟩ := List.mem_iff_getElem.mp hs
    refine hgone j s (hlen ▸ hj) ?_
    rw [List.getElem?_eq_getElem hj, hget]
  exact ⟨tr', τ, hrun, htr, hlen, hall, gate_of_gone hinit (sound_run hinit (h.append hrun)) hall⟩

theorem process_drains_crowded :
    ∃ tr σ, (serverSys fun _ _ _ => []).Run
        { gate := { gate := { sem := { value := 1 }, max := 1 } } } tr σ ∧
      σ.sessions.map (·.pc) = [.receiving, .queued, .gone] ∧
      ∃ tr' τ, (serverSys fun _ _ _ => []).Run σ tr' τ ∧ τ.sessions.length = 3 ∧
        (∀ s ∈ τ.sessions, s.pc = .gone) ∧ τ.gate.gate.sem.value = 1 := by
  have hinit : CallGate.init 1 = .ok { sem := { value := 1 }, max := 1 } := rfl
  have hrun : (serverSys fun _ _ _ => []).Run
      { gate := { gate := { sem := { value := 1 }, max := 1 } } } _ _ :=
    TSys.Run.exec crowdedActs (by decide +kernel)
  obtain ⟨tr', τ, hrun', -, hlen, hgone, hgate⟩ := process_drains hinit hrun
  refine ⟨_, _, hrun, by decide +kernel, tr', τ, hrun', hlen, hgone, ?_⟩
  rw [hgate]

end VoiceAgent
