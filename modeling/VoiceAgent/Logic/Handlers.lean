import VoiceAgent.Logic.ServerSteps

/-!
# The handlers and the calls they construct

What holds between a handler's variable `orchestrator`, the calls it has
constructed and its permit. A call that the variable does not refer to any more
is never stopped: `stops` says of every call how often it was, from the state of
its handler alone.
-/

namespace VoiceAgent

open Lib Lib.TSys

theorem StopPc.rank_le (pc : StopPc) : pc.rank ≤ 7 := by
  cases pc <;> simp [StopPc.rank]

namespace Server

variable {synthesize : Nat → Nat → String → List Bytes} {max : Int} {σ τ : Server}

/-- What the handlers keep. -/
structure HandlerInv (max : Int) (σ : Server) : Prop where
  gate : GateInv max σ.gate
  queued : ∀ (i : Nat) (s : Session), σ.sessions[i]? = some s → s.pc = .queued →
    s.orchestrator = none ∧ s.transport = .twilio
  permit : ∀ (i : Nat) (s : Session), σ.sessions[i]? = some s → s.pc.hasPermit = true →
    i ∈ σ.gate.permits s.transport
  current : ∀ (i : Nat) (s : Session) (k : Nat), σ.sessions[i]? = some s →
    s.orchestrator = some k → ∃ c, σ.calls[k]? = some c ∧ c.session = i ∧
      (s.pc.finished = true → c.state.stopPc.rank = 7)
  stops : ∀ (k : Nat) (c : Call), σ.calls[k]? = some c → ∃ s,
    σ.sessions[c.session]? = some s ∧
      c.stops = if s.orchestrator = some k ∧ s.pc.inLoop = false then 1 else 0

theorem handlerInv_connects {transport : Transport} {a : GateAct} {gate : GateState}
    {pc : SessionPc} (hσ : HandlerInv max σ) (hgate : σ.gate.step a = some gate)
    (ha : a.givesBack = none)
    (hpc : pc = .gone ∨ pc = .queued ∧ transport = .twilio ∨
      pc = .receiving ∧ σ.sessions.length ∈ gate.permits transport) :
    HandlerInv max { σ with gate, sessions := σ.sessions ++ [{ transport, pc }] } where
  gate := gateInv_step hσ.gate (GateState.step_cases hσ.gate.lock hgate)
  queued i s hs hqueued := by
    rcases getElem?_snoc_cases hs with hs | ⟨-, rfl⟩
    · exact hσ.queued i s hs hqueued
    · obtain rfl : pc = .queued := hqueued
      rcases hpc with h | ⟨-, h⟩ | ⟨h, -⟩
      · cases h
      · exact ⟨rfl, h⟩
      · cases h
  permit i s hs hpermit := by
    rcases getElem?_snoc_cases hs with hs | ⟨rfl, rfl⟩
    · apply GateState.permits_step hσ.gate.lock hgate (hσ.permit i s hs hpermit)
      rw [ha]
      nofun
    · rcases hpc with rfl | ⟨rfl, -⟩ | ⟨-, h⟩
      · cases hpermit
      · cases hpermit
      · exact h
  current i s k hs hk := by
    rcases getElem?_snoc_cases hs with hs | ⟨-, rfl⟩
    · exact hσ.current i s k hs hk
    · cases hk
  stops k c hc := by
    obtain ⟨s, hs, hstops⟩ := hσ.stops k c hc
    refine ⟨s, ?_, hstops⟩
    rw [List.getElem?_append_left (List.getElem?_eq_some_iff.mp hs).1]
    exact hs

theorem handlerInv_gates {i : Nat} {gate : GateState} (hσ : HandlerInv max σ)
    (hgate : σ.gate.step (.cancel i) = some gate) : HandlerInv max { σ with gate } where
  gate := gateInv_step hσ.gate (GateState.step_cases hσ.gate.lock hgate)
  queued := hσ.queued
  permit j s hs hpermit :=
    GateState.permits_step hσ.gate.lock hgate (hσ.permit j s hs hpermit) nofun
  current := hσ.current
  stops := hσ.stops

theorem handlerInv_moves {i : Nat} {s : Session} {pc : SessionPc} {gate : GateState}
    (hσ : HandlerInv max σ) (hs : σ.sessions[i]? = some s) (hqueued : pc ≠ .queued)
    (hloop : s.orchestrator ≠ none → s.pc ≠ .queued → pc.inLoop = s.pc.inLoop)
    (hfinished : ∀ c, σ.current? s = some c → pc.finished = true → s.pc.finished = true ∨
      s.pc = .queued ∨ c.stopPc.rank = 7)
    (hgate : gate = σ.gate ∨ ∃ b, σ.gate.step b = some gate ∧
      (b.givesBack = none ∨ b.givesBack = some i))
    (hpermit : pc.hasPermit = true → s.pc.hasPermit = true ∧ gate = σ.gate ∨
      s.pc = .queued ∧ i ∈ gate.bodies) :
    HandlerInv max ({ σ with gate }.put i { s with pc }) where
  gate := by
    rcases hgate with rfl | ⟨b, hb, -⟩
    · exact hσ.gate
    · exact gateInv_step hσ.gate (GateState.step_cases hσ.gate.lock hb)
  queued j s' hs' hpc := by
    rcases getElem?_set_cases hs' with ⟨-, rfl⟩ | ⟨-, hs'⟩
    · exact absurd hpc hqueued
    · exact hσ.queued j s' hs' hpc
  permit j s' hs' hp := by
    rcases getElem?_set_cases hs' with ⟨rfl, rfl⟩ | ⟨hne, hs'⟩
    · rcases hpermit hp with ⟨hp, rfl⟩ | ⟨hq, hmem⟩
      · exact hσ.permit i s hs hp
      · -- only `slot()` queues
        show i ∈ gate.permits s.transport
        rw [(hσ.queued i s hs hq).2]
        exact hmem
    · have hj := hσ.permit j s' hs' hp
      rcases hgate with rfl | ⟨b, hb, hgives⟩
      · exact hj
      · apply GateState.permits_step hσ.gate.lock hb hj
        rcases hgives with h | h <;> rw [h]
        · intro heq
          exact Option.some_ne_none j heq.symm
        · intro heq
          exact hne (Option.some.inj heq)
  current j s' k hs' hk := by
    rcases getElem?_set_cases hs' with ⟨rfl, rfl⟩ | ⟨-, hs'⟩
    · obtain ⟨c, hc, hsession, hrank⟩ := hσ.current i s k hs hk
      refine ⟨c, hc, hsession, fun ho => ?_⟩
      rcases hfinished _ (current?_eq hk hc) ho with h | h | h
      · exact hrank h
      · rw [(hσ.queued i s hs h).1] at hk
        cases hk
      · exact h
    · exact hσ.current j s' k hs' hk
  stops k c hc := by
    obtain ⟨s', hs', hstops⟩ := hσ.stops k c hc
    by_cases hi : i = c.session
    · -- the session that moved: whether it is in its loop did not change
      subst hi
      obtain rfl : s = s' := Option.some.inj (hs.symm.trans hs')
      refine ⟨{ s with pc }, List.getElem?_set_self (List.getElem?_eq_some_iff.mp hs).1, ?_⟩
      rw [hstops]
      by_cases hk : s.orchestrator = some k
      · have hne : s.orchestrator ≠ none := by rw [hk]; exact Option.some_ne_none k
        have hq : s.pc ≠ .queued := fun h => hne (hσ.queued _ s hs h).1
        show _ = if s.orchestrator = some k ∧ pc.inLoop = false then 1 else 0
        rw [hloop hne hq]
      · rw [if_neg fun h => hk h.1, if_neg fun h => hk h.1]
    · exact ⟨s', (List.getElem?_set_ne hi).trans hs', hstops⟩

theorem handlerInv_constructs {i : Nat} {s : Session} {frame : StartFrame}
    (hσ : HandlerInv max σ) (hs : σ.sessions[i]? = some s) (hpc : s.pc = .receiving) :
    HandlerInv max (σ.construct synthesize i s frame) where
  gate := hσ.gate
  queued j s' hs' hq := by
    rcases getElem?_set_cases hs' with ⟨-, rfl⟩ | ⟨-, hs'⟩
    · cases hq
    · exact hσ.queued j s' hs' hq
  permit j s' hs' hp := by
    rcases getElem?_set_cases hs' with ⟨rfl, rfl⟩ | ⟨-, hs'⟩
    · exact hσ.permit i s hs (by rw [hpc]; rfl)
    · exact hσ.permit j s' hs' hp
  current j s' k hs' hk := by
    rcases getElem?_set_cases hs' with ⟨rfl, rfl⟩ | ⟨-, hs'⟩
    · obtain rfl : σ.calls.length = k := Option.some.inj hk
      exact ⟨_, List.getElem?_concat_length, rfl, nofun⟩
    · obtain ⟨c, hc, h⟩ := hσ.current j s' k hs' hk
      refine ⟨c, ?_, h⟩
      exact (List.getElem?_append_left (List.getElem?_eq_some_iff.mp hc).1).trans hc
  stops k c hc := by
    rcases getElem?_snoc_cases hc with hc | ⟨rfl, rfl⟩
    · have hlt := (List.getElem?_eq_some_iff.mp hc).1
      obtain ⟨s', hs', hstops⟩ := hσ.stops k c hc
      by_cases hi : i = c.session
      · -- the variable refers to the new call from here on
        subst hi
        obtain rfl : s = s' := Option.some.inj (hs.symm.trans hs')
        have hbefore : ¬ (s.orchestrator = some k ∧ s.pc.inLoop = false) := by
          rw [hpc]
          exact fun h => nomatch h.2
        refine ⟨_, List.getElem?_set_self (List.getElem?_eq_some_iff.mp hs).1, ?_⟩
        rw [hstops, if_neg hbefore, if_neg]
        intro h
        have := Option.some.inj h.1
        omega
      · exact ⟨s', (List.getElem?_set_ne hi).trans hs', hstops⟩
    · exact ⟨_, List.getElem?_set_self (List.getElem?_eq_some_iff.mp hs).1,
        (if_neg fun h => nomatch h.2).symm⟩

theorem handlerInv_stops {i k : Nat} {s : Session} (hσ : HandlerInv max σ)
    (hs : σ.sessions[i]? = some s) (hloop : s.pc.inLoop = true) (hk : s.orchestrator = some k) :
    HandlerInv max { σ.put i { s with pc := .stopping } with
      calls := σ.calls.modify k Call.stop } where
  gate := hσ.gate
  queued j s' hs' hq := by
    rcases getElem?_set_cases hs' with ⟨-, rfl⟩ | ⟨-, hs'⟩
    · cases hq
    · exact hσ.queued j s' hs' hq
  permit j s' hs' hp := by
    rcases getElem?_set_cases hs' with ⟨rfl, rfl⟩ | ⟨-, hs'⟩
    · exact hσ.permit i s hs (SessionPc.hasPermit_of_inLoop hloop)
    · exact hσ.permit j s' hs' hp
  current j s' k' hs' hk' := by
    have hmodify : ∀ c, σ.calls[k']? = some c →
        (σ.calls.modify k Call.stop)[k']? = some (if k = k' then c.stop else c) := by
      intro c hc
      rw [List.getElem?_modify, hc]
      rfl
    rcases getElem?_set_cases hs' with ⟨rfl, rfl⟩ | ⟨hne, hs'⟩
    · obtain ⟨c, hc, hsession, -⟩ := hσ.current i s k' hs hk'
      refine ⟨_, hmodify c hc, ?_, nofun⟩
      split <;> exact hsession
    · obtain ⟨c, hc, hsession, hrank⟩ := hσ.current j s' k' hs' hk'
      obtain ⟨d, hd, hsession', -⟩ := hσ.current i s k hs hk
      -- two sessions do not refer to one call
      have hkk : k ≠ k' := by
        rintro rfl
        obtain rfl := Option.some.inj (hc.symm.trans hd)
        exact hne (hsession'.symm.trans hsession)
      refine ⟨_, hmodify c hc, ?_⟩
      rw [if_neg hkk]
      exact ⟨hsession, hrank⟩
  stops k' c' hc' := by
    obtain ⟨c, hc, rfl⟩ := getElem?_modify_cases hc'
    obtain ⟨s', hs', hstops⟩ := hσ.stops k' c hc
    have hset := List.getElem?_set_self (a := { s with pc := .stopping })
      (List.getElem?_eq_some_iff.mp hs).1
    by_cases hkk : k = k'
    · subst hkk
      obtain ⟨d, hd, hsession, -⟩ := hσ.current i s k hs hk
      obtain rfl := Option.some.inj (hc.symm.trans hd)
      rw [hsession] at hs'
      obtain rfl : s = s' := Option.some.inj (hs.symm.trans hs')
      rw [if_pos rfl]
      refine ⟨_, (show _ = _ by rw [show c.stop.session = i from hsession]; exact hset), ?_⟩
      show c.stops + 1 = _
      have hbefore : ¬ (s.orchestrator = some k ∧ s.pc.inLoop = false) := by
        rw [hloop]
        exact fun h => nomatch h.2
      rw [hstops, if_neg hbefore]
      exact (if_pos ⟨hk, rfl⟩).symm
    · rw [if_neg hkk]
      by_cases hi : i = c.session
      · subst hi
        obtain rfl : s = s' := Option.some.inj (hs.symm.trans hs')
        have hother : s.orchestrator ≠ some k' := by
          rw [hk]
          intro h
          exact hkk (Option.some.inj h)
        refine ⟨_, hset, ?_⟩
        rw [hstops, if_neg fun h => hother h.1, if_neg fun h => hother h.1]
      · exact ⟨s', (List.getElem?_set_ne hi).trans hs', hstops⟩

theorem handlerInv_call {k : Nat} {c : Call} {a : CallAct} {state : CallOrchestrator}
    {rows : List SessionRow} (hσ : HandlerInv max σ) (hc : σ.calls[k]? = some c)
    (hstep : c.state.step c.cfg a = some state) :
    HandlerInv max { σ with calls := σ.calls.set k { c with state }, rows } where
  gate := hσ.gate
  queued := hσ.queued
  permit := hσ.permit
  current i s k' hs hk' := by
    obtain ⟨d, hd, hsession, hrank⟩ := hσ.current i s k' hs hk'
    by_cases hkk : k = k'
    · subst hkk
      obtain rfl := Option.some.inj (hc.symm.trans hd)
      refine ⟨_, List.getElem?_set_self (List.getElem?_eq_some_iff.mp hc).1, hsession, ?_⟩
      intro hfinished
      have hmono := CallOrchestrator.rank_step (CallOrchestrator.step_cases hstep)
      have hle := state.stopPc.rank_le
      rw [hrank hfinished] at hmono
      exact Nat.le_antisymm hle hmono
    · exact ⟨d, (List.getElem?_set_ne hkk).trans hd, hsession, hrank⟩
  stops k' c' hc' := by
    rcases getElem?_set_cases hc' with ⟨rfl, rfl⟩ | ⟨-, hc'⟩
    · exact hσ.stops k c hc
    · exact hσ.stops k' c' hc'

theorem handlerInv_step {a : ServerAct} (hσ : HandlerInv max σ) (h : Step synthesize σ a τ) :
    HandlerInv max τ := by
  cases h with
  | connects hgate ha hpc => exact handlerInv_connects hσ hgate ha hpc
  | gates hgate => exact handlerInv_gates hσ hgate
  | skips hno => exact hσ
  | moves hno hs hqueued hloop hfinished hgate hpermit hstarted =>
      exact handlerInv_moves hσ hs hqueued hloop hfinished hgate hpermit
  | constructs hstart hs hpc => exact handlerInv_constructs hσ hs hpc
  | stops hno hs hloop hk hfailed => exact handlerInv_stops hσ hs hloop hk
  | call hc hstop hanswers hstep => exact handlerInv_call hσ hc hstep

theorem handlerInv_run {gate : CallGate} (hinit : CallGate.init max = .ok gate)
    {tr : List (Server × ServerAct)}
    (h : (serverSys synthesize).Run { gate := { gate } } tr σ) : HandlerInv max σ :=
  TSys.Preserved.run (I := HandlerInv max)
    (fun _ _ _ hσ hs => handlerInv_step hσ (step_cases hs)) h
    ⟨gateInv_init hinit, by simp, by simp, by simp, by simp⟩

end Server

end VoiceAgent
