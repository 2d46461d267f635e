import Mathlib.Data.List.Nodup
import Mathlib.Data.List.Perm.Subperm
import VoiceAgent.Logic.Handlers

/-!
# Pipelines and permits

A handler stops the call that its variable refers to when it ends. A start
frame that reaches it while it has a call already replaces the variable, and
nothing refers to the first call any more: it is never stopped, and it stays in
the process when the permit is given back.
-/

namespace VoiceAgent

open Lib Lib.TSys

/-- `start()` was called and `stop()` has not come to an end. -/
def Call.live (c : Call) : Bool :=
  match c.state.stopPc with
  | .returned | .raised => false
  | _ => true

theorem Call.live_iff (c : Call) : c.live = true ↔ c.state.stopPc.rank ≠ 7 := by
  unfold Call.live
  cases c.state.stopPc <;> simp [StopPc.rank]

namespace Server

variable {synthesize : Nat → Nat → String → List Bytes} {σ τ : Server}

/-- The sessions whose handlers constructed the calls, oldest call first. -/
def owners (σ : Server) : List Nat := σ.calls.map (·.session)

/-- The variable `orchestrator` of a session's handler. -/
def orchestratorOf (σ : Server) (i : Nat) : Option Nat :=
  σ.sessions[i]?.bind (·.orchestrator)

/-- The session whose handler has a call already when the step's start frame
reaches it. -/
def restarts? (σ : Server) (a : ServerAct) : Option Nat :=
  match σ.startFrame? a with
  | some (i, _) => if (σ.orchestratorOf i).isSome then some i else none
  | none => none

theorem orchestratorOf_put {i : Nat} {s : Session} (hs : σ.sessions[i]? = some s)
    (s' : Session) (j : Nat) :
    (σ.put i s').orchestratorOf j = if j = i then s'.orchestrator else σ.orchestratorOf j := by
  by_cases hj : j = i
  · subst hj
    rw [if_pos rfl, orchestratorOf, put,
      List.getElem?_set_self (List.getElem?_eq_some_iff.mp hs).1]
    rfl
  · rw [if_neg hj, orchestratorOf, put, List.getElem?_set_ne (Ne.symm hj)]
    rfl

/-- Where only the session's program counter changes, its variable does not. -/
theorem orchestratorOf_pc {i : Nat} {s : Session} (hs : σ.sessions[i]? = some s)
    (pc : SessionPc) (j : Nat) :
    (σ.put i { s with pc }).orchestratorOf j = σ.orchestratorOf j := by
  rw [orchestratorOf_put hs]
  split
  · rename_i hj
    rw [hj, orchestratorOf, hs]
    rfl
  · rfl

/-- Only a start frame changes who owns a call and what a variable refers to. -/
theorem ownership_step {a : ServerAct} (h : Step synthesize σ a τ) :
    (σ.startFrame? a = none ∧ τ.owners = σ.owners ∧
      ∀ i, τ.orchestratorOf i = σ.orchestratorOf i) ∨
    ∃ j frame, σ.startFrame? a = some (j, frame) ∧ τ.owners = σ.owners ++ [j] ∧
      ∀ i, τ.orchestratorOf i = if i = j then some σ.owners.length else σ.orchestratorOf i := by
  cases h with
  | connects hgate ha hpc =>
      refine .inl ⟨rfl, rfl, fun i => ?_⟩
      show ((σ.sessions ++ [_])[i]?).bind _ = (σ.sessions[i]?).bind _
      rw [List.getElem?_append]
      split
      · rfl
      · -- the handler of a new session has no call yet
        rename_i hge
        rw [List.getElem?_eq_none (Nat.le_of_not_lt hge)]
        cases i - σ.sessions.length <;> rfl
  | gates hgate => exact .inl ⟨rfl, rfl, fun _ => rfl⟩
  | skips hno => exact .inl ⟨hno, rfl, fun _ => rfl⟩
  | @moves a i s pc gate hno hs hqueued hloop hfinished hgate hpermit hstarted =>
      exact .inl ⟨hno, rfl, fun j => orchestratorOf_pc (σ := { σ with gate }) hs pc j⟩
  | @constructs i s msg frame hstart hs hpc =>
      refine .inr ⟨i, frame, hstart, List.map_append, fun j => ?_⟩
      rw [owners, List.length_map]
      exact orchestratorOf_put hs { s with pc := .starting, orchestrator := some σ.calls.length } j
  | @stops a i k s hno hs hloop hk hfailed =>
      refine .inl ⟨hno, ?_, fun j => orchestratorOf_pc hs .stopping j⟩
      show (σ.calls.modify k Call.stop).map (·.session) = σ.calls.map (·.session)
      refine List.ext_getElem? fun j => ?_
      rw [List.getElem?_map, List.getElem?_map, List.getElem?_modify, Option.map_eq_map,
        Option.map_map]
      congr 1
      funext c
      show (if _ then _ else _ : Call).session = c.session
      split <;> rfl
  | @call k c a inDoubt state hc hstop hanswers hstep =>
      refine .inl ⟨rfl, ?_, fun _ => rfl⟩
      show (σ.calls.set k { c with state }).map (·.session) = σ.calls.map (·.session)
      rw [List.map_set]
      obtain ⟨hk, rfl⟩ := List.getElem?_eq_some_iff.mp hc
      refine List.ext_getElem? fun j => ?_
      rw [List.getElem?_set]
      split
      · rename_i hkj
        subst hkj
        rw [if_pos (by rw [List.length_map]; exact hk), List.getElem?_map, hc]
        rfl
      · rfl

/-- The handler of `i` refers to every call it has constructed. -/
def Owned (i : Nat) (σ : Server) : Prop :=
  ∀ k : Nat, σ.owners[k]? = some i → σ.orchestratorOf i = some k

/-- A handler that has constructed no call refers to none. -/
theorem orchestratorOf_eq_none {i : Nat} {max : Int} (hσ : HandlerInv max σ)
    (hnone : ∀ k : Nat, σ.owners[k]? ≠ some i) : σ.orchestratorOf i = none := by
  cases horch : σ.orchestratorOf i with
  | none => rfl
  | some k =>
      obtain ⟨s, hs, hk⟩ := Option.bind_eq_some_iff.mp horch
      obtain ⟨c, hc, hsession, -⟩ := hσ.current i s k hs hk
      refine absurd ?_ (hnone k)
      rw [owners, List.getElem?_map, hc, ← hsession]
      rfl

/-- A handler constructs one more call: it refers to that one alone, so to all
its calls only if it had none. -/
theorem owned_constructs {i : Nat} {max : Int} (hσ : HandlerInv max σ)
    (howners : τ.owners = σ.owners ++ [i]) (horch : τ.orchestratorOf i = some σ.owners.length) :
    Owned i τ ↔ Owned i σ ∧ σ.orchestratorOf i = none := by
  constructor
  · intro hτ
    -- an older call would be at a smaller index
    have hnone : ∀ k : Nat, σ.owners[k]? ≠ some i := by
      intro k hk
      have hlt := (List.getElem?_eq_some_iff.mp hk).1
      have hold := hτ k (by rw [howners, List.getElem?_append_left hlt, hk])
      rw [horch] at hold
      have := Option.some.inj hold
      omega
    exact ⟨fun k hk => absurd hk (hnone k), orchestratorOf_eq_none hσ hnone⟩
  · rintro ⟨hσ', hnone⟩ k hk
    rw [howners] at hk
    rcases getElem?_snoc_cases hk with hk | ⟨rfl, -⟩
    · -- it had a call already: the start frame was a second one
      rw [hσ' k hk] at hnone
      cases hnone
    · exact horch

/-- Where another handler constructs a call, or none does, the ownership of the
calls of `i` is as before; where `i` does, it is if the handler had none. -/
theorem owned_step {i : Nat} {max : Int} {a : ServerAct} (hσ : HandlerInv max σ)
    (h : Step synthesize σ a τ) :
    Owned i τ ↔ Owned i σ ∧ σ.restarts? a ≠ some i := by
  rcases ownership_step h with ⟨hno, howners, horch⟩ | ⟨j, frame, hstart, howners, horch⟩
  · have hrestarts : σ.restarts? a ≠ some i := by
      rw [restarts?, hno]
      nofun
    rw [Owned, Owned, howners, horch]
    exact (and_iff_left hrestarts).symm
  · have hrestarts : σ.restarts? a = if (σ.orchestratorOf j).isSome then some j else none := by
      rw [restarts?, hstart]
    rw [hrestarts]
    by_cases hij : i = j
    · subst hij
      rw [owned_constructs hσ howners (by rw [horch, if_pos rfl])]
      refine and_congr_right fun _ => ?_
      cases horch' : σ.orchestratorOf i <;> simp
    · have hji : (if (σ.orchestratorOf j).isSome then some j else none) ≠ some i := by
        split
        · intro h
          exact hij (Option.some.inj h).symm
        · nofun
      have hother : τ.orchestratorOf i = σ.orchestratorOf i := by rw [horch, if_neg hij]
      rw [and_iff_left hji, Owned, Owned, hother, howners]
      refine forall_congr' fun k => imp_congr_left ⟨fun hk => ?_, fun hk => ?_⟩
      · rcases getElem?_snoc_cases hk with hk | ⟨-, hk⟩
        · exact hk
        · exact absurd hk hij
      · exact (List.getElem?_append_left (List.getElem?_eq_some_iff.mp hk).1).trans hk

/-- The handler of `i` refers to all its calls exactly when no start frame
reached it while it had one. -/
theorem owned_iff {i : Nat} {max : Int} {gate : CallGate} (hinit : CallGate.init max = .ok gate)
    {tr : List (Server × ServerAct)}
    (h : (serverSys synthesize).Run { gate := { gate } } tr σ) :
    Owned i σ ↔ ∀ p ∈ tr, p.1.restarts? p.2 ≠ some i := by
  induction h with
  | nil => simp [Owned, owners]
  | @snoc tr ρ σ a hrun hstep ih =>
      rw [owned_step (handlerInv_run hinit hrun) (step_cases hstep), ih, List.forall_mem_append,
        List.forall_mem_singleton]

/-! ## Stops -/

/-- A handler that is over has stopped the call it refers to, once, and no other. -/
theorem stopped_iff {i : Nat} {max : Int} {s : Session} (hσ : HandlerInv max σ)
    (hs : σ.sessions[i]? = some s) (hfinished : s.pc.finished = true) :
    (∀ c ∈ σ.calls, c.session = i → c.stops = 1) ↔ Owned i σ := by
  have hloop : s.pc.inLoop = false := by
    cases hin : s.pc.inLoop with
    | false => rfl
    | true =>
        rw [SessionPc.finished_of_inLoop hin] at hfinished
        cases hfinished
  have horch : σ.orchestratorOf i = s.orchestrator := by
    rw [orchestratorOf, hs]
    rfl
  have hstops : ∀ (k : Nat) (c : Call), σ.calls[k]? = some c → c.session = i →
      c.stops = if s.orchestrator = some k then 1 else 0 := by
    intro k c hc hsession
    obtain ⟨s', hs', hstops⟩ := hσ.stops k c hc
    rw [hsession] at hs'
    obtain rfl := Option.some.inj (hs.symm.trans hs')
    rw [hstops, hloop]
    exact if_congr (and_iff_left rfl) rfl rfl
  constructor
  · intro hall k hk
    rw [owners, List.getElem?_map, Option.map_eq_some_iff] at hk
    obtain ⟨c, hc, hsession⟩ := hk
    have hone := hall c (List.mem_of_getElem? hc) hsession
    rw [hstops k c hc hsession] at hone
    rw [horch]
    by_contra hne
    rw [if_neg hne] at hone
    cases hone
  · intro howned c hc hsession
    obtain ⟨k, hk⟩ := List.getElem?_of_mem hc
    have hmine := howned k (by rw [owners, List.getElem?_map, hk, ← hsession]; rfl)
    rw [hstops k c hk hsession, if_pos (horch ▸ hmine)]

/-! ## Permits -/

theorem mem_permits {max : Int} {i : Nat} {s : Session} (hσ : HandlerInv max σ)
    (hs : σ.sessions[i]? = some s) (hpermit : s.pc.hasPermit = true) :
    i ∈ σ.gate.bodies ++ σ.gate.holders := by
  have hmem := hσ.permit i s hs hpermit
  cases ht : s.transport <;> rw [ht] at hmem
  · exact List.mem_append_left _ hmem
  · exact List.mem_append_right _ hmem

/-- Where every handler refers to all its calls, a live call has a session of its
own that holds a permit. -/
theorem live_le_active {max : Int} (hσ : HandlerInv max σ) (howned : ∀ i, Owned i σ) :
    (σ.calls.countP Call.live : Int) ≤ σ.gate.gate.active := by
  -- the sessions of the live calls are distinct and all hold permits
  let sessions : List Nat := (σ.calls.filter Call.live).map (·.session)
  have hnodup : sessions.Nodup := by
    have howners : σ.owners.Nodup := by
      rw [List.nodup_iff_getElem?_ne_getElem?]
      intro j k hjk hk heq
      obtain ⟨i, hi⟩ : ∃ i, σ.owners[k]? = some i := ⟨_, List.getElem?_eq_getElem hk⟩
      have hj := howned i j (heq.trans hi)
      rw [howned i k hi] at hj
      have := Option.some.inj hj
      omega
    exact howners.sublist (List.filter_sublist.map _)
  have hsub : sessions ⊆ σ.gate.bodies ++ σ.gate.holders := by
    intro i hi
    obtain ⟨c, hc, rfl⟩ := List.mem_map.mp hi
    obtain ⟨hc, hlive⟩ := List.mem_filter.mp hc
    obtain ⟨k, hk⟩ := List.getElem?_of_mem hc
    have hmine := howned c.session k (by rw [owners, List.getElem?_map, hk]; rfl)
    obtain ⟨s, hs, horch⟩ := Option.bind_eq_some_iff.mp hmine
    obtain ⟨d, hd, -, hrank⟩ := hσ.current _ s k hs horch
    obtain rfl := Option.some.inj (hk.symm.trans hd)
    apply mem_permits hσ hs
    -- a queued handler has no call, one that has given its permit back stopped it
    cases hpc : s.pc with
    | queued =>
        rw [(hσ.queued _ s hs hpc).1] at horch
        cases horch
    | gone => exact absurd (hrank (by rw [hpc]; rfl)) (c.live_iff.mp hlive)
    | _ => rfl
  have hlen := (List.subperm_of_subset hnodup hsub).length_le
  rw [List.length_map, ← List.countP_eq_length_filter, List.length_append] at hlen
  rw [hσ.gate.active]
  omega

end Server

open Server

/-- **Pipelines and permits.** In every run of the process: a handler that has
ended has stopped every call it constructed exactly once if and only if no start
frame reached it while it had a call already; and where none reached any handler
so, the calls that are live are never more than the permits held. -/
theorem pipelines_stopped_iff {synthesize : Nat → Nat → String → List Bytes} {max : Int}
    {gate : CallGate} (hinit : CallGate.init max = .ok gate)
    {tr : List (Server × ServerAct)} {σ : Server}
    (h : (serverSys synthesize).Run { gate := { gate } } tr σ) :
    (∀ (i : Nat) (s : Session), σ.sessions[i]? = some s → s.pc.finished = true →
      ((∀ c ∈ σ.calls, c.session = i → c.stops = 1) ↔ ∀ p ∈ tr, p.1.restarts? p.2 ≠ some i)) ∧
    ((∀ p ∈ tr, p.1.restarts? p.2 = none) →
      (σ.calls.countP Call.live : Int) ≤ σ.gate.gate.active) := by
  have hσ := handlerInv_run hinit h
  constructor
  · intro i s hs hfinished
    rw [stopped_iff hσ hs hfinished, owned_iff hinit h]
  · intro hno
    refine live_le_active hσ fun i => ?_
    exact (owned_iff hinit h).mpr fun p hp => by rw [hno p hp]; nofun

/-- A second start frame on one browser socket: when the socket is gone and its
permit is back, the first call is still live and was never stopped. -/
theorem second_start_leaks_call :
    ∃ tr σ, (serverSys fun _ _ _ => []).Run { gate := { gate := ⟨{ value := 1 }, 1, 0, false⟩ } }
        tr σ ∧
      σ.sessions.map (·.pc) = [.gone] ∧
      (¬ ∀ c ∈ σ.calls, c.session = 0 → c.stops = 1) ∧
      ¬ (σ.calls.countP Call.live : Int) ≤ σ.gate.gate.active := by
  let start : Server := { gate := { gate := ⟨{ value := 1 }, 1, 0, false⟩ } }
  let again : PyVal := .dict [("type", .str "start"), ("session_id", .str "b")]
  let acts : List ServerAct :=
    [.connect .webrtc, .receive 0 (.json (.dict [("type", .str "start")])),
     .call 0 (.starting .returns), .call 0 (.starting .returns), .call 0 (.starting .returns),
     .startDone 0, .receive 0 (.json again), .call 1 (.starting .raises), .startDone 0,
     .call 1 (.stopping .returns), .call 1 (.stopping .returns),
     .call 1 (.stopping (.found false)), .call 1 (.stopping .returns), .stopDone 0, .leave 0]
  have hrun : (serverSys fun _ _ _ => []).Run start
      ((serverSys fun _ _ _ => []).trace start acts) _ := TSys.Run.exec acts (by decide +kernel)
  exact ⟨_, _, hrun, by decide +kernel, by decide +kernel, by decide +kernel⟩

/-- A browser session with one start frame, up to the end of its handler. -/
theorem pipelines_stopped_iff_one_start :
    ∃ tr σ, (serverSys fun _ _ _ => []).Run { gate := { gate := ⟨{ value := 1 }, 1, 0, false⟩ } }
        tr σ ∧
      σ.calls.length = 1 ∧ (∀ c ∈ σ.calls, c.session = 0 → c.stops = 1) ∧
      (σ.calls.countP Call.live : Int) ≤ σ.gate.gate.active := by
  let start : Server := { gate := { gate := ⟨{ value := 1 }, 1, 0, false⟩ } }
  let acts : List ServerAct :=
    [.connect .webrtc, .receive 0 (.json (.dict [("type", .str "start")])),
     .call 0 (.starting .raises), .startDone 0, .call 0 (.stopping .returns),
     .call 0 (.stopping .returns), .call 0 (.stopping (.found false)),
     .call 0 (.stopping .returns), .stopDone 0]
  have hrun : (serverSys fun _ _ _ => []).Run start
      ((serverSys fun _ _ _ => []).trace start acts) _ := TSys.Run.exec acts (by decide +kernel)
  have hinit : CallGate.init 1 = .ok start.gate.gate := rfl
  obtain ⟨hstopped, hlive⟩ := pipelines_stopped_iff hinit hrun
  exact ⟨_, _, hrun, by decide +kernel, (hstopped 0 _ rfl (by decide +kernel)).mpr
    (by decide +kernel), hlive (by decide +kernel)⟩

end VoiceAgent
