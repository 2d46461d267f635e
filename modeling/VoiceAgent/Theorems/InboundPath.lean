import VoiceAgent.Lib.Indexed
import VoiceAgent.Lib.Pieces
import VoiceAgent.Logic.LiveSteps
import VoiceAgent.Model.LiveSession

/-!
# The caller's audio from the websocket to Deepgram

A handler hands audio on only while the call its variable refers to is started and
not stopped, and all that while the call's stream is connected (`LiveCall.Hears`): so
`send_pcm` does not raise, and what a connection of Deepgram is sent are the frames that
came while its call was the latest, in order.
-/

namespace VoiceAgent

open Lib Lib.TSys

/-- `connect()` has returned inside `start()`. -/
def StartPc.pastConnect : StartPc → Bool
  | .creating => true
  | .leavingScope => true
  | .started => true
  | _ => false

theorem CallOrchestrator.pastConnect_of_starting {cfg : CallConfig} {c c' : CallOrchestrator}
    {w : Outcome} (h : c.starting cfg w = some c') (hto : c'.startPc ≠ .creating)
    (hpast : c'.startPc.pastConnect = true) : c.startPc.pastConnect = true := by
  cases hpc : c.startPc with
  | connecting =>
      cases w with
      | returns =>
          simp only [starting, hpc] at h
          exact absurd (congrArg startPc (Option.some.inj h)).symm hto
      | raises =>
          simp only [starting, hpc] at h
          rw [← congrArg startPc (Option.some.inj h)] at hpast
          cases hpast
  | failed =>
      simp only [starting, hpc] at h
      cases h
  | _ => rfl

namespace LiveCall

variable {cfg : CallConfig} {σ τ : LiveCall}

/-! ## A stream stays connected until `close()` -/

/-- `close()` has been called, by a `stop()` that has joined its tasks. -/
structure Closes (σ τ : LiveCall) : Prop where
  sent : τ.sent = σ.sent
  startPc : τ.call.startPc = σ.call.startPc
  closePc : τ.closePc ≠ .notCalled

theorem joinReader_closes (σ : LiveCall) : Closes σ σ.joinReader := by
  unfold joinReader
  split
  · exact ⟨rfl, rfl, nofun⟩
  · simp only
    split <;> exact ⟨rfl, rfl, nofun⟩

theorem afterJoin_cases (σ : LiveCall) : σ.afterJoin = σ ∨ Closes σ σ.afterJoin := by
  unfold LiveCall.afterJoin
  split
  · right
    unfold LiveCall.close
    simp only
    split
    · exact ⟨rfl, rfl, nofun⟩
    · obtain ⟨hsent, hstart, hclose⟩ := joinReader_closes { σ with closed := true }
      exact ⟨hsent, hstart, hclose⟩
  · exact .inl rfl

/-- From `connect()` to `close()` the stream is connected. -/
def Hears (σ : LiveCall) : Prop :=
  σ.call.startPc.pastConnect = true → σ.closePc = .notCalled → σ.connected = true

theorem Hears.congr (hσ : σ.Hears) (hstart : τ.call.startPc = σ.call.startPc)
    (hclose : τ.closePc = σ.closePc) (hconn : τ.connected = σ.connected) : τ.Hears := by
  unfold Hears
  rw [hstart, hclose, hconn]
  exact hσ

theorem Closes.hears (h : Closes σ τ) : τ.Hears := fun _ hclose => absurd hclose h.closePc

theorem Hears.same (hσ : σ.Hears) (h : SameStream σ τ) : τ.Hears :=
  hσ.congr h.startPc h.closePc h.connected

theorem Hears.afterJoin (hσ : σ.Hears) : σ.afterJoin.Hears := by
  rcases σ.afterJoin_cases with heq | hcloses
  · rw [heq]
    exact hσ
  · exact hcloses.hears

theorem hears_step {a : LiveAct} (hσ : σ.Hears) (h : Step cfg σ a τ) : τ.Hears := by
  have hcall : ∀ call : CallOrchestrator, call.startPc = σ.call.startPc →
      Hears { σ with call } := fun call hstart => hσ.congr hstart rfl rfl
  cases h with
  | connected hstep hto => exact fun _ _ => rfl
  | starting hstep hto =>
      intro hpast hclose
      exact hσ (CallOrchestrator.pastConnect_of_starting hstep hto hpast) hclose
  | tick hstep =>
      exact hcall _ (CallOrchestrator.pcs_of_task (CallOrchestrator.step_cases hstep)
        nofun nofun nofun).1
  | playback hstep =>
      exact hcall _ (CallOrchestrator.pcs_of_task (CallOrchestrator.step_cases hstep)
        nofun nofun nofun).1
  | consumer hnot hstep =>
      have hstart := (CallOrchestrator.pcs_of_task (CallOrchestrator.step_cases hstep)
        nofun nofun nofun).1
      exact (hcall _ hstart).same (afterConsumer_same _)
  | stop hstep =>
      have hstart := (CallOrchestrator.stopPc_of_stop (CallOrchestrator.step_cases hstep)
        (.inl rfl)).1
      exact (hcall _ hstart).afterJoin
  | stopping hpc hstep =>
      have hstart := (CallOrchestrator.stopPc_of_stop (CallOrchestrator.step_cases hstep)
        (.inr ⟨_, rfl⟩)).1
      exact (hcall _ hstart).afterJoin
  | reader htask hres =>
      cases hres with
      | thrown => exact hσ
      | unwound => exact hσ
      | @outcome pc w t e hgo => cases e <;> exact hσ
  | timedOut htask hgen => exact hσ.same σ.onTimeout_same
  | woken htask hgen => exact hσ.same (get_same _ σ)
  | closedSocket hw hpc => exact (joinReader_closes _).hears
  | closeCancelled hpc => exact nofun
  | sentClose hw hpc => exact nofun
  | joinedReader hw hpc hdone => exact nofun
  | sendPcm hconn => exact hσ
  | timeout htask hgen => exact hσ
  | closeSwallowed hpc => exact hσ

/-! ## The calls of a session -/

/-- The call has come where it is by a run of its own. -/
def Runs (cfg : CallConfig) (σ : LiveCall) : Prop :=
  ∃ tr, (liveSys cfg).Run { call := { llm := { registry := buildDefaultRegistry } } } tr σ

theorem Runs.step {a : LiveAct} (hσ : σ.Runs cfg) (h : σ.step cfg a = some τ) :
    τ.Runs cfg := by
  obtain ⟨tr, hrun⟩ := hσ
  exact ⟨_, hrun.snoc h⟩

theorem Runs.stop (hσ : σ.Runs cfg)
    (hstart : σ.call.startPc = .started ∨ σ.call.startPc = .failed) : σ.stop.Runs cfg := by
  apply hσ.step (a := .stop)
  show (ite _ _ _ : Option CallOrchestrator).map _ = _
  rw [if_pos hstart]
  rfl

theorem stop_sent (σ : LiveCall) : σ.stop.sent = σ.sent := by
  rcases afterJoin_cases { σ with call := σ.call.stop } with heq | hcloses
  · rw [LiveCall.stop, heq]
  · exact hcloses.sent

theorem Runs.inv (hσ : σ.Runs cfg) : σ.Inv := by
  obtain ⟨tr, hrun⟩ := hσ
  exact (inv_inductive cfg).run ⟨_, rfl⟩ hrun

theorem Runs.hears (hσ : σ.Runs cfg) : σ.Hears := by
  obtain ⟨tr, hrun⟩ := hσ
  have hpreserved : (liveSys cfg).Preserved Hears := fun _ _ _ hρ hs =>
    hears_step hρ (step_cases hs)
  exact hpreserved.run hrun nofun

/-- The stream of a call that has started and is not stopped is connected. -/
theorem Runs.connected (hσ : σ.Runs cfg) (hstart : σ.call.startPc = .started)
    (hstop : σ.call.stopPc = .notCalled) : σ.connected = true := by
  apply hσ.hears
  · rw [hstart]
    rfl
  · exact hσ.inv.agree.notCalled_iff.mpr (by rw [hstop]; rfl)

/-- A step that is none of the handler's hands nothing to the connection, and a call
that is started and not stopped stays so. -/
structure Steady (σ τ : LiveCall) : Prop where
  sent : τ.sent = σ.sent
  started : σ.call.startPc = .started → τ.call.startPc = .started
  notCalled : σ.call.stopPc = .notCalled → τ.call.stopPc = .notCalled

theorem Steady.same {ρ : LiveCall} (h : Steady σ τ) (h' : SameStream τ ρ) : Steady σ ρ where
  sent := h'.sent.trans h.sent
  started hstart := h'.startPc.trans (h.started hstart)
  notCalled hstop := h'.stopPc.trans (h.notCalled hstop)

/-- A step of the call that takes the call of `stop()` nowhere. -/
theorem steady_of_step {a : CallAct} {call : CallOrchestrator}
    (hstep : σ.call.step cfg a = some call)
    (hstop : σ.call.stopPc = .notCalled → call.stopPc = .notCalled) :
    Steady σ { σ with call } where
  sent := rfl
  started hstart := by
    have heq := CallOrchestrator.startPc_step (.inl hstart) (CallOrchestrator.step_cases hstep)
    exact heq.trans hstart
  notCalled := hstop

theorem steady_of_task {a : CallAct} {call : CallOrchestrator}
    (hstep : σ.call.step cfg a = some call) (hstart : ∀ w, a ≠ .starting w)
    (hstop : a ≠ .stop) (hstopping : ∀ w, a ≠ .stopping w) : Steady σ { σ with call } := by
  apply steady_of_step hstep
  have hpcs := CallOrchestrator.pcs_of_task (CallOrchestrator.step_cases hstep) hstart hstop
    hstopping
  exact hpcs.2.trans

theorem steady_step {a : LiveAct} (hσ : σ.Inv) (hstop : a ≠ .stop)
    (hsend : ∀ pcm16, a ≠ .sendPcm pcm16) (h : Step cfg σ a τ) : Steady σ τ := by
  have hsame : ∀ ρ : LiveCall, SameStream σ ρ → Steady σ ρ := fun ρ hρ =>
    ⟨hρ.sent, hρ.startPc.trans, hρ.stopPc.trans⟩
  -- while `close()` is pending, `stop()` has been called
  have hpending : σ.closePc.pending = true →
      σ.call.stopPc = .notCalled → τ.call.stopPc = .notCalled := fun hpc hnot => by
    rw [hσ.stopPc_of_pending hpc] at hnot
    cases hnot
  cases h with
  | tick hstep => exact steady_of_task hstep nofun nofun nofun
  | playback hstep => exact steady_of_task hstep nofun nofun nofun
  | consumer hnot hstep =>
      exact (steady_of_task hstep nofun nofun nofun).same (afterConsumer_same _)
  | connected hstep hto =>
      obtain ⟨-, hstarted, hnot⟩ := steady_of_step (σ := σ) hstep
        (CallOrchestrator.starting_pcs hstep).2.trans
      exact ⟨rfl, hstarted, hnot⟩
  | starting hstep hto =>
      exact steady_of_step hstep (CallOrchestrator.starting_pcs hstep).2.trans
  | sendPcm => exact absurd rfl (hsend _)
  | stop => exact absurd rfl hstop
  | @stopping w call hpc hstep =>
      -- `stop()` goes on only after it has been called
      have hcalled : σ.call.stopPc ≠ .notCalled := fun hnot => by
        simp [CallOrchestrator.step, CallOrchestrator.stopping, hnot] at hstep
      have hsteady : Steady σ { σ with call } :=
        steady_of_step hstep fun hnot => absurd hnot hcalled
      rcases afterJoin_cases { σ with call } with heq | ⟨hsent, hstart, -⟩
      · rw [heq]
        exact hsteady
      · exact ⟨hsent, fun h => hstart.trans (hsteady.started h), fun h => absurd h hcalled⟩
  | reader htask hres =>
      cases hres with
      | thrown => exact ⟨rfl, id, id⟩
      | unwound => exact ⟨rfl, id, id⟩
      | @outcome pc w t e hgo => cases e <;> exact ⟨rfl, id, id⟩
  | timeout htask hgen => exact ⟨rfl, id, id⟩
  | timedOut htask hgen => exact hsame _ σ.onTimeout_same
  | woken htask hgen => exact hsame _ (get_same _ σ)
  | closeCancelled hpc =>
      exact ⟨rfl, id, hpending (by rcases hpc with h | h <;> rw [h] <;> rfl)⟩
  | closeSwallowed hpc => exact ⟨rfl, id, id⟩
  | sentClose hw hpc => exact ⟨rfl, id, id⟩
  | closedSocket hw hpc =>
      obtain ⟨hsent, hstart, -⟩ := joinReader_closes { σ with connected := false }
      exact ⟨hsent, hstart.trans, hpending (by rw [hpc]; rfl)⟩
  | joinedReader hw hpc hdone => exact ⟨rfl, id, hpending (by rw [hpc]; rfl)⟩

end LiveCall

/-- The handler is in its loop. -/
def HandlerPc.inLoop : HandlerPc → Bool
  | .receiving => true
  | .starting => true
  | .sendingAudio => true
  | _ => false

namespace LiveSession

variable {audioop : Audioop} {transport : Transport} {cfg : Nat → CallConfig}
  {σ τ : LiveSession}

/-- The handler's variable refers to the latest call, which the handler has not stopped
while it is in its loop. -/
structure HandlerInv (cfg : Nat → CallConfig) (σ : LiveSession) : Prop where
  runs : ∀ (k : Nat) (live : LiveCall), σ.calls[k]? = some live → live.Runs (cfg k)
  latest : ∀ k, σ.orchestrator = some k → k + 1 = σ.calls.length
  notStopped : ∀ (k : Nat) (live : LiveCall), σ.orchestrator = some k → σ.calls[k]? = some live →
    σ.pc.inLoop = true → live.call.stopPc = .notCalled
  started : ∀ (k : Nat) (live : LiveCall), σ.orchestrator = some k → σ.calls[k]? = some live →
    σ.pc = .receiving ∨ σ.pc = .sendingAudio → live.call.startPc = .started

/-- The steps of a session, by what they do to the calls. -/
inductive Step (audioop : Audioop) (transport : Transport) (cfg : Nat → CallConfig)
    (σ : LiveSession) : LiveSessionAct → LiveSession → Prop
  /-- the handler goes on to another await of its loop, or ends -/
  | moves {a : LiveSessionAct} {pc : HandlerPc} (hno : σ.heard? transport a = none)
      (hpc : pc ≠ .starting) (hend : pc.inLoop = true → σ.pc.inLoop = true)
      (hstarted : ∀ live, σ.current? = some live → σ.pc = .starting →
        live.call.startPc = .started) :
      Step audioop transport cfg σ a { σ with pc }
  | constructs {frame : Received} (hpc : σ.pc = .receiving)
      (hno : σ.heard? transport (.receive frame) = none) :
      Step audioop transport cfg σ (.receive frame) σ.construct
  | hears {frame : Received} {k : Nat} {payload : String} {pcm16 : Bytes} {live : LiveCall}
      (hpc : σ.pc = .receiving) (hheard : σ.heard? transport (.receive frame) = some (k, payload))
      (hk : σ.orchestrator = some k) (hlive : σ.calls[k]? = some live)
      (hpcm : audioop.onAudioFrame transport payload = some pcm16)
      (hconn : live.connected = true) :
      Step audioop transport cfg σ (.receive frame)
        { σ with
          pc := .sendingAudio
          calls := σ.calls.set k { live with sent := live.sent ++ [pcm16] } }
  /-- the handler leaves its loop -/
  | leaves {a : LiveSessionAct}
      (hheard : ∀ k payload, σ.heard? transport a = some (k, payload) →
        σ.orchestrator = some k ∧ audioop.onAudioFrame transport payload = none)
      (hpc : σ.pc.inLoop = true)
      (hstarted : ∀ live, σ.current? = some live → live.call.startPc = .started ∨
        live.call.startPc = .failed) :
      Step audioop transport cfg σ a σ.finallyBlock
  | call {k : Nat} {a : LiveAct} {live live' : LiveCall} (hstop : a ≠ .stop)
      (hsend : ∀ pcm16, a ≠ .sendPcm pcm16) (hlive : σ.calls[k]? = some live)
      (hstep : live.step (cfg k) a = some live') :
      Step audioop transport cfg σ (.call k a) { σ with calls := σ.calls.set k live' }

theorem current?_cases {live : LiveCall} (h : σ.current? = some live) :
    ∃ k, σ.orchestrator = some k ∧ σ.calls[k]? = some live := Option.bind_eq_some_iff.mp h

theorem HandlerInv.current_started (hσ : HandlerInv cfg σ)
    (hpc : σ.pc = .receiving ∨ σ.pc = .sendingAudio) {live : LiveCall}
    (h : σ.current? = some live) :
    live.call.startPc = .started ∨ live.call.startPc = .failed := by
  obtain ⟨k, hk, hlive⟩ := current?_cases h
  exact .inl (hσ.started k live hk hlive hpc)

/-- The handler hands audio on to a call whose stream is connected. -/
theorem onAudioFrame_step (hσ : HandlerInv cfg σ) (hpc : σ.pc = .receiving)
    {frame : Received} {k : Nat} {payload : String} (hk : σ.orchestrator = some k)
    (hheard : σ.heard? transport (.receive frame) = some (k, payload)) :
    Step audioop transport cfg σ (.receive frame)
      (σ.onAudioFrame audioop transport k payload) := by
  have hlt : k < σ.calls.length := by
    have := hσ.latest k hk
    omega
  obtain ⟨live, hlive⟩ : ∃ live, σ.calls[k]? = some live := ⟨_, List.getElem?_eq_getElem hlt⟩
  have hconn : live.connected = true := by
    apply (hσ.runs k live hlive).connected
    · exact hσ.started k live hk hlive (.inl hpc)
    · exact hσ.notStopped k live hk hlive (by rw [hpc]; rfl)
  have hsend (pcm16 : Bytes) :
      live.sendPcm pcm16 = .ok { live with sent := live.sent ++ [pcm16] } := if_pos hconn
  unfold onAudioFrame
  cases hpcm : audioop.onAudioFrame transport payload with
  | none =>
      simp only
      refine .leaves (fun j p hj => ?_) (by rw [hpc]; rfl)
        fun live h => hσ.current_started (.inl hpc) h
      rw [hheard] at hj
      cases hj
      exact ⟨hk, hpcm⟩
  | some pcm16 =>
      simp only [hlive, hsend]
      exact .hears hpc hheard hk hlive hpcm hconn

theorem receive_step (hσ : HandlerInv cfg σ) (hpc : σ.pc = .receiving) (frame : Received) :
    Step audioop transport cfg σ (.receive frame) (σ.receive audioop transport frame) := by
  have hloop : σ.pc.inLoop = true := by rw [hpc]; rfl
  have hstays : σ.heard? transport (.receive frame) = none →
      Step audioop transport cfg σ (.receive frame) σ := fun hno => by
    have hmoves : Step audioop transport cfg σ (.receive frame) { σ with pc := σ.pc } := by
      refine .moves hno (by rw [hpc]; nofun) id fun live _ hstarting => ?_
      rw [hpc] at hstarting
      cases hstarting
    exact hmoves
  have hleaves : σ.heard? transport (.receive frame) = none →
      Step audioop transport cfg σ (.receive frame) σ.finallyBlock := fun hno =>
    .leaves (fun k payload h => by rw [hno] at h; cases h) hloop
      fun live h => hσ.current_started (.inl hpc) h
  cases frame with
  | badJson => exact hstays rfl
  | raises => exact hleaves rfl
  | json msg =>
      cases hbody : transport.body σ.orchestrator.isSome msg with
      | error e =>
          have hno : σ.heard? transport (.receive (.json msg)) = none := by
            simp only [heard?, hbody]
          simp only [receive, hbody]
          exact hleaves hno
      | ok framed =>
          simp only [receive, hbody]
          cases framed with
          | next => exact hstays (by simp only [heard?, hbody])
          | start frame => exact .constructs hpc (by simp only [heard?, hbody])
          | leave => exact hleaves (by simp only [heard?, hbody])
          | audio payload =>
              simp only
              cases hk : σ.orchestrator with
              | none =>
                  rw [hk] at hbody
                  exact hstays (by simp only [heard?, hk, hbody])
              | some k =>
                  rw [hk] at hbody
                  exact onAudioFrame_step hσ hpc hk (by simp only [heard?, hk, hbody])

theorem step_cases (hσ : HandlerInv cfg σ) {a : LiveSessionAct}
    (h : σ.step audioop transport cfg a = some τ) : Step audioop transport cfg σ a τ := by
  cases a with
  | receive frame =>
      simp only [step, Option.ite_none_right_eq_some] at h
      obtain ⟨hpc, h⟩ := h
      obtain rfl := Option.some.inj h
      exact receive_step hσ hpc frame
  | startDone =>
      simp only [step, Option.ite_none_right_eq_some, Option.bind_eq_some_iff] at h
      obtain ⟨hpc, live, hlive, h⟩ := h
      split at h
      · rename_i hstart
        obtain rfl := Option.some.inj h
        refine .moves rfl nofun (fun _ => by rw [hpc]; rfl) fun live' h' _ => ?_
        obtain rfl := Option.some.inj (hlive.symm.trans h')
        exact hstart
      · rename_i hstart
        obtain rfl := Option.some.inj h
        refine .leaves nofun (by rw [hpc]; rfl) fun live' h' => ?_
        obtain rfl := Option.some.inj (hlive.symm.trans h')
        exact .inr hstart
      · cases h
  | audioDone w =>
      simp only [step, Option.ite_none_right_eq_some] at h
      obtain ⟨hpc, h⟩ := h
      cases w with
      | returns =>
          obtain rfl := Option.some.inj h
          refine .moves rfl nofun (fun _ => by rw [hpc]; rfl) fun live _ hstarting => ?_
          rw [hpc] at hstarting
          cases hstarting
      | raises =>
          obtain rfl := Option.some.inj h
          exact .leaves nofun (by rw [hpc]; rfl) fun live h => hσ.current_started (.inr hpc) h
  | stopDone =>
      simp only [step, Option.ite_none_right_eq_some, Option.bind_eq_some_iff] at h
      obtain ⟨hpc, live, hlive, h⟩ := h
      have hended : τ = { σ with pc := .ended } := by
        split at h
        · exact (Option.some.inj h).symm
        · exact (Option.some.inj h).symm
        · cases h
      rw [hended]
      refine .moves rfl nofun nofun fun live _ hstarting => ?_
      rw [hpc] at hstarting
      cases hstarting
  | call k a =>
      simp only [step, callStep] at h
      split at h
      · cases h
      · cases h
      · rename_i hstop hsend
        obtain ⟨live', hbind, rfl⟩ := Option.map_eq_some_iff.mp h
        obtain ⟨live, hlive, hstep⟩ := Option.bind_eq_some_iff.mp hbind
        exact .call hstop hsend hlive hstep

/-! ## The invariant of the handler -/

theorem finallyBlock_of_none (h : σ.orchestrator = none) :
    σ.finallyBlock = { σ with pc := .ended } := by
  simp only [finallyBlock, h]

theorem finallyBlock_of_some {k : Nat} (h : σ.orchestrator = some k) :
    σ.finallyBlock = { σ with pc := .stopping, calls := σ.calls.modify k LiveCall.stop } := by
  simp only [finallyBlock, h]

theorem handlerInv_finallyBlock (hσ : HandlerInv cfg σ)
    (hstarted : ∀ live, σ.current? = some live → live.call.startPc = .started ∨
      live.call.startPc = .failed) : HandlerInv cfg σ.finallyBlock := by
  cases hk : σ.orchestrator with
  | none =>
      rw [finallyBlock_of_none hk]
      exact ⟨hσ.runs, hσ.latest, fun _ _ _ _ => nofun, fun _ _ _ _ => by simp⟩
  | some k =>
      rw [finallyBlock_of_some hk]
      refine ⟨fun j live hlive => ?_, fun j hj => ?_, fun _ _ _ _ => nofun, fun _ _ _ _ => by simp⟩
      · obtain ⟨old, hold, rfl⟩ := getElem?_modify_cases hlive
        split
        · rename_i heq
          subst heq
          have hcurrent : σ.current? = some old := Option.bind_eq_some_iff.mpr ⟨k, hk, hold⟩
          exact (hσ.runs k old hold).stop (hstarted old hcurrent)
        · exact hσ.runs j old hold
      · rw [List.length_modify]
        exact hσ.latest j hj

/-- A call of the session takes a step that leaves its `start()` and `stop()` there. -/
theorem handlerInv_set (hσ : HandlerInv cfg σ) {k : Nat} {live live' : LiveCall}
    (hlive : σ.calls[k]? = some live) (hruns : live'.Runs (cfg k))
    (hstarted : live.call.startPc = .started → live'.call.startPc = .started)
    (hnot : live.call.stopPc = .notCalled → live'.call.stopPc = .notCalled)
    {pc : HandlerPc} (hpc : pc = σ.pc ∨ σ.pc = .receiving) :
    HandlerInv cfg { σ with pc, calls := σ.calls.set k live' } where
  runs j x hx := by
    rcases getElem?_set_cases hx with ⟨rfl, rfl⟩ | ⟨-, hx⟩
    · exact hruns
    · exact hσ.runs j x hx
  latest j hj := by
    rw [List.length_set]
    exact hσ.latest j hj
  notStopped j x hj hx hloop := by
    have hloop' : σ.pc.inLoop = true := by
      rcases hpc with rfl | h
      · exact hloop
      · rw [h]; rfl
    rcases getElem?_set_cases hx with ⟨rfl, rfl⟩ | ⟨-, hx⟩
    · exact hnot (hσ.notStopped k live hj hlive hloop')
    · exact hσ.notStopped j x hj hx hloop'
  started j x hj hx h := by
    have h' : σ.pc = .receiving ∨ σ.pc = .sendingAudio := by
      rcases hpc with rfl | hpc
      · exact h
      · exact .inl hpc
    rcases getElem?_set_cases hx with ⟨rfl, rfl⟩ | ⟨-, hx⟩
    · exact hstarted (hσ.started k live hj hlive h')
    · exact hσ.started j x hj hx h'

theorem handlerInv_step (hσ : HandlerInv cfg σ) {a : LiveSessionAct}
    (h : Step audioop transport cfg σ a τ) : HandlerInv cfg τ := by
  cases h with
  | @moves _ pc hno hnot hend hstarted =>
      refine ⟨hσ.runs, hσ.latest, fun k live hk hlive hloop => ?_, fun k live hk hlive h => ?_⟩
      · exact hσ.notStopped k live hk hlive (hend hloop)
      · have hloop : pc.inLoop = true := by rcases h with rfl | rfl <;> rfl
        have hfrom := hend hloop
        cases hpc : σ.pc with
        | receiving => exact hσ.started k live hk hlive (.inl hpc)
        | sendingAudio => exact hσ.started k live hk hlive (.inr hpc)
        | starting => exact hstarted live (Option.bind_eq_some_iff.mpr ⟨k, hk, hlive⟩) hpc
        | _ =>
            rw [hpc] at hfrom
            cases hfrom
  | constructs hpc hno =>
      refine ⟨fun k live hlive => ?_, fun k hk => ?_, fun k live hk hlive _ => ?_,
        fun _ _ _ _ h => by rcases h with h | h <;> cases h⟩
      · rcases getElem?_snoc_cases hlive with hlive | ⟨-, rfl⟩
        · exact hσ.runs k live hlive
        · exact ⟨[], .nil⟩
      · obtain rfl := Option.some.inj hk
        simp [construct]
      · obtain rfl := Option.some.inj hk
        rcases getElem?_snoc_cases hlive with hlive | ⟨-, rfl⟩
        · exact absurd (List.getElem?_eq_some_iff.mp hlive).1 (Nat.lt_irrefl _)
        · rfl
  | @hears frame k payload pcm16 live hpc hheard hk hlive hpcm hconn =>
      have hsend : live.step (cfg k) (.sendPcm pcm16) =
          some { live with sent := live.sent ++ [pcm16] } :=
        congrArg Except.toOption (if_pos hconn)
      have hruns := (hσ.runs k live hlive).step hsend
      exact handlerInv_set hσ hlive hruns id id (.inr hpc)
  | leaves hheard hpc hstarted => exact handlerInv_finallyBlock hσ hstarted
  | call hstop hsend hlive hstep =>
      have hruns := hσ.runs _ _ hlive
      have hsteady := LiveCall.steady_step hruns.inv hstop hsend (LiveCall.step_cases hstep)
      exact handlerInv_set hσ hlive (hruns.step hstep) hsteady.started hsteady.notCalled
        (.inl rfl)

theorem handlerInv_init : HandlerInv cfg {} where
  runs k live h := by simp at h
  latest k h := by cases h
  notStopped k live h := by cases h
  started k live h := by cases h

/-! ## What the connections are sent -/

/-- The payloads handed to `on_audio_frame`, each with its call, oldest first. -/
def heardOf (transport : Transport) (tr : List (LiveSession × LiveSessionAct)) :
    List (Nat × String) :=
  tr.filterMap fun p => p.1.heard? transport p.2

/-- Every payload decodes but for the last, which then has ended the session. -/
structure Decoded (audioop : Audioop) (transport : Transport) (heard : List (Nat × String))
    (σ : LiveSession) : Prop where
  before : ∀ p ∈ heard.dropLast, (audioop.onAudioFrame transport p.2).isSome = true
  inLoop : σ.pc.inLoop = true → ∀ p ∈ heard, (audioop.onAudioFrame transport p.2).isSome = true

/-- What was handed on, and what the connections were sent. -/
structure Carried (audioop : Audioop) (transport : Transport) (heard : List (Nat × String))
    (σ : LiveSession) : Prop where
  sent : ∀ (k : Nat) (live : LiveCall), σ.calls[k]? = some live →
    live.sent = (withKey k heard).filterMap (audioop.onAudioFrame transport)
  sorted : heard.Pairwise fun p q => p.1 ≤ q.1
  below : ∀ p ∈ heard, p.1 < σ.calls.length
  decoded : Decoded audioop transport heard σ

variable {heard : List (Nat × String)}

theorem Decoded.congr (hσ : Decoded audioop transport heard σ)
    (hloop : τ.pc.inLoop = true → σ.pc.inLoop = true) : Decoded audioop transport heard τ where
  before := hσ.before
  inLoop h := hσ.inLoop (hloop h)

theorem Decoded.snoc (hσ : Decoded audioop transport heard σ) (hloop : σ.pc.inLoop = true)
    {p : Nat × String} (hp : τ.pc.inLoop = true →
      (audioop.onAudioFrame transport p.2).isSome = true) :
    Decoded audioop transport (heard ++ [p]) τ where
  before := by
    rw [List.dropLast_concat]
    exact hσ.inLoop hloop
  inLoop h := by
    rw [List.forall_mem_append, List.forall_mem_singleton]
    exact ⟨hσ.inLoop hloop, hp h⟩

/-- A payload that arrives goes to the latest call. -/
theorem Carried.sorted_snoc (hσ : Carried audioop transport heard σ) {k : Nat}
    (hk : k + 1 = σ.calls.length) (payload : String) :
    (heard ++ [(k, payload)]).Pairwise fun p q => p.1 ≤ q.1 := by
  rw [List.pairwise_append]
  refine ⟨hσ.sorted, List.pairwise_singleton _ _, fun p hp q hq => ?_⟩
  obtain rfl := List.mem_singleton.mp hq
  have hlt := hσ.below p hp
  show p.1 ≤ k
  omega

theorem finallyBlock_calls (σ : LiveSession) :
    σ.finallyBlock.pc.inLoop = false ∧ σ.finallyBlock.calls.length = σ.calls.length ∧
      ∀ (k : Nat) (live : LiveCall), σ.finallyBlock.calls[k]? = some live →
        ∃ old, σ.calls[k]? = some old ∧ live.sent = old.sent := by
  cases hk : σ.orchestrator with
  | none =>
      rw [finallyBlock_of_none hk]
      exact ⟨rfl, rfl, fun k live h => ⟨live, h, rfl⟩⟩
  | some k =>
      rw [finallyBlock_of_some hk]
      refine ⟨rfl, List.length_modify .., fun j live h => ?_⟩
      obtain ⟨old, hold, rfl⟩ := getElem?_modify_cases h
      refine ⟨old, hold, ?_⟩
      split
      · exact old.stop_sent
      · rfl

/-- A payload handed on that does not decode adds nothing. -/
theorem filterMap_withKey_snoc {k j : Nat} {payload : String} :
    (withKey j (heard ++ [(k, payload)])).filterMap (audioop.onAudioFrame transport) =
      (withKey j heard).filterMap (audioop.onAudioFrame transport) ++
        if k = j then (audioop.onAudioFrame transport payload).toList else [] := by
  rw [withKey_append, List.filterMap_append, withKey_singleton]
  by_cases hkj : k = j
  · rw [if_pos hkj, if_pos hkj]
    cases h : audioop.onAudioFrame transport payload <;> simp [h]
  · rw [if_neg hkj, if_neg hkj]
    rfl

theorem carried_step (hinv : HandlerInv cfg σ) (hσ : Carried audioop transport heard σ)
    {a : LiveSessionAct} (h : Step audioop transport cfg σ a τ) :
    Carried audioop transport (heard ++ (σ.heard? transport a).toList) τ := by
  cases h with
  | moves hno hpc hend hstarted =>
      rw [hno, Option.toList_none, List.append_nil]
      exact ⟨hσ.sent, hσ.sorted, hσ.below, hσ.decoded.congr hend⟩
  | @constructs frame hpc hno =>
      rw [hno, Option.toList_none, List.append_nil]
      have hlen : σ.construct.calls.length = σ.calls.length + 1 := List.length_append
      refine ⟨fun k live hlive => ?_, hσ.sorted, fun p hp => ?_, hσ.decoded.congr fun _ => ?_⟩
      · rcases getElem?_snoc_cases hlive with hlive | ⟨rfl, rfl⟩
        · exact hσ.sent k live hlive
        · -- nothing has been handed to the new call
          rw [withKey_eq_nil fun p hp => Nat.ne_of_lt (hσ.below p hp)]
          rfl
      · have hlt := hσ.below p hp
        omega
      · rw [hpc]
        rfl
  | @hears frame k payload pcm16 live hpc hheard hk hlive hpcm hconn =>
      have hlatest := hinv.latest k hk
      rw [hheard, Option.toList_some]
      refine ⟨fun j x hx => ?_, hσ.sorted_snoc hlatest payload, fun p hp => ?_, ?_⟩
      · rw [filterMap_withKey_snoc]
        rcases getElem?_set_cases hx with ⟨rfl, rfl⟩ | ⟨hne, hx⟩
        · rw [if_pos rfl, hpcm, Option.toList_some, ← hσ.sent k live hlive]
        · rw [if_neg hne, List.append_nil]
          exact hσ.sent j x hx
      · rw [List.length_set]
        rcases List.mem_append.mp hp with hp | hp
        · exact hσ.below p hp
        · obtain rfl := List.mem_singleton.mp hp
          show k < σ.calls.length
          omega
      · exact hσ.decoded.snoc (by rw [hpc]; rfl) fun _ => by rw [hpcm]; rfl
  | leaves hheard hpc hstarted =>
      obtain ⟨hout, hlen, hsent⟩ := σ.finallyBlock_calls
      have hfrom : ∀ (k : Nat) (live : LiveCall), σ.finallyBlock.calls[k]? = some live →
          live.sent = (withKey k heard).filterMap (audioop.onAudioFrame transport) := by
        intro k live hlive
        obtain ⟨old, hold, heq⟩ := hsent k live hlive
        rw [heq]
        exact hσ.sent k old hold
      cases hframe : σ.heard? transport a with
      | none =>
          rw [Option.toList_none, List.append_nil]
          refine ⟨hfrom, hσ.sorted, ?_, hσ.decoded.congr fun _ => hpc⟩
          rw [hlen]
          exact hσ.below
      | some p =>
          -- the payload that does not decode
          obtain ⟨hk, hpcm⟩ := hheard p.1 p.2 hframe
          have hlatest := hinv.latest p.1 hk
          rw [Option.toList_some]
          refine ⟨fun j x hx => ?_, hσ.sorted_snoc hlatest p.2, fun q hq => ?_, ?_⟩
          · rw [filterMap_withKey_snoc, hpcm, Option.toList_none, ite_self, List.append_nil]
            exact hfrom j x hx
          · rw [hlen]
            rcases List.mem_append.mp hq with hq | hq
            · exact hσ.below q hq
            · obtain rfl := List.mem_singleton.mp hq
              omega
          · refine hσ.decoded.snoc hpc fun h => ?_
            rw [hout] at h
            cases h
  | @call k a live live' hstop hsend hlive hstep =>
      rw [show σ.heard? transport (.call k a) = none from rfl, Option.toList_none,
        List.append_nil]
      have hsteady := LiveCall.steady_step (hinv.runs k live hlive).inv hstop hsend
        (LiveCall.step_cases hstep)
      refine ⟨fun j x hx => ?_, hσ.sorted, ?_, hσ.decoded.congr id⟩
      · rcases getElem?_set_cases hx with ⟨rfl, rfl⟩ | ⟨-, hx⟩
        · rw [hsteady.sent]
          exact hσ.sent k live hlive
        · exact hσ.sent j x hx
      · rw [List.length_set]
        exact hσ.below

theorem carried_run {tr : List (LiveSession × LiveSessionAct)}
    (h : (liveSessionSys audioop transport cfg).Run {} tr σ) :
    HandlerInv cfg σ ∧ Carried audioop transport (heardOf transport tr) σ := by
  induction h with
  | nil =>
      exact ⟨handlerInv_init, fun k live h => by simp at h, .nil, List.forall_mem_nil _,
        ⟨List.forall_mem_nil _, fun _ => List.forall_mem_nil _⟩⟩
  | @snoc tr ρ τ a hrun hs ih =>
      have hstep : ρ.step audioop transport cfg a = some τ := hs
      have hcases := step_cases ih.1 hstep
      refine ⟨handlerInv_step ih.1 hcases, ?_⟩
      have hheard : heardOf transport (tr ++ [(ρ, a)]) =
          heardOf transport tr ++ (ρ.heard? transport a).toList := by
        rw [heardOf, List.filterMap_append]
        cases hp : ρ.heard? transport a <;> simp [heardOf, hp]
      rw [hheard]
      exact carried_step ih.1 ih.2 hcases

end LiveSession

/-- **The audio path.** What the connection of each call is sent are the frames that
`on_audio_frame` took for that call, decoded, in order, with none lost; the calls of a
session get theirs one after the other; and the session ends with the first payload that
does not decode. -/
theorem inbound_path (audioop : Audioop) (transport : Transport) (cfg : Nat → CallConfig)
    {σ : LiveSession} {tr : List (LiveSession × LiveSessionAct)}
    (h : (liveSessionSys audioop transport cfg).Run {} tr σ) :
    (∀ (k : Nat) (live : LiveCall), σ.calls[k]? = some live → live.sent =
      (withKey k (LiveSession.heardOf transport tr)).filterMap
        (audioop.onAudioFrame transport)) ∧
      ((LiveSession.heardOf transport tr).Pairwise fun p q => p.1 ≤ q.1) ∧
      (∀ p ∈ (LiveSession.heardOf transport tr).dropLast,
        (audioop.onAudioFrame transport p.2).isSome = true) ∧
      (σ.pc.inLoop = true → ∀ p ∈ LiveSession.heardOf transport tr,
        (audioop.onAudioFrame transport p.2).isSome = true) := by
  obtain ⟨-, hsent, hsorted, -, hbefore, hloop⟩ := LiveSession.carried_run h
  exact ⟨hsent, hsorted, hbefore, hloop⟩

/-- A browser that starts twice: its first frame goes to the first call, the next one to
the second, and a third that is no base64 ends the session. -/
theorem inbound_path_second_start :
    ∃ tr σ, (liveSessionSys .g711 .webrtc fun _ => ⟨.webrtc, fun _ _ => []⟩).Run {} tr σ ∧
      LiveSession.heardOf .webrtc tr = [(0, "AAE="), (1, "AgM="), (1, "!")] ∧
      ∀ (k : Nat) (live : LiveCall), σ.calls[k]? = some live → live.sent =
        (withKey k (LiveSession.heardOf .webrtc tr)).filterMap
          (Audioop.g711.onAudioFrame .webrtc) := by
  let frame (kind payload : String) : LiveSessionAct :=
    .receive (.json (.dict [("type", .str kind), ("payload", .str payload)]))
  let started (k : Nat) : List LiveSessionAct :=
    [.call k (.starting .returns), .call k (.starting .returns), .call k (.starting .returns),
     .startDone]
  let acts : List LiveSessionAct :=
    [frame "start" ""] ++ started 0 ++ [frame "audio" "AAE=", .audioDone .returns] ++
      [frame "start" ""] ++ started 1 ++ [frame "audio" "AgM=", .audioDone .returns] ++
      [frame "audio" "!"]
  have hrun : (liveSessionSys .g711 .webrtc fun _ => ⟨.webrtc, fun _ _ => []⟩).Run {}
      (TSys.trace _ {} acts) _ := TSys.Run.exec acts (by decide +kernel)
  exact ⟨_, _, hrun, by decide +kernel, (inbound_path _ _ _ hrun).1⟩

end VoiceAgent
