import VoiceAgent.Lib.Simulation
import VoiceAgent.Logic.Turns
import VoiceAgent.Model.LiveCall

/-!
# The steps of a call over its Deepgram stream

`LiveCall.Step` lists the steps, `LiveCall.Inv` says how the stream and the call
of `stop()` belong together: the reader runs only between `connect()` and
`close()`, and `stop()` is in `closingStt` exactly while `close()` is pending.
-/

namespace VoiceAgent

open Lib Lib.TSys

/-- `close()` has been called and has not come to an end. -/
def ClosePc.pending : ClosePc → Bool
  | .sendingClose => true
  | .closingSocket => true
  | .joiningReader => true
  | _ => false

/-- A step of the reader that ends it runs its `finally` block, or finds no
connection. -/
theorem Reader.go_settled {connected : Bool} {pc : ReaderPc} {w : ReaderOutcome}
    {t : AsyncTask ReaderPc} {e : ReaderEffect} (h : Reader.go connected pc w = some (t, e))
    (ht : t.settled = true) : e = .finish ∨ connected = false := by
  unfold Reader.go at h
  split at h
  · obtain ⟨rfl, rfl⟩ := Prod.mk.inj (Option.some.inj h)
    cases connected with
    | false => exact .inr rfl
    | true => cases ht
  · split at h <;> obtain ⟨rfl, rfl⟩ := Prod.mk.inj (Option.some.inj h)
    · exact .inl rfl
    · cases ht
    · cases ht
  · obtain ⟨rfl, rfl⟩ := Prod.mk.inj (Option.some.inj h)
    exact .inl rfl
  · cases h

namespace CallOrchestrator

variable {cfg : CallConfig} {c c' : CallOrchestrator}

/-- A task of the call leaves the calls of `start()` and `stop()` where they are. -/
theorem pcs_of_task {a : CallAct} (h : Step cfg c a c') (hstart : ∀ w, a ≠ .starting w)
    (hstop : a ≠ .stop) (hstopping : ∀ w, a ≠ .stopping w) :
    c'.startPc = c.startPc ∧ c'.stopPc = c.stopPc := by
  cases h with
  | starting => exact absurd rfl (hstart _)
  | started => exact absurd rfl (hstart _)
  | stop => exact absurd rfl hstop
  | stopAgain => exact absurd rfl hstop
  | joined => exact absurd rfl (hstopping _)
  | swallowed => exact absurd rfl (hstopping _)
  | ending => exact absurd rfl (hstopping _)
  | stopping => exact absurd rfl (hstopping _)
  | consumer => exact ⟨c.afterConsumer_startPc _ _, c.afterConsumer_stopPc _ _⟩
  | _ => exact ⟨rfl, rfl⟩

theorem starting_pcs {w : Outcome} (h : c.starting cfg w = some c') :
    c'.startPc ≠ .connecting ∧ c'.stopPc = c.stopPc := by
  unfold starting at h
  split at h
  all_goals first
    | (simp only [reduceCtorEq] at h)
    | (obtain rfl := Option.some.inj h
       exact ⟨nofun, rfl⟩)

/-- The step in which `connect()` returns. -/
theorem starting_creating {w : Outcome} (h : c.starting cfg w = some c')
    (hto : c'.startPc = .creating) : c.startPc = .connecting ∧ c'.stopPc = c.stopPc := by
  unfold starting at h
  split at h
  · rename_i hpc
    obtain rfl := Option.some.inj h
    exact ⟨hpc, rfl⟩
  all_goals first
    | (simp only [reduceCtorEq] at h)
    | (obtain rfl := Option.some.inj h
       cases hto)

/-- The steps of `stop()` outside its `close()`. -/
theorem stopPc_of_stop {a : CallAct} (h : Step cfg c a c')
    (ha : a = .stop ∨ ∃ w, a = .stopping w) :
    c'.startPc = c.startPc ∧
      (c.stopPc.joined = false ∧ (c'.stopPc.joined = false ∨ c'.stopPc = .closingStt) ∨
        c'.stopPc = c.stopPc ∨
        a ≠ .stop ∧ c.stopPc.joined = true ∧ c.stopPc ≠ .raised ∧
          c'.stopPc.joined = true ∧ c'.stopPc ≠ .closingStt) := by
  cases h with
  | stop hstart hnot =>
      refine ⟨?_, .inl ⟨by rw [hnot]; rfl, ?_⟩⟩
      · obtain ⟨pc, h⟩ := c.cancelAll.join_eq c.tasks
        rw [h]
        rfl
      · rcases c.cancelAll.join_cases c.tasks with ⟨h, -⟩ | ⟨t, rest, h, -⟩ <;> rw [h]
        · exact .inr rfl
        · exact .inl rfl
  | @joined t tasks hjoin hdone =>
      refine ⟨?_, .inl ⟨by rw [hjoin]; rfl, ?_⟩⟩
      · obtain ⟨pc, h⟩ := c.join_eq tasks
        rw [h]
      · rcases c.join_cases tasks with ⟨h, -⟩ | ⟨t, rest, h, -⟩ <;> rw [h]
        · exact .inr rfl
        · exact .inl rfl
  | stopAgain => exact ⟨rfl, .inr (.inl rfl)⟩
  | swallowed => exact ⟨rfl, .inr (.inl rfl)⟩
  | ending hsel =>
      exact ⟨rfl, .inr (.inr ⟨nofun, by rw [hsel]; rfl, by rw [hsel]; nofun, rfl, nofun⟩)⟩
  | @stopping w pc hfrom hopen hto hlt hnot =>
      refine ⟨rfl, .inr (.inr ⟨nofun, hfrom, fun h => ?_, hto, fun h => ?_⟩)⟩
      · rw [h] at hlt
        cases pc <;> simp [StopPc.rank] at hlt
      · -- only the join leads to `stt.close()`
        obtain rfl : pc = .closingStt := h
        cases hc : c.stopPc <;> simp [hc, StopPc.rank, StopPc.joined] at hlt hfrom
  | _ => rcases ha with h | ⟨w, h⟩ <;> cases h

/-- `connect()` is awaited once. -/
theorem not_connecting_step {a : CallAct} (hpc : c.startPc ≠ .connecting)
    (h : c.step cfg a = some c') : c'.startPc ≠ .connecting := by
  have htask (hstart : ∀ w, a ≠ .starting w) (hstop : a ≠ .stop)
      (hstopping : ∀ w, a ≠ .stopping w) : c'.startPc ≠ .connecting := by
    rw [(pcs_of_task (step_cases h) hstart hstop hstopping).1]
    exact hpc
  cases a with
  | starting w => exact (starting_pcs h).1
  | stop =>
      rw [(stopPc_of_stop (step_cases h) (.inl rfl)).1]
      exact hpc
  | stopping w =>
      rw [(stopPc_of_stop (step_cases h) (.inr ⟨w, rfl⟩)).1]
      exact hpc
  | _ => exact htask nofun nofun nofun

end CallOrchestrator

namespace LiveCall

/-- The steps of a call over its stream. -/
inductive Step (cfg : CallConfig) (σ : LiveCall) : LiveAct → LiveCall → Prop
  | tick {ms : Nat} {call : CallOrchestrator} (hstep : σ.call.step cfg (.tick ms) = some call) :
      Step cfg σ (.tick ms) { σ with call }
  | connected {w : Outcome} {call : CallOrchestrator}
      (hstep : σ.call.step cfg (.starting w) = some call) (hto : call.startPc = .creating) :
      Step cfg σ (.starting w) { σ with call }.connect
  | starting {w : Outcome} {call : CallOrchestrator}
      (hstep : σ.call.step cfg (.starting w) = some call) (hto : call.startPc ≠ .creating) :
      Step cfg σ (.starting w) { σ with call }
  | sendPcm {pcm16 : Bytes} (hconn : σ.connected = true) :
      Step cfg σ (.sendPcm pcm16) { σ with sent := σ.sent ++ [pcm16] }
  | reader {task t : AsyncTask ReaderPc} {w : Wake ReaderOutcome} {e : Option ReaderEffect}
      (htask : σ.recvTask = some task)
      (hres : (Reader.reader σ.connected).Resumes task w t e) :
      Step cfg σ (.reader w) (σ.afterReader t e)
  | timeout {woken cancelling : Bool}
      (htask : σ.call.sttTask = some (.suspended .transcripts cancelling))
      (hgen : σ.transcripts = .getting woken false) :
      Step cfg σ .timeout { σ with transcripts := .getting woken true }
  | timedOut {woken : Bool} (htask : σ.call.sttTask = some (.suspended .transcripts false))
      (hgen : σ.transcripts = .getting woken true) : Step cfg σ .get σ.onTimeout
  | woken (htask : σ.call.sttTask = some (.suspended .transcripts false))
      (hgen : σ.transcripts = .getting true false) :
      Step cfg σ .get (σ.get σ.call.sttQueue)
  | consumer {w : Wake ConsumerOutcome} {call : CallOrchestrator}
      (hnot : σ.call.sttTask ≠ some (.suspended .transcripts false))
      (hstep : σ.call.step cfg (.consumer w) = some call) :
      Step cfg σ (.consumer w) { σ with call }.afterConsumer
  | playback {k : Nat} {w : Wake Outcome} {call : CallOrchestrator}
      (hstep : σ.call.step cfg (.playback k w) = some call) :
      Step cfg σ (.playback k w) { σ with call }
  | stop {call : CallOrchestrator} (hstep : σ.call.step cfg .stop = some call) :
      Step cfg σ .stop { σ with call }.afterJoin
  | stopping {w : StopOutcome} {call : CallOrchestrator} (hpc : σ.call.stopPc ≠ .closingStt)
      (hstep : σ.call.step cfg (.stopping w) = some call) :
      Step cfg σ (.stopping w) { σ with call }.afterJoin
  | closeCancelled (hpc : σ.closePc = .sendingClose ∨ σ.closePc = .closingSocket) :
      Step cfg σ (.closing .cancelled)
        { σ with closePc := .cancelled, call := { σ.call with stopPc := .raised } }
  | closeSwallowed (hpc : σ.closePc = .joiningReader) : Step cfg σ (.closing .cancelled) σ
  | sentClose {w : CloseOutcome} (hw : w ≠ .cancelled) (hpc : σ.closePc = .sendingClose) :
      Step cfg σ (.closing w) { σ with closePc := .closingSocket }
  | closedSocket {w : CloseOutcome} (hw : w ≠ .cancelled) (hpc : σ.closePc = .closingSocket) :
      Step cfg σ (.closing w) { σ with connected := false }.joinReader
  | joinedReader {w : CloseOutcome} (hw : w ≠ .cancelled) (hpc : σ.closePc = .joiningReader)
      (hdone : σ.recvTask.all AsyncTask.isDone = true) :
      Step cfg σ (.closing w) σ.closeReturns

theorem closing_cases {cfg : CallConfig} {σ τ : LiveCall} {w : CloseOutcome}
    (h : σ.closing w = some τ) : Step cfg σ (.closing w) τ := by
  have hgoes : ∀ w, w ≠ .cancelled →
      (match σ.closePc with
        | .sendingClose => some { σ with closePc := .closingSocket }
        | .closingSocket => some { σ with connected := false }.joinReader
        | .joiningReader =>
            if σ.recvTask.all AsyncTask.isDone then some σ.closeReturns else none
        | _ => none) = some τ → Step cfg σ (.closing w) τ := by
    intro w hw h
    split at h
    · rename_i hpc
      exact Option.some.inj h ▸ .sentClose hw hpc
    · rename_i hpc
      exact Option.some.inj h ▸ .closedSocket hw hpc
    · rename_i hpc
      rw [Option.ite_none_right_eq_some] at h
      exact Option.some.inj h.2 ▸ .joinedReader hw hpc h.1
    · cases h
  cases w with
  | returns => exact hgoes .returns nofun h
  | raises => exact hgoes .raises nofun h
  | cancelled =>
      simp only [closing] at h
      split at h
      · rename_i hpc
        exact Option.some.inj h ▸ .closeCancelled (.inl hpc)
      · rename_i hpc
        exact Option.some.inj h ▸ .closeCancelled (.inr hpc)
      · rename_i hpc
        exact Option.some.inj h ▸ .closeSwallowed hpc
      · cases h

theorem step_cases {cfg : CallConfig} {σ τ : LiveCall} {a : LiveAct}
    (h : σ.step cfg a = some τ) : Step cfg σ a τ := by
  cases a with
  | tick ms =>
      simp only [step, Option.map_eq_some_iff] at h
      obtain ⟨call, hstep, rfl⟩ := h
      exact .tick hstep
  | starting w =>
      simp only [step, Option.map_eq_some_iff] at h
      obtain ⟨call, hstep, rfl⟩ := h
      by_cases hto : call.startPc = .creating
      · rw [if_pos hto]
        exact .connected hstep hto
      · rw [if_neg hto]
        exact .starting hstep hto
  | sendPcm pcm16 =>
      simp only [step, LiveCall.sendPcm] at h
      split at h
      · rename_i hconn
        exact Option.some.inj h ▸ .sendPcm hconn
      · cases h
  | reader w =>
      simp only [step] at h
      split at h
      · cases h
      · rename_i task htask
        obtain ⟨⟨t, e⟩, hres, rfl⟩ := Option.map_eq_some_iff.mp h
        exact .reader htask (Coroutine.resume_cases hres)
  | timeout =>
      simp only [step] at h
      split at h
      · rename_i htask hgen
        exact Option.some.inj h ▸ .timeout htask hgen
      · cases h
  | get =>
      simp only [step] at h
      split at h
      · rename_i htask hgen
        exact Option.some.inj h ▸ .timedOut htask hgen
      · rename_i htask hgen
        exact Option.some.inj h ▸ .woken htask hgen
      · cases h
  | consumer w =>
      simp only [step] at h
      split at h
      · cases h
      · rename_i hnot
        obtain ⟨call, hstep, rfl⟩ := Option.map_eq_some_iff.mp h
        exact .consumer hnot hstep
  | playback k w =>
      simp only [step, Option.map_eq_some_iff] at h
      obtain ⟨call, hstep, rfl⟩ := h
      exact .playback hstep
  | stop =>
      simp only [step, Option.map_eq_some_iff] at h
      obtain ⟨call, hstep, rfl⟩ := h
      exact .stop hstep
  | stopping w =>
      simp only [step] at h
      split at h
      · cases h
      · rename_i hpc
        obtain ⟨call, hstep, rfl⟩ := Option.map_eq_some_iff.mp h
        exact .stopping hpc hstep
  | closing w => exact closing_cases h

/-! ## What the steps leave alone -/

/-- The consumer's own steps leave the stream and the calls of `start()` and `stop()`
where they are. -/
structure SameStream (σ τ : LiveCall) : Prop where
  connected : τ.connected = σ.connected
  recvTask : τ.recvTask = σ.recvTask
  closed : τ.closed = σ.closed
  closePc : τ.closePc = σ.closePc
  sent : τ.sent = σ.sent
  startPc : τ.call.startPc = σ.call.startPc
  stopPc : τ.call.stopPc = σ.call.stopPc

variable {σ τ ρ : LiveCall}

theorem SameStream.trans (h : SameStream σ τ) (h' : SameStream τ ρ) : SameStream σ ρ where
  connected := h'.connected.trans h.connected
  recvTask := h'.recvTask.trans h.recvTask
  closed := h'.closed.trans h.closed
  closePc := h'.closePc.trans h.closePc
  sent := h'.sent.trans h.sent
  startPc := h'.startPc.trans h.startPc
  stopPc := h'.stopPc.trans h.stopPc

theorem onTranscript_pcs (c : CallOrchestrator) (t : Transcript) :
    (c.onTranscript t).startPc = c.startPc ∧ (c.onTranscript t).stopPc = c.stopPc := by
  unfold CallOrchestrator.onTranscript
  split
  · exact ⟨rfl, rfl⟩
  · split <;> exact ⟨rfl, rfl⟩

theorem item_same (σ : LiveCall) (t : Transcript) (rest : List Transcript) :
    SameStream σ (σ.item t rest) := by
  obtain ⟨hstart, hstop⟩ := onTranscript_pcs { σ.call with sttQueue := rest } t
  exact ⟨rfl, rfl, rfl, rfl, rfl, hstart, hstop⟩

theorem streamEnds_same (σ : LiveCall) : SameStream σ σ.streamEnds :=
  ⟨rfl, rfl, rfl, rfl, rfl, rfl, rfl⟩

theorem get_same (queue : List Transcript) : ∀ σ : LiveCall, SameStream σ (σ.get queue) := by
  induction queue with
  | nil =>
      intro σ
      exact ⟨rfl, rfl, rfl, rfl, rfl, rfl, rfl⟩
  | cons t rest ih =>
      intro σ
      have hitem := σ.item_same t rest
      unfold get
      split
      · exact hitem
      · split
        · exact hitem.trans (streamEnds_same _)
        · exact hitem.trans (ih _)

theorem loop_same (σ : LiveCall) : SameStream σ σ.loop := by
  unfold loop
  split
  · exact σ.streamEnds_same
  · exact get_same _ σ

theorem onTimeout_same (σ : LiveCall) : SameStream σ σ.onTimeout := by
  unfold onTimeout
  split
  · exact σ.streamEnds_same
  · exact σ.loop_same

theorem afterConsumer_same (σ : LiveCall) : SameStream σ σ.afterConsumer := by
  unfold afterConsumer
  split
  · exact σ.loop_same
  · exact ⟨rfl, rfl, rfl, rfl, rfl, rfl, rfl⟩

/-! ## The stream and the calls of `start()` and `stop()` -/

/-- Where `stop()` is while `close()` is at `pc`. -/
def Agree (pc : ClosePc) (stop : StopPc) : Prop :=
  match pc with
  | .notCalled => stop.joined = false
  | .sendingClose => stop = .closingStt
  | .closingSocket => stop = .closingStt
  | .joiningReader => stop = .closingStt
  | .returned => stop.joined = true ∧ stop ≠ .closingStt
  | .cancelled => stop = .raised

/-- The stream is open, with a reader, from `connect()` to `close()`. -/
structure Opened (σ : LiveCall) : Prop where
  connecting : σ.call.startPc = .connecting →
    σ.connected = false ∧ σ.recvTask = none ∧ σ.call.stopPc = .notCalled
  reader : σ.connected = true → σ.recvTask.isSome = true
  opened : σ.recvTask.isSome = true → σ.connected = true ∨ σ.closed = true
  settled : ∀ t, σ.recvTask = some t → t.settled = true → σ.closed = true
  closed : σ.closePc ≠ .notCalled → σ.closed = true
  joining : σ.closePc = .joiningReader →
    σ.connected = false ∧ ∃ t, σ.recvTask = some t ∧ t.settled = true
  returned : σ.closePc = .returned →
    σ.connected = false ∧ σ.recvTask.all AsyncTask.isDone = true

/-- What holds of the stream and of `stop()` in every reachable state. -/
structure Inv (σ : LiveCall) : Prop where
  opened : σ.Opened
  agree : Agree σ.closePc σ.call.stopPc

theorem Opened.congr (hσ : σ.Opened) (hconn : τ.connected = σ.connected)
    (htask : τ.recvTask = σ.recvTask) (hclosed : τ.closed = σ.closed)
    (hclose : τ.closePc = σ.closePc)
    (hpc : τ.call.startPc = .connecting →
      σ.call.startPc = .connecting ∧ τ.call.stopPc = σ.call.stopPc) : τ.Opened where
  connecting h := by
    obtain ⟨hstart, hstop⟩ := hpc h
    rw [hconn, htask, hstop]
    exact hσ.connecting hstart
  reader := by
    rw [hconn, htask]
    exact hσ.reader
  opened := by
    rw [htask, hconn, hclosed]
    exact hσ.opened
  settled := by
    rw [htask, hclosed]
    exact hσ.settled
  closed := by
    rw [hclose, hclosed]
    exact hσ.closed
  joining := by
    rw [hclose, hconn, htask]
    exact hσ.joining
  returned := by
    rw [hclose, hconn, htask]
    exact hσ.returned

theorem Inv.same (hσ : σ.Inv) (h : SameStream σ τ) : τ.Inv where
  opened := hσ.opened.congr h.connected h.recvTask h.closed h.closePc
    fun hpc => ⟨h.startPc.symm.trans hpc, h.stopPc⟩
  agree := by
    rw [h.closePc, h.stopPc]
    exact hσ.agree

theorem Agree.notCalled_iff {pc : ClosePc} {stop : StopPc} (h : Agree pc stop) :
    pc = .notCalled ↔ stop.joined = false := by
  cases pc with
  | notCalled => exact iff_of_true rfl h
  | returned => exact iff_of_false nofun (by rw [h.1]; nofun)
  | _ =>
      obtain rfl := h
      exact iff_of_false nofun nofun

theorem Agree.returned {pc : ClosePc} {stop : StopPc} (h : Agree pc stop)
    (hjoined : stop.joined = true) (hraised : stop ≠ .raised) (hclosing : stop ≠ .closingStt) :
    pc = .returned := by
  cases pc with
  | notCalled =>
      rw [show stop.joined = false from h] at hjoined
      cases hjoined
  | returned => rfl
  | cancelled => exact absurd h hraised
  | _ => exact absurd h hclosing

/-- While `close()` is pending, `stop()` waits for it. -/
theorem Inv.stopPc_of_pending (hσ : σ.Inv) (h : σ.closePc.pending = true) :
    σ.call.stopPc = .closingStt := by
  have hagree := hσ.agree
  cases hclose : σ.closePc with
  | sendingClose =>
      rw [hclose] at hagree
      exact hagree
  | closingSocket =>
      rw [hclose] at hagree
      exact hagree
  | joiningReader =>
      rw [hclose] at hagree
      exact hagree
  | _ =>
      rw [hclose] at h
      cases h

/-- Joining the reader of a stream that is closed. -/
theorem Opened.joinReader (hσ : σ.Opened) (hpc : σ.call.stopPc = .closingStt)
    (hconn : σ.connected = false) (hclosed : σ.closed = true) : σ.joinReader.Inv := by
  have hstart : σ.call.startPc ≠ .connecting := fun h => by
    have := (hσ.connecting h).2.2
    rw [hpc] at this
    cases this
  unfold LiveCall.joinReader
  cases htask : σ.recvTask with
  | none =>
      refine ⟨⟨fun h => absurd h hstart, ?_, fun _ => .inr hclosed, fun _ _ _ => hclosed,
        fun _ => hclosed, nofun, fun _ => ⟨hconn, ?_⟩⟩, rfl, nofun⟩
      · intro h
        rw [show σ.closeReturns.connected = σ.connected from rfl, hconn] at h
        cases h
      · show σ.recvTask.all _ = true
        rw [htask]
        rfl
  | some task =>
      simp only
      split
      · rename_i hdone
        refine ⟨⟨fun h => absurd h hstart, fun _ => rfl, fun _ => .inr hclosed,
          fun _ _ _ => hclosed, fun _ => hclosed, nofun, fun _ => ⟨hconn, ?_⟩⟩, rfl, nofun⟩
        show (some task.cancel).all AsyncTask.isDone = true
        cases task with
        | done exit => rfl
        | _ => cases hdone
      · refine ⟨⟨fun h => absurd h hstart, fun _ => rfl, fun _ => .inr hclosed,
          fun _ _ _ => hclosed, fun _ => hclosed, ?_, nofun⟩, hpc⟩
        exact fun _ => ⟨hconn, _, rfl, AsyncTask.settled_cancel task⟩

/-- `close()` is called. -/
theorem Opened.close (hσ : σ.Opened) (hpc : σ.call.stopPc = .closingStt) : σ.close.Inv := by
  have hclosing : Opened { σ with closed := true } :=
    ⟨hσ.connecting, hσ.reader, fun _ => .inr rfl, fun _ _ _ => rfl, fun _ => rfl,
      hσ.joining, hσ.returned⟩
  unfold LiveCall.close
  by_cases hconn : σ.connected = true
  · rw [if_pos hconn]
    exact ⟨⟨hclosing.connecting, hσ.reader, fun _ => .inr rfl, fun _ _ _ => rfl, fun _ => rfl,
      nofun, nofun⟩, hpc⟩
  · rw [if_neg hconn]
    exact hclosing.joinReader hpc (Bool.not_eq_true _ ▸ hconn) rfl

/-- `stop()` goes on to `close()` where it has joined its tasks. -/
theorem Opened.afterJoin (hσ : σ.Opened)
    (hpc : Agree σ.closePc σ.call.stopPc ∨
      σ.closePc = .notCalled ∧ σ.call.stopPc = .closingStt) : σ.afterJoin.Inv := by
  unfold LiveCall.afterJoin
  rcases hpc with hagree | ⟨hnot, hpc⟩
  · split
    · rename_i hpc hnot
      rw [hnot, hpc] at hagree
      cases hagree
    · exact ⟨hσ, hagree⟩
  · rw [hpc, hnot]
    exact hσ.close hpc

/-- The reader's step. -/
theorem Inv.reader (hσ : σ.Inv) {task t : AsyncTask ReaderPc} {w : Wake ReaderOutcome}
    {e : Option ReaderEffect} (htask : σ.recvTask = some task)
    (hres : (Reader.reader σ.connected).Resumes task w t e) : (σ.afterReader t e).Inv := by
  have hstart : σ.call.startPc ≠ .connecting := fun h => by
    have := (hσ.opened.connecting h).2.1
    rw [htask] at this
    cases this
  -- a reader that is done is not resumed
  have hreturned : σ.closePc ≠ .returned := fun h => by
    have hdone := (hσ.opened.returned h).2
    rw [htask, Option.all_some, Coroutine.not_isDone_of_resumes hres] at hdone
    cases hdone
  have hsettled : σ.closePc = .joiningReader → t.settled = true := fun h => by
    obtain ⟨-, task', htask', hset⟩ := hσ.opened.joining h
    obtain rfl : task = task' := Option.some.inj (htask.symm.trans htask')
    exact (Coroutine.resume_settled hset hres).1
  have hopen : σ.connected = false → σ.closed = true := fun h =>
    (hσ.opened.opened (by rw [htask]; rfl)).resolve_left (by rw [h]; nofun)
  have hafter : ∀ (closed : Bool) (ρ : LiveCall), ρ.connected = σ.connected →
      ρ.recvTask = some t → ρ.closed = closed → ρ.closePc = σ.closePc →
      ρ.call.startPc = σ.call.startPc → ρ.call.stopPc = σ.call.stopPc →
      (σ.closed = true → closed = true) → (t.settled = true → closed = true) → ρ.Inv := by
    intro closed ρ hconn htask' hclosed hclose hstart' hstop hmono hset
    refine ⟨⟨fun h => absurd (hstart'.symm.trans h) hstart, fun _ => by rw [htask']; rfl, ?_,
      ?_, ?_, ?_, fun h => absurd (hclose.symm.trans h) hreturned⟩, ?_⟩
    · intro _
      rw [hconn, hclosed]
      cases hc : σ.connected with
      | true => exact .inl rfl
      | false => exact .inr (hmono (hopen hc))
    · intro t' ht' hst
      obtain rfl : t = t' := Option.some.inj (htask'.symm.trans ht')
      rw [hclosed]
      exact hset hst
    · intro h
      rw [hclosed]
      exact hmono (hσ.opened.closed (by rwa [← hclose]))
    · intro h
      have hpc := hclose.symm.trans h
      exact ⟨hconn.trans (hσ.opened.joining hpc).1, t, htask', hsettled hpc⟩
    · rw [hclose, hstop]
      exact hσ.agree
  cases hres with
  | thrown => exact hafter true _ rfl rfl rfl rfl rfl rfl (fun _ => rfl) (fun _ => rfl)
  | unwound => exact hafter true _ rfl rfl rfl rfl rfl rfl (fun _ => rfl) (fun _ => rfl)
  | @outcome pc w t e hgo =>
      cases e with
      | finish => exact hafter true _ rfl rfl rfl rfl rfl rfl (fun _ => rfl) (fun _ => rfl)
      | put item =>
          refine hafter σ.closed _ rfl rfl rfl rfl rfl rfl id fun hset => ?_
          rcases Reader.go_settled hgo hset with h | h
          · cases h
          · exact hopen h
      | none =>
          refine hafter σ.closed _ rfl rfl rfl rfl rfl rfl id fun hset => ?_
          rcases Reader.go_settled hgo hset with h | h
          · cases h
          · exact hopen h

/-- A step of `stop()` outside its `close()`, and the `close()` it may lead to. -/
theorem Inv.afterJoin {cfg : CallConfig} (hσ : σ.Inv) {a : CallAct} {call : CallOrchestrator}
    (h : CallOrchestrator.Step cfg σ.call a call) (ha : a = .stop ∨ ∃ w, a = .stopping w)
    (hpc : a ≠ .stop → σ.call.stopPc ≠ .closingStt) : ({ σ with call }.afterJoin).Inv := by
  obtain ⟨hstart, hstop⟩ := CallOrchestrator.stopPc_of_stop h ha
  have hopened : Opened { σ with call } := by
    refine hσ.opened.congr rfl rfl rfl rfl fun hconn => ?_
    have hfrom : σ.call.startPc = .connecting := hstart.symm.trans hconn
    refine ⟨hfrom, ?_⟩
    have hnot := (hσ.opened.connecting hfrom).2.2
    rcases CallOrchestrator.stopPc_step hnot h with h | ⟨h | h, -⟩
    · exact h.trans hnot.symm
    · rw [hfrom] at h
      cases h
    · rw [hfrom] at h
      cases h
  apply hopened.afterJoin
  rcases hstop with ⟨hnot, hto⟩ | heq | ⟨hstop, hfrom, hraised, hto⟩
  · have hclose : σ.closePc = .notCalled := hσ.agree.notCalled_iff.mpr hnot
    rcases hto with hto | hto
    · left
      show Agree σ.closePc call.stopPc
      rw [hclose]
      exact hto
    · exact .inr ⟨hclose, hto⟩
  · left
    show Agree σ.closePc call.stopPc
    rw [heq]
    exact hσ.agree
  · -- past `close()`, `stop()` only goes on where that has returned
    left
    show Agree σ.closePc call.stopPc
    rw [hσ.agree.returned hfrom hraised (hpc hstop)]
    exact hto

theorem inv_step {cfg : CallConfig} {a : LiveAct} (hσ : σ.Inv) (h : Step cfg σ a τ) :
    τ.Inv := by
  have hcongr : ∀ call : CallOrchestrator, call.startPc = σ.call.startPc →
      call.stopPc = σ.call.stopPc → Inv { σ with call } := fun call hstart hstop =>
    hσ.same ⟨rfl, rfl, rfl, rfl, rfl, hstart, hstop⟩
  cases h with
  | tick hstep =>
      obtain ⟨hstart, hstop⟩ := CallOrchestrator.pcs_of_task (CallOrchestrator.step_cases hstep)
        nofun nofun nofun
      exact hcongr _ hstart hstop
  | @connected w call hstep hto =>
      obtain ⟨hfrom, hstop⟩ := CallOrchestrator.starting_creating hstep hto
      obtain ⟨-, -, hcalled⟩ := hσ.opened.connecting hfrom
      have hnot : σ.closePc = .notCalled := hσ.agree.notCalled_iff.mpr (by rw [hcalled]; rfl)
      refine ⟨⟨?_, fun _ => rfl, fun _ => .inl rfl, ?_, fun h => absurd hnot h, ?_, ?_⟩, ?_⟩
      · intro h
        have hpc : call.startPc = .connecting := h
        rw [hto] at hpc
        cases hpc
      · intro t ht hset
        obtain rfl := Option.some.inj ht
        cases hset
      · intro h
        have hpc : σ.closePc = .joiningReader := h
        rw [hnot] at hpc
        cases hpc
      · intro h
        have hpc : σ.closePc = .returned := h
        rw [hnot] at hpc
        cases hpc
      · show Agree σ.closePc call.stopPc
        rw [hstop]
        exact hσ.agree
  | starting hstep hto =>
      obtain ⟨hpc, hstop⟩ := CallOrchestrator.starting_pcs hstep
      refine ⟨hσ.opened.congr rfl rfl rfl rfl fun h => absurd h hpc, ?_⟩
      show Agree σ.closePc _
      rw [hstop]
      exact hσ.agree
  | sendPcm hconn =>
      exact ⟨hσ.opened.congr rfl rfl rfl rfl fun hpc => ⟨hpc, rfl⟩, hσ.agree⟩
  | reader htask hres => exact hσ.reader htask hres
  | timeout htask hgen => exact hσ.same ⟨rfl, rfl, rfl, rfl, rfl, rfl, rfl⟩
  | timedOut htask hgen => exact hσ.same σ.onTimeout_same
  | woken htask hgen => exact hσ.same (get_same _ σ)
  | consumer hnot hstep =>
      obtain ⟨hstart, hstop⟩ := CallOrchestrator.pcs_of_task (CallOrchestrator.step_cases hstep)
        nofun nofun nofun
      exact (hcongr _ hstart hstop).same (afterConsumer_same _)
  | playback hstep =>
      obtain ⟨hstart, hstop⟩ := CallOrchestrator.pcs_of_task (CallOrchestrator.step_cases hstep)
        nofun nofun nofun
      exact hcongr _ hstart hstop
  | stop hstep =>
      exact hσ.afterJoin (CallOrchestrator.step_cases hstep) (.inl rfl) nofun
  | stopping hpc hstep =>
      exact hσ.afterJoin (CallOrchestrator.step_cases hstep) (.inr ⟨_, rfl⟩) fun _ => hpc
  | closeCancelled hpc =>
      have hpending : σ.closePc.pending = true := by
        rcases hpc with h | h <;> rw [h] <;> rfl
      have hclosing := hσ.stopPc_of_pending hpending
      refine ⟨⟨fun h => ?_, hσ.opened.reader, hσ.opened.opened, hσ.opened.settled, fun _ => ?_,
        nofun, nofun⟩, rfl⟩
      · have := (hσ.opened.connecting h).2.2
        rw [hclosing] at this
        cases this
      · exact hσ.opened.closed (by rcases hpc with h | h <;> rw [h] <;> nofun)
  | closeSwallowed hpc => exact hσ
  | sentClose hw hpc =>
      have hclosing := hσ.stopPc_of_pending (by rw [hpc]; rfl)
      exact ⟨⟨hσ.opened.connecting, hσ.opened.reader, hσ.opened.opened, hσ.opened.settled,
        fun _ => hσ.opened.closed (by rw [hpc]; nofun), nofun, nofun⟩, hclosing⟩
  | closedSocket hw hpc =>
      have hclosing := hσ.stopPc_of_pending (by rw [hpc]; rfl)
      have hclosed := hσ.opened.closed (by rw [hpc]; nofun)
      have hopened : Opened { σ with connected := false } :=
        ⟨fun h => ⟨rfl, (hσ.opened.connecting h).2⟩, nofun, fun _ => .inr hclosed,
          fun _ _ _ => hclosed, fun _ => hclosed, fun h => ⟨rfl, (hσ.opened.joining h).2⟩,
          fun h => ⟨rfl, (hσ.opened.returned h).2⟩⟩
      exact hopened.joinReader hclosing rfl hclosed
  | joinedReader hw hpc hdone =>
      have hclosed := hσ.opened.closed (by rw [hpc]; nofun)
      have hclosing := hσ.stopPc_of_pending (by rw [hpc]; rfl)
      refine ⟨⟨fun h => ?_, hσ.opened.reader, hσ.opened.opened, hσ.opened.settled,
        fun _ => hclosed, nofun, fun _ => ⟨(hσ.opened.joining hpc).1, hdone⟩⟩, rfl, nofun⟩
      have := (hσ.opened.connecting h).2.2
      rw [hclosing] at this
      cases this

theorem inv_inductive (cfg : CallConfig) : (liveSys cfg).Inductive Inv where
  init := by
    rintro σ ⟨registry, rfl⟩
    exact ⟨⟨fun _ => ⟨rfl, rfl, rfl⟩, nofun, nofun, nofun, fun h => absurd rfl h, nofun, nofun⟩,
      rfl⟩
  step _ _ _ hσ hs := inv_step hσ (step_cases hs)

end LiveCall

end VoiceAgent
