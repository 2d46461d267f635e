import Mathlib.Data.List.Sublists
import VoiceAgent.Lib.Simulation
import VoiceAgent.Logic.Greeting
import VoiceAgent.Logic.LiveSteps
import VoiceAgent.Logic.Projection
import VoiceAgent.Model.Database

/-!
# Who writes which row

The consumer writes the rows of the turns and the first playback the greeting's
(`Step.rows`), so what a task has stored and added is read off the log of its call.
A task writes only once `start()` has returned, and by then the insert of the call's
own row in `call_sessions` has (`Owning`): the foreign key refuses no commit.
-/

namespace VoiceAgent

open Lib Lib.TSys

/-- The row that the greeting's playback writes: the assistant's, without a latency. -/
def CallEvent.isGreetingRow : CallEvent → Bool
  | .turnRow .assistant _ none => true
  | _ => false

/-- What a step that resumes the task may log. -/
def CallEvent.isOf : Option TaskRef → CallEvent → Bool
  | none, e => !e.isRow
  | some .consumer, e => !e.isGreetingRow
  | some (.playback k), e => !e.isRow || e.isGreetingRow && k == 0

/-- The rows that the consumer has begun to write. -/
def consumerRows (callSid : String) (log : List CallEvent) : List DbRow :=
  rowsBegun callSid (log.filter fun e => !e.isGreetingRow)

/-- The rows that the greeting's playback has begun to write. -/
def greetingRows (callSid : String) (log : List CallEvent) : List DbRow :=
  rowsBegun callSid (log.filter CallEvent.isGreetingRow)

section

variable {callSid : String} {log log' : List CallEvent}

@[simp] theorem rowsBegun_append :
    rowsBegun callSid (log ++ log') = rowsBegun callSid log ++ rowsBegun callSid log' :=
  List.filterMap_append

@[simp] theorem consumerRows_append :
    consumerRows callSid (log ++ log') = consumerRows callSid log ++ consumerRows callSid log' := by
  rw [consumerRows, List.filter_append, rowsBegun_append]
  rfl

@[simp] theorem greetingRows_append :
    greetingRows callSid (log ++ log') = greetingRows callSid log ++ greetingRows callSid log' := by
  rw [greetingRows, List.filter_append, rowsBegun_append]
  rfl

/-- Every row is the consumer's or the greeting's. -/
theorem rowsBegun_perm :
    (consumerRows callSid log ++ greetingRows callSid log).Perm (rowsBegun callSid log) := by
  rw [consumerRows, greetingRows, ← rowsBegun_append]
  refine List.Perm.filterMap _ (List.perm_append_comm.trans ?_)
  exact List.filter_append_perm CallEvent.isGreetingRow log

theorem rowsBegun_of_not_isRow (h : ∀ e ∈ log, e.isRow = false) : rowsBegun callSid log = [] := by
  refine List.filterMap_eq_nil_iff.mpr fun e he => ?_
  have hrow := h e he
  cases e <;> first | rfl | cases hrow

/-- The foreign key of a row is its call's. -/
theorem callSid_of_mem_rowsBegun {row : DbRow} (h : row ∈ rowsBegun callSid log) :
    row.callSid = callSid := by
  obtain ⟨e, -, he⟩ := List.mem_filterMap.mp h
  cases e with
  | turnRow role text latencyMs =>
      obtain rfl := Option.some.inj he
      rfl
  | toolRow tc =>
      obtain rfl := Option.some.inj he
      rfl
  | _ => cases he

theorem rows_of_consumer (h : ∀ e ∈ log, e.isOf (some .consumer)) :
    consumerRows callSid log = rowsBegun callSid log ∧ greetingRows callSid log = [] := by
  have hnot : ∀ e ∈ log, e.isGreetingRow = false := by
    intro e he
    have := h e he
    rwa [CallEvent.isOf, Bool.not_eq_true'] at this
  constructor
  · rw [consumerRows, List.filter_eq_self.mpr]
    intro e he
    rw [hnot e he]
    rfl
  · rw [greetingRows, List.filter_eq_nil_iff.mpr]
    · rfl
    · intro e he
      rw [hnot e he]
      exact Bool.false_ne_true

theorem rows_of_playback {k : Nat} (h : ∀ e ∈ log, e.isOf (some (.playback k))) :
    consumerRows callSid log = [] ∧ greetingRows callSid log = rowsBegun callSid log ∧
      (k ≠ 0 → rowsBegun callSid log = []) := by
  have hcases : ∀ e ∈ log, e.isRow = false ∨ e.isGreetingRow = true ∧ k = 0 := by
    intro e he
    have := h e he
    rw [CallEvent.isOf, Bool.or_eq_true, Bool.not_eq_true', Bool.and_eq_true, beq_iff_eq] at this
    exact this
  refine ⟨?_, ?_, ?_⟩
  · apply rowsBegun_of_not_isRow
    intro e he
    obtain ⟨he, hnot⟩ := List.mem_filter.mp he
    rcases hcases e he with hrow | ⟨hgreet, -⟩
    · exact hrow
    · rw [hgreet] at hnot
      cases hnot
  · induction log with
    | nil => rfl
    | cons e log ih =>
        have hrest := ih (fun e he => h e (List.mem_cons_of_mem _ he))
          fun e he => hcases e (List.mem_cons_of_mem _ he)
        have hone : greetingRows callSid [e] = rowsBegun callSid [e] := by
          rcases hcases e List.mem_cons_self with hrow | ⟨hgreet, -⟩
          · cases e <;> first | rfl | cases hrow
          · rw [greetingRows, List.filter_eq_self.mpr]
            intro e' he'
            rw [List.mem_singleton.mp he']
            exact hgreet
        show greetingRows callSid ([e] ++ log) = rowsBegun callSid ([e] ++ log)
        rw [greetingRows_append, rowsBegun_append, hone, hrest]
  · intro hk
    apply rowsBegun_of_not_isRow
    intro e he
    rcases hcases e he with hrow | ⟨-, hzero⟩
    · exact hrow
    · exact absurd hzero hk

/-- A step that resumes another task writes no row of the consumer. -/
theorem consumerRows_of_other {t : Option TaskRef} (ht : t ≠ some .consumer)
    (h : ∀ e ∈ log, e.isOf t) : consumerRows callSid log = [] := by
  match t with
  | none =>
      apply rowsBegun_of_not_isRow
      intro e he
      have := h e (List.mem_of_mem_filter he)
      rwa [CallEvent.isOf, Bool.not_eq_true'] at this
  | some .consumer => exact absurd rfl ht
  | some (.playback k) => exact (rows_of_playback h).1

/-- A step that does not resume the first playback writes no greeting. -/
theorem greetingRows_of_other {t : Option TaskRef} (ht : t ≠ some (.playback 0))
    (h : ∀ e ∈ log, e.isOf t) : greetingRows callSid log = [] := by
  match t with
  | none =>
      apply rowsBegun_of_not_isRow
      intro e he
      have := h e (List.mem_of_mem_filter he)
      rwa [CallEvent.isOf, Bool.not_eq_true'] at this
  | some .consumer => exact (rows_of_consumer h).2
  | some (.playback k) =>
      obtain ⟨-, hgreeting, hnone⟩ := @rows_of_playback callSid _ _ h
      rw [hgreeting]
      apply hnone
      rintro rfl
      exact ht rfl

theorem Call.begun_of_log {c d : Call} (hlog : d.state.log = c.state.log ++ log) :
    c.begun d = rowsBegun c.callSid log := by
  rw [Call.begun, hlog, List.drop_left]

end

namespace Consumer

variable {llm : ClaudeAgent} {now : Nat} {pc : ConsumerPc} {w : ConsumerOutcome}
  {t : AsyncTask ConsumerPc} {e : TurnEffect}

/-- The rows of a turn have a latency, or are the user's. -/
theorem not_isGreetingRow_go (h : Go llm now pc w t e) :
    ∀ ev ∈ e.events, ev.isGreetingRow = false := by
  have hturn : ∀ started llm' status,
      ∀ ev ∈ (afterRunTurn now started llm' status).2.events, ev.isGreetingRow = false := by
    intro started llm' status ev hev
    cases status with
    | suspended pc => cases hev
    | raised => cases hev
    | returned turn =>
        obtain rfl := List.mem_singleton.mp hev
        rfl
  have hcalls : ∀ (turn : TurnResult) calls,
      ∀ ev ∈ (addToolCalls llm turn calls).2.events, ev.isGreetingRow = false := by
    intro turn calls ev hev
    cases calls with
    | nil => cases hev
    | cons tc rest =>
        obtain rfl := List.mem_singleton.mp hev
        rfl
  cases h with
  | responds hgo => exact hturn _ _ _
  | toolDone hgo => exact hturn _ _ _
  | turnAdded => exact hcalls _ _
  | callAdded => exact hcalls _ _
  | _ => nofun

end Consumer

namespace CallOrchestrator

variable {cfg : CallConfig} {σ τ : CallOrchestrator}

/-- A row in the log of a step is one of the task that the step resumes. -/
theorem Step.rows {a : CallAct} (hgreet : GreetInv cfg σ) (h : Step cfg σ a τ) :
    ∃ events, τ.log = σ.log ++ events ∧ ∀ e ∈ events, e.isOf a.task? := by
  cases h with
  | started hpc => exact ⟨[.speak greeting], rfl, List.forall_mem_singleton.mpr rfl⟩
  | takeFinal htask hqueue hfinal =>
      exact ⟨[.userTurn _, .turnRow .user _ none], rfl,
        List.forall_mem_cons.mpr ⟨rfl, List.forall_mem_singleton.mpr rfl⟩⟩
  | bargeIn htask hqueue hint hspeaking =>
      exact ⟨[.bargeIn _ _], rfl, List.forall_mem_singleton.mpr rfl⟩
  | @consumer task t w e htask hres =>
      cases hres with
      | @outcome pc w t e hgo =>
          have hevents := Consumer.not_isGreetingRow_go (Consumer.go_cases hgo)
          cases hsay : e.say with
          | none =>
              refine ⟨e.events, by simp [afterConsumer, hsay], ?_⟩
              intro ev hev
              rw [CallAct.task?, CallEvent.isOf, hevents ev hev]
              rfl
          | some text =>
              refine ⟨e.events ++ [.speak text], by simp [afterConsumer, hsay], ?_⟩
              intro ev hev
              rcases List.mem_append.mp hev with hev | hev
              · rw [CallAct.task?, CallEvent.isOf, hevents ev hev]
                rfl
              · obtain rfl := List.mem_singleton.mp hev
                rfl
      | thrown => exact ⟨[], (List.append_nil _).symm, List.forall_mem_nil _⟩
      | unwound => exact ⟨[], (List.append_nil _).symm, List.forall_mem_nil _⟩
  | @playback k p t w e hp hres =>
      refine ⟨_, rfl, ?_⟩
      refine Utterance.resumes_forall (P := fun ev => ev.isOf (some (.playback k)) = true) ?_
        (fun _ => rfl) hres
      intro hrole
      -- only the first playback has a role to persist
      have hzero : k = 0 := by
        by_contra hne
        have hstart : σ.startPc = .started := by
          by_contra hnot
          rw [hgreet.silent hnot] at hp
          cases hp
        obtain ⟨replies, heq, hreplies⟩ := hgreet.greets hstart
        obtain ⟨j, rfl⟩ := Nat.exists_eq_succ_of_ne_zero hne
        have hget := congrArg (·[j + 1]?) heq
        simp only [List.getElem?_map, hp, Option.map_some, List.getElem?_cons_succ] at hget
        rw [hreplies _ (List.mem_of_getElem? hget.symm)] at hrole
        cases hrole
      rw [hzero]
      rfl
  | stop hstart hpc => exact ⟨[], by rw [join_log, List.append_nil]; rfl, List.forall_mem_nil _⟩
  | joined hpc hdone => exact ⟨[], by rw [join_log, List.append_nil], List.forall_mem_nil _⟩
  | ending hpc => exact ⟨[.ended], rfl, List.forall_mem_singleton.mpr rfl⟩
  | _ => exact ⟨[], (List.append_nil _).symm, List.forall_mem_nil _⟩

/-- A task of its own is resumed only in a call that has started. -/
theorem Step.started_of_task {a : CallAct} {t : TaskRef} (hinv : StartInv σ)
    (hgreet : GreetInv cfg σ) (h : Step cfg σ a τ) (ht : a.task? = some t) :
    σ.startPc = .started := by
  cases h with
  | takeFinal htask hqueue hfinal => exact hinv.mp (by rw [htask]; rfl)
  | bargeIn htask hqueue hint hspeaking => exact hinv.mp (by rw [htask]; rfl)
  | takePartial htask hqueue hfinal => exact hinv.mp (by rw [htask]; rfl)
  | consumer htask hres => exact hinv.mp (by rw [htask]; rfl)
  | playback hp hres =>
      by_contra hnot
      rw [hgreet.silent hnot] at hp
      cases hp
  | _ => cases ht

theorem stop_log (σ : CallOrchestrator) : σ.stop.log = σ.log := by
  unfold stop
  split
  · rfl
  · rw [cancelTasks_eq, join_log]
    rfl

/-- Only the await of `create` leads past the insert. -/
theorem created_cases {a : CallAct} (h : σ.step cfg a = some τ)
    (hτ : τ.startPc = .leavingScope ∨ τ.startPc = .started) :
    σ.startPc = .leavingScope ∨ σ.startPc = .started ∨
      a = .starting .returns ∧ σ.startPc = .creating := by
  have hsame : τ.startPc = σ.startPc → σ.startPc = .leavingScope ∨ σ.startPc = .started ∨
      a = .starting .returns ∧ σ.startPc = .creating := by
    intro hsame
    rw [hsame] at hτ
    rcases hτ with hτ | hτ
    · exact .inl hτ
    · exact .inr (.inl hτ)
  cases a with
  | starting w =>
      change σ.starting cfg w = some τ at h
      unfold starting at h
      split at h
      · obtain rfl := Option.some.inj h
        rcases hτ with hτ | hτ <;> cases hτ
      · rename_i hpc
        exact .inr (.inr ⟨rfl, hpc⟩)
      · rename_i hpc
        exact .inl hpc
      all_goals first
        | (simp only [reduceCtorEq] at h)
        | (obtain rfl := Option.some.inj h
           rcases hτ with hτ | hτ <;> cases hτ)
  | stop =>
      obtain ⟨-, h⟩ := Option.ite_none_right_eq_some.mp h
      obtain rfl := Option.some.inj h
      exact hsame σ.stop_startPc
  | stopping w =>
      cases @stopping_cases cfg σ τ w h with
      | @joined t tasks hpc hdone =>
          obtain ⟨pc, hjoin⟩ := σ.join_eq tasks
          exact hsame (by rw [hjoin])
      | _ => exact hsame rfl
  | _ => exact hsame (pcs_of_task (step_cases h) nofun nofun nofun).1

end CallOrchestrator

namespace Server

variable {synthesize : Nat → Nat → String → List Bytes} {σ τ : Server}

/-- A call whose `create` has returned owns a row of `call_sessions`. -/
def Owning (σ : Server) : Prop :=
  ∀ (k : Nat) (c : Call), σ.calls[k]? = some c →
    c.state.startPc = .leavingScope ∨ c.state.startPc = .started →
    ∃ r ∈ σ.rows, r.callSid = c.callSid ∧ r.owner = k

/-- Rows are added and marked, never taken away or given to another. -/
theorem exists_rowsAfter {k : Nat} {c : Call} {inDoubt : Bool} {a : CallAct} {r : SessionRow}
    (hr : r ∈ σ.rows) :
    ∃ s ∈ σ.rowsAfter k c inDoubt a, s.callSid = r.callSid ∧ s.owner = r.owner := by
  unfold rowsAfter
  split
  · split
    · exact ⟨r, List.mem_append_left _ hr, rfl, rfl⟩
    · exact ⟨r, hr, rfl, rfl⟩
  · split
    · refine ⟨_, List.mem_map_of_mem hr, ?_, ?_⟩ <;> split <;> rfl
    · exact ⟨r, hr, rfl, rfl⟩
  · exact ⟨r, hr, rfl, rfl⟩

theorem owning_step {a : ServerAct} (hσ : Owning σ) (h : Step synthesize σ a τ) : Owning τ := by
  intro k c hc hpc
  cases h with
  | constructs hstart hs hreceiving =>
      rcases getElem?_snoc_cases hc with hc | ⟨-, rfl⟩
      · exact hσ k c hc hpc
      · rcases hpc with h | h <;> cases h
  | @stops _ i k' s hno hs hloop hk hfailed =>
      obtain ⟨d, hd, rfl⟩ := getElem?_modify_cases hc
      split at hpc
      · rename_i heq
        rw [if_pos heq]
        rw [Call.stop, d.state.stop_startPc] at hpc
        exact hσ k d hd hpc
      · rename_i hne
        rw [if_neg hne]
        exact hσ k d hd hpc
  | @call j d a inDoubt state hd hnot hanswers hstep =>
      rcases getElem?_set_cases hc with ⟨rfl, rfl⟩ | ⟨-, hc⟩
      · have hold : (d.state.startPc = .leavingScope ∨ d.state.startPc = .started) →
            ∃ r ∈ σ.rowsAfter j d inDoubt a, r.callSid = d.callSid ∧ r.owner = j := by
          intro hold
          obtain ⟨r, hr, hsid, howner⟩ := hσ j d hd hold
          obtain ⟨s, hs, hsid', howner'⟩ := exists_rowsAfter (k := j) (c := d) (a := a) hr
          exact ⟨s, hs, hsid'.trans hsid, howner'.trans howner⟩
        rcases CallOrchestrator.created_cases hstep hpc with h | h | ⟨rfl, hcreating⟩
        · exact hold (.inl h)
        · exact hold (.inr h)
        · refine ⟨{ callSid := d.callSid, fromNumber := d.fromNumber, owner := j }, ?_, rfl, rfl⟩
          show _ ∈ σ.rowsAfter j d inDoubt (.starting .returns)
          simp only [rowsAfter, hcreating, true_and, true_or, if_true]
          exact List.mem_append_right _ (List.mem_singleton_self _)
      · obtain ⟨r, hr, hsid, howner⟩ := hσ k c hc hpc
        obtain ⟨s, hs, hsid', howner'⟩ := exists_rowsAfter (k := j) (c := d) (a := a) hr
        exact ⟨s, hs, hsid'.trans hsid, howner'.trans howner⟩
  | _ => exact hσ k c hc hpc

end Server

namespace Database

variable {synthesize : Nat → Nat → String → List Bytes} {σ τ : Database}

/-- The steps of the process over its database: the process alone, or a task that goes
on from its await. -/
inductive Step (synthesize : Nat → Nat → String → List Bytes) (σ : Database) (e : DbAct) :
    Database → Prop
  | process {server : Server} (hserver : σ.server.step synthesize e.act = some server)
      (hother : ∀ k a inDoubt, e.act = .call k a inDoubt → a.task? = none) :
      Step synthesize σ e { σ with server }
  | task {server : Server} {k : Nat} {a : CallAct} {inDoubt : Bool} {t : TaskRef} {c d : Call}
      (hserver : σ.server.step synthesize e.act = some server)
      (hact : e.act = .call k a inDoubt)
      (htask : a.task? = some t) (hc : σ.server.calls[k]? = some c)
      (hd : server.calls[k]? = some d)
      (hkey : (a.returns || inDoubt) = true →
        ∀ row ∈ σ.added (k, t), σ.server.hasRow row.callSid = true) :
      Step synthesize σ e {
        server
        added := Function.update σ.added (k, t) (c.begun d)
        stored := σ.stored ++ if a.returns || inDoubt then
          (σ.added (k, t)).map fun row => ⟨(k, t), row, e.createdAt⟩ else [] }

/-- A step of a call leaves a call in its place. -/
theorem exists_call {k : Nat} {a : CallAct} {inDoubt : Bool} {server server' : Server}
    (h : server.step synthesize (.call k a inDoubt) = some server') :
    ∃ c d, server.calls[k]? = some c ∧ server'.calls[k]? = some d ∧ d.callSid = c.callSid ∧
      c.state.step c.cfg a = some d.state ∧ d.cfg = c.cfg := by
  change server.callStep k a inDoubt = some server' at h
  unfold Server.callStep at h
  split at h
  · cases h
  · cases h
  · rename_i c hc hstop
    obtain ⟨-, h⟩ := Option.ite_none_right_eq_some.mp h
    obtain ⟨state, hstep, rfl⟩ := Option.map_eq_some_iff.mp h
    exact ⟨c, { c with state }, hc,
      List.getElem?_set_self (List.getElem?_eq_some_iff.mp hc).1, rfl, hstep, rfl⟩

theorem step_cases {e : DbAct} (h : σ.step synthesize e = some τ) : Step synthesize σ e τ := by
  obtain ⟨server, hserver, h⟩ := Option.bind_eq_some_iff.mp h
  cases hact : e.act with
  | call k a inDoubt =>
      rw [hact] at hserver
      obtain ⟨c, d, hc, hd, -⟩ := exists_call hserver
      simp only [hact, hc, hd] at h
      cases htask : a.task? with
      | none =>
          simp only [htask] at h
          obtain rfl := Option.some.inj h
          refine .process (hact ▸ hserver) ?_
          intro k' a' inDoubt' heq
          rw [hact] at heq
          obtain ⟨rfl, rfl, rfl⟩ := ServerAct.call.inj heq
          exact htask
      | some t =>
          simp only [htask] at h
          obtain ⟨hkey, h⟩ := Option.ite_none_left_eq_some.mp h
          obtain rfl := Option.some.inj h
          refine .task (hact ▸ hserver) hact htask hc hd ?_
          intro hcommits row hrow
          rw [hcommits, Bool.true_and, List.any_eq_true, not_exists] at hkey
          by_contra hno
          refine hkey row ⟨hrow, ?_⟩
          rw [Bool.not_eq_true] at hno
          rw [hno]
          rfl
  | _ =>
      simp only [hact] at h
      obtain rfl := Option.some.inj h
      refine .process hserver ?_
      intro k a inDoubt heq
      rw [hact] at heq
      cases heq

end Database

end VoiceAgent
