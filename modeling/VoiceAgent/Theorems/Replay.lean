import VoiceAgent.Logic.DatabaseSteps
import VoiceAgent.Theorems.SessionRows

/-!
# What the database keeps of a call

`call_sid` is the primary key of `call_sessions`, so of several calls that carry the
same one a single call gets past `create`: only that call writes turns under it,
however the calls interleave. What a task has stored and added is, in order, what its
call's log says it began to write (`Written`); only a commit that fails loses rows.
`GET /sessions/{call_sid}` then shows the rows of one call, and all of them where none
was lost.
-/

namespace VoiceAgent

open Lib Lib.TSys

/-- The task of the j-th call that the step resumes. -/
def ServerAct.taskOf (j : Nat) : ServerAct → Option TaskRef
  | .call k a _ => if k = j then a.task? else none
  | _ => none

/-- The commit that the task awaited is carried out. -/
def DbAct.commits (e : DbAct) : Bool :=
  match e.act with
  | .call _ a inDoubt => a.returns || inDoubt
  | _ => false

/-- A step that resumes a task of the j-th call is a step of that call. -/
theorem ServerAct.taskOf_eq_some {a : ServerAct} {j : Nat} {t : TaskRef} (h : a.taskOf j = some t) :
    ∃ b inDoubt, a = .call j b inDoubt ∧ b.task? = some t := by
  cases a with
  | call k b inDoubt =>
      obtain ⟨hkj, hb⟩ := Option.ite_none_right_eq_some.mp h
      exact ⟨b, inDoubt, by rw [hkj], hb⟩
  | _ => cases h

namespace Server

variable {synthesize : Nat → Nat → String → List Bytes} {σ τ : Server}

/-- A call stays in its place, as it was constructed, and stays started. -/
theorem calls_step {a : ServerAct} (h : Step synthesize σ a τ) :
    σ.calls.length ≤ τ.calls.length ∧ ∀ (j : Nat) (c : Call), σ.calls[j]? = some c →
      ∃ d, τ.calls[j]? = some d ∧ d.callSid = c.callSid ∧ d.fromNumber = c.fromNumber ∧
        (c.state.startPc = .started → d.state.startPc = .started) := by
  cases h with
  | constructs hstart hs hreceiving =>
      constructor
      · show _ ≤ (σ.calls ++ [_]).length
        rw [List.length_append]
        exact Nat.le_add_right _ _
      · intro j c hc
        exact ⟨c, (List.getElem?_append_left (List.getElem?_eq_some_iff.mp hc).1).trans hc, rfl,
          rfl, id⟩
  | @stops _ i k s hno hs hloop hk hfailed =>
      refine ⟨Nat.le_of_eq (List.length_modify _ _ _).symm, ?_⟩
      intro j c hc
      refine ⟨if k = j then c.stop else c, ?_, ?_, ?_, ?_⟩
      · show (σ.calls.modify k Call.stop)[j]? = _
        rw [List.getElem?_modify, hc]
        rfl
      · split <;> rfl
      · split <;> rfl
      · intro hstarted
        split
        · exact c.state.stop_startPc.trans hstarted
        · exact hstarted
  | @call k c a inDoubt state hc hnot hanswers hstep =>
      refine ⟨Nat.le_of_eq List.length_set.symm, ?_⟩
      intro j d hd
      by_cases hkj : k = j
      · subst hkj
        obtain rfl := Option.some.inj (hc.symm.trans hd)
        refine ⟨{ c with state },
          List.getElem?_set_self (List.getElem?_eq_some_iff.mp hc).1, rfl, rfl, ?_⟩
        intro hstarted
        have hsame := CallOrchestrator.startPc_step (.inl hstarted)
          (CallOrchestrator.step_cases hstep)
        exact hsame.trans hstarted
      · exact ⟨d, (List.getElem?_set_ne hkj).trans hd, rfl, rfl, id⟩
  | _ => exact ⟨Nat.le_refl _, fun j c hc => ⟨c, hc, rfl, rfl, id⟩⟩

/-- A row of `call_sessions` carries what its call was constructed with. -/
def RowsOwned (σ : Server) : Prop :=
  ∀ r ∈ σ.rows, ∃ c, σ.calls[r.owner]? = some c ∧ c.callSid = r.callSid ∧
    c.fromNumber = r.fromNumber

theorem rowsOwned_step {a : ServerAct} (hσ : RowsOwned σ) (h : Step synthesize σ a τ) :
    RowsOwned τ := by
  have hkeep : ∀ r ∈ σ.rows, ∃ c, τ.calls[r.owner]? = some c ∧ c.callSid = r.callSid ∧
      c.fromNumber = r.fromNumber := by
    intro r hr
    obtain ⟨c, hc, hsid, hfrom⟩ := hσ r hr
    obtain ⟨d, hd, hsid', hfrom', -⟩ := (calls_step h).2 r.owner c hc
    exact ⟨d, hd, hsid'.trans hsid, hfrom'.trans hfrom⟩
  cases h with
  | @call k c a inDoubt state hc hnot hanswers hstep =>
      intro r hr
      have hr : r ∈ σ.rowsAfter k c inDoubt a := hr
      rcases rowsAfter_cases hanswers with h | ⟨h, -⟩ | ⟨h, -⟩ <;> rw [h] at hr
      · exact hkeep r hr
      · rcases List.mem_append.mp hr with hr | hr
        · exact hkeep r hr
        · obtain rfl := List.mem_singleton.mp hr
          exact ⟨{ c with state }, List.getElem?_set_self (List.getElem?_eq_some_iff.mp hc).1,
            rfl, rfl⟩
      · obtain ⟨q, hq, rfl⟩ := List.mem_map.mp hr
        obtain ⟨d, hd, hsid, hfrom⟩ := hkeep q hq
        rw [q.mark_owner, q.mark_callSid]
        refine ⟨d, hd, hsid, hfrom.trans ?_⟩
        unfold SessionRow.mark
        split <;> rfl
  | _ => exact hkeep

/-- What holds of every call of the process, and of the rows of `call_sessions`. -/
structure CallsInv (σ : Server) : Prop where
  start : ∀ (k : Nat) (c : Call), σ.calls[k]? = some c → c.state.StartInv
  greet : ∀ (k : Nat) (c : Call), σ.calls[k]? = some c →
    CallOrchestrator.GreetInv c.cfg c.state
  owning : σ.Owning
  owned : σ.RowsOwned
  unique : (σ.rows.map (·.callSid)).Nodup

theorem unique_step {a : ServerAct} (hσ : (σ.rows.map (·.callSid)).Nodup)
    (h : Step synthesize σ a τ) : (τ.rows.map (·.callSid)).Nodup := by
  cases h with
  | call hc hstop hanswers hstep => exact unique_rowsAfter hanswers hσ
  | _ => exact hσ

theorem callsInv_run {max : Int} {gate : CallGate} (hinit : CallGate.init max = .ok gate)
    {tr : List (Server × ServerAct)} (h : (serverSys synthesize).Run { gate := { gate } } tr σ) :
    CallsInv σ where
  start k c hc := by
    obtain ⟨tr', hrun⟩ := calls_run hinit h k c hc
    exact CallOrchestrator.startInv_run hrun
  greet k c hc := by
    obtain ⟨tr', hrun⟩ := calls_run hinit h k c hc
    exact CallOrchestrator.greetInv_run hrun
  owning := by
    induction h with
    | nil => intro k c hc; simp at hc
    | snoc hrun hs ih => exact owning_step ih (step_cases hs)
  owned := by
    induction h with
    | nil => intro r hr; simp at hr
    | snoc hrun hs ih => exact rowsOwned_step ih (step_cases hs)
  unique := by
    induction h with
    | nil => exact List.nodup_nil
    | snoc hrun hs ih => exact unique_step ih (step_cases hs)

/-- Two rows of one `call_sid` are one row. -/
theorem CallsInv.eq_of_callSid (hσ : CallsInv σ) {r s : SessionRow} (hr : r ∈ σ.rows)
    (hs : s ∈ σ.rows) (hsid : r.callSid = s.callSid) : r = s :=
  List.inj_on_of_nodup_map hσ.unique hr hs hsid

theorem CallsInv.filter_callSid (hσ : CallsInv σ) {r : SessionRow} (hr : r ∈ σ.rows) :
    (σ.rows.filter fun q => q.callSid = r.callSid) = [r] := by
  have hnodup : (σ.rows.filter fun q => q.callSid = r.callSid).Nodup :=
    hσ.unique.of_map.filter _
  apply List.perm_singleton.mp
  refine (List.perm_ext_iff_of_nodup hnodup (List.nodup_singleton r)).mpr fun q => ?_
  rw [List.mem_filter, List.mem_singleton, decide_eq_true_eq]
  constructor
  · rintro ⟨hq, hsid⟩
    exact hσ.eq_of_callSid hq hr hsid
  · rintro rfl
    exact ⟨hr, rfl⟩

/-- What a step of the process adds to the log of a call; a call that is new has logged
nothing. -/
theorem logs_step {a : ServerAct} (hσ : CallsInv σ) (h : Step synthesize σ a τ) :
    ∀ (j : Nat) (d : Call), τ.calls[j]? = some d →
      (∃ c events, σ.calls[j]? = some c ∧ d.callSid = c.callSid ∧
        d.state.log = c.state.log ++ events ∧ ∀ e ∈ events, e.isOf (a.taskOf j)) ∨
      σ.calls.length ≤ j ∧ d.state.log = [] := by
  intro j d hd
  cases h with
  | constructs hstart hs hreceiving =>
      rcases getElem?_snoc_cases hd with hd | ⟨rfl, rfl⟩
      · exact .inl ⟨d, [], hd, rfl, (List.append_nil _).symm, List.forall_mem_nil _⟩
      · exact .inr ⟨Nat.le_refl _, rfl⟩
  | @stops _ i k s hno hs hloop hk hfailed =>
      obtain ⟨c, hc, rfl⟩ := getElem?_modify_cases hd
      refine .inl ⟨c, [], hc, ?_, ?_, List.forall_mem_nil _⟩
      · split <;> rfl
      · rw [List.append_nil]
        split
        · exact c.state.stop_log
        · rfl
  | @call k c a inDoubt state hc hnot hanswers hstep =>
      rcases getElem?_set_cases hd with ⟨rfl, rfl⟩ | ⟨hne, hd⟩
      · obtain ⟨events, hlog, hevents⟩ :=
          (CallOrchestrator.step_cases hstep).rows (hσ.greet k c hc)
        refine .inl ⟨c, events, hc, rfl, hlog, ?_⟩
        rw [ServerAct.taskOf, if_pos rfl]
        exact hevents
      · exact .inl ⟨d, [], hd, rfl, (List.append_nil _).symm, List.forall_mem_nil _⟩
  | _ => exact .inl ⟨d, [], hd, rfl, (List.append_nil _).symm, List.forall_mem_nil _⟩

end Server

namespace Database

variable {synthesize : Nat → Nat → String → List Bytes} {σ τ : Database} {e : DbAct}

theorem Step.server (h : Step synthesize σ e τ) :
    σ.server.step synthesize e.act = some τ.server := by
  cases h with
  | process hserver hother => exact hserver
  | task hserver hact htask hc hd hkey => exact hserver

/-- The process goes through the same steps without its database. -/
theorem database_refines (synthesize : Nat → Nat → String → List Bytes) :
    Simulation (databaseSys synthesize) (serverSys synthesize) (fun e => [e.act])
      (fun a => [a]) fun σ server => server = σ.server where
  init := by
    rintro σ ⟨max, gate, hinit, rfl⟩
    exact ⟨_, ⟨max, gate, hinit, rfl⟩, rfl⟩
  step := by
    rintro σ e τ server rfl hstep
    exact ⟨[(σ.server, e.act)], τ.server, .single (step_cases hstep).server, rfl, rfl⟩

/-- The rows that a task has stored, and then those it has added. -/
def written (σ : Database) (writer : Writer) : List DbRow :=
  σ.storedBy writer ++ σ.added writer

/-- The step is one in which a commit fails, and rows were added before it. -/
def loses (σ : Database) (e : DbAct) : Bool :=
  match e.act with
  | .call k a inDoubt =>
      match a.task? with
      | some t => !(a.returns || inDoubt) && !(σ.added (k, t)).isEmpty
      | none => false
  | _ => false

/-- What the tasks have written is in relation `R` to what their calls began to write. -/
structure Written (R : List DbRow → List DbRow → Prop) (σ : Database) : Prop where
  consumer : ∀ (k : Nat) (c : Call), σ.server.calls[k]? = some c →
    R (σ.written (k, .consumer)) (consumerRows c.callSid c.state.log)
  greeting : ∀ (k : Nat) (c : Call), σ.server.calls[k]? = some c →
    R (σ.written (k, .playback 0)) (greetingRows c.callSid c.state.log)
  others : ∀ k j, j ≠ 0 → σ.written (k, .playback j) = []
  fresh : ∀ k t, σ.server.calls.length ≤ k → σ.written (k, t) = []

/-- Looking up what a task has stored, after another one or itself has stored more. -/
theorem storedBy_append (server : Server) (added : Writer → List DbRow)
    (stored : List StoredRow) (writer w : Writer) (rows : List DbRow) (createdAt : Nat) :
    storedBy ⟨server, added, stored ++ rows.map fun row => ⟨writer, row, createdAt⟩⟩ w =
      storedBy ⟨server, added, stored⟩ w ++ if writer = w then rows else [] := by
  simp only [storedBy, List.filter_append, List.map_append]
  congr 1
  by_cases h : writer = w
  · rw [if_pos h, List.filter_eq_self.mpr, List.map_map]
    · exact List.map_id _
    · intro s hs
      obtain ⟨row, -, rfl⟩ := List.mem_map.mp hs
      simpa using h
  · rw [if_neg h, List.filter_eq_nil_iff.mpr, List.map_nil]
    intro s hs
    obtain ⟨row, -, rfl⟩ := List.mem_map.mp hs
    simpa using h

/-- A step writes nothing for a task that it does not resume. -/
theorem written_other (h : Step synthesize σ e τ) {w : Writer}
    (hne : e.act.taskOf w.1 ≠ some w.2) : τ.written w = σ.written w := by
  cases h with
  | process hserver hother => rfl
  | @task server k a inDoubt t c d hserver hact htask hc hd hkey =>
      have hw : w ≠ (k, t) := by
        rintro rfl
        rw [hact, ServerAct.taskOf, if_pos rfl] at hne
        exact hne htask
      show _ ++ Function.update σ.added (k, t) (c.begun d) w = _
      rw [written, Function.update_of_ne hw]
      congr 1
      split
      · rw [storedBy_append, if_neg hw.symm, List.append_nil]
        rfl
      · rw [List.append_nil]
        rfl

/-- The task that is resumed: its rows are stored or dropped, and new ones added. -/
theorem written_task (h : Step synthesize σ e τ) {k : Nat} {t : TaskRef}
    (htask : e.act.taskOf k = some t) :
    ∃ c d, σ.server.calls[k]? = some c ∧ τ.server.calls[k]? = some d ∧
      τ.written (k, t) =
        (if e.commits then σ.written (k, t) else σ.storedBy (k, t)) ++ c.begun d := by
  cases h with
  | process hserver hother =>
      obtain ⟨a, inDoubt, hact, ha⟩ := ServerAct.taskOf_eq_some htask
      rw [hother k a inDoubt hact] at ha
      cases ha
  | @task server j a inDoubt t' c d hserver hact ht hc hd hkey =>
      obtain ⟨a', inDoubt', hact', ha'⟩ := ServerAct.taskOf_eq_some htask
      obtain ⟨rfl, rfl, rfl⟩ := ServerAct.call.inj (hact.symm.trans hact')
      obtain rfl := Option.some.inj (ht.symm.trans ha')
      refine ⟨c, d, hc, hd, ?_⟩
      have hcommits : e.commits = (a.returns || inDoubt) := by
        rw [DbAct.commits, hact]
      show _ ++ Function.update σ.added (j, t') (c.begun d) (j, t') = _
      rw [Function.update_self, hcommits]
      congr 1
      split
      · rw [storedBy_append, if_pos rfl]
        rfl
      · rw [List.append_nil]
        rfl

/-- What is kept of what a task has written is still in relation to its log. -/
theorem kept {R : List DbRow → List DbRow → Prop}
    (hlost : σ.loses e = false ∨ ∀ xs ys zs, R (xs ++ ys) zs → R xs zs) {k : Nat} {t : TaskRef}
    (htask : e.act.taskOf k = some t) {zs : List DbRow} (hR : R (σ.written (k, t)) zs) :
    R (if e.commits then σ.written (k, t) else σ.storedBy (k, t)) zs := by
  by_cases hcommits : e.commits = true
  · rw [if_pos hcommits]
    exact hR
  · rw [if_neg hcommits]
    rcases hlost with hloses | hdrop
    · -- nothing was added that could be lost
      have hempty : σ.added (k, t) = [] := by
        obtain ⟨a, inDoubt, hact, ha⟩ := ServerAct.taskOf_eq_some htask
        simp only [DbAct.commits, hact, Bool.not_eq_true] at hcommits
        simp only [loses, hact, ha] at hloses
        rw [hcommits, Bool.not_false, Bool.true_and, Bool.not_eq_false'] at hloses
        exact List.isEmpty_iff.mp hloses
      rwa [written, hempty, List.append_nil] at hR
    · exact hdrop _ _ _ hR

theorem written_preserved {R : List DbRow → List DbRow → Prop} (hnil : R [] [])
    (happ : ∀ xs ys zs, R xs ys → R (xs ++ zs) (ys ++ zs))
    (hlost : σ.loses e = false ∨ ∀ xs ys zs, R (xs ++ ys) zs → R xs zs)
    (hcalls : σ.server.CallsInv) (hσ : σ.Written R) (h : Step synthesize σ e τ) :
    τ.Written R := by
  have hserver := Server.step_cases h.server
  -- a call that is new resumes no task
  have hnew : ∀ k t, σ.server.calls.length ≤ k → e.act.taskOf k ≠ some t := by
    intro k t hk htask
    obtain ⟨c, -, hc, -⟩ := written_task h htask
    have := (List.getElem?_eq_some_iff.mp hc).1
    omega
  refine ⟨?_, ?_, ?_, ?_⟩
  · intro k d hd
    rcases Server.logs_step hcalls hserver k d hd with
      ⟨c, events, hc, hsid, hlog, hevents⟩ | ⟨hk, hlog⟩
    · rw [hsid, hlog, consumerRows_append]
      by_cases htask : e.act.taskOf k = some .consumer
      · obtain ⟨c', d', hc', hd', hwritten⟩ := written_task h htask
        obtain rfl := Option.some.inj (hc.symm.trans hc')
        obtain rfl := Option.some.inj (hd.symm.trans hd')
        have hrows : consumerRows c.callSid events = rowsBegun c.callSid events :=
          (rows_of_consumer (htask ▸ hevents)).1
        rw [hwritten, Call.begun_of_log hlog, hrows]
        exact happ _ _ _ (kept hlost htask (hσ.consumer k c hc))
      · rw [written_other h htask, consumerRows_of_other htask hevents, List.append_nil]
        exact hσ.consumer k c hc
    · rw [written_other h (hnew k _ hk), hσ.fresh k _ hk, hlog]
      exact hnil
  · intro k d hd
    rcases Server.logs_step hcalls hserver k d hd with
      ⟨c, events, hc, hsid, hlog, hevents⟩ | ⟨hk, hlog⟩
    · rw [hsid, hlog, greetingRows_append]
      by_cases htask : e.act.taskOf k = some (.playback 0)
      · obtain ⟨c', d', hc', hd', hwritten⟩ := written_task h htask
        obtain rfl := Option.some.inj (hc.symm.trans hc')
        obtain rfl := Option.some.inj (hd.symm.trans hd')
        have hrows : greetingRows c.callSid events = rowsBegun c.callSid events :=
          (rows_of_playback (htask ▸ hevents)).2.1
        rw [hwritten, Call.begun_of_log hlog, hrows]
        exact happ _ _ _ (kept hlost htask (hσ.greeting k c hc))
      · rw [written_other h htask, greetingRows_of_other htask hevents, List.append_nil]
        exact hσ.greeting k c hc
    · rw [written_other h (hnew k _ hk), hσ.fresh k _ hk, hlog]
      exact hnil
  · intro k j hj
    have hold := hσ.others k j hj
    by_cases htask : e.act.taskOf k = some (.playback j)
    · obtain ⟨c, d, hc, hd, hwritten⟩ := written_task h htask
      have hstored := (List.append_eq_nil_iff.mp hold).1
      rw [hwritten, hold, hstored, ite_self]
      rcases Server.logs_step hcalls hserver k d hd with
        ⟨c', events, hc', -, hlog, hevents⟩ | ⟨hk, -⟩
      · obtain rfl := Option.some.inj (hc.symm.trans hc')
        rw [Call.begun_of_log hlog]
        exact (rows_of_playback (htask ▸ hevents)).2.2 hj
      · exact absurd htask (hnew k _ hk)
    · rw [written_other h htask]
      exact hold
  · intro k t hk
    have hlen := (Server.calls_step hserver).1
    rw [written_other h (hnew k t (by omega))]
    exact hσ.fresh k t (by omega)

/-! ## Runs of the process over its database -/

variable {max : Int} {gate : CallGate} {tr : List (Database × DbAct)}

/-- A row is stored for a call that has started. -/
def Started (σ : Database) : Prop :=
  ∀ s ∈ σ.stored, ∃ c, σ.server.calls[s.writer.1]? = some c ∧ c.state.startPc = .started

theorem started_step (hcalls : σ.server.CallsInv) (hσ : Started σ)
    (h : Step synthesize σ e τ) : Started τ := by
  have hlater : ∀ (k : Nat) (c : Call), σ.server.calls[k]? = some c →
      c.state.startPc = .started →
      ∃ d, τ.server.calls[k]? = some d ∧ d.state.startPc = .started := by
    intro k c hc hstarted
    obtain ⟨d, hd, -, -, hkeep⟩ := (Server.calls_step (Server.step_cases h.server)).2 k c hc
    exact ⟨d, hd, hkeep hstarted⟩
  cases h with
  | process hserver hother =>
      intro s hs
      obtain ⟨c, hc, hstarted⟩ := hσ s hs
      exact hlater _ c hc hstarted
  | @task server k a inDoubt t c d hserver hact htask hc hd hkey =>
      intro s hs
      rcases List.mem_append.mp hs with hs | hs
      · obtain ⟨c', hc', hstarted⟩ := hσ s hs
        exact hlater _ c' hc' hstarted
      · split at hs
        · obtain ⟨row, -, rfl⟩ := List.mem_map.mp hs
          obtain ⟨c', d', hc', -, -, hstep, -⟩ := exists_call (hact ▸ hserver)
          obtain rfl := Option.some.inj (hc.symm.trans hc')
          refine hlater k c hc ?_
          exact (CallOrchestrator.step_cases hstep).started_of_task (hcalls.start k c hc)
            (hcalls.greet k c hc) htask
        · cases hs

theorem server_run (h : (databaseSys synthesize).Run { server := { gate := { gate } } } tr σ) :
    ∃ tr', (serverSys synthesize).Run { gate := { gate } } tr' σ.server := by
  obtain ⟨tr', server, hrun, -, rfl⟩ := (database_refines synthesize).run rfl h
  exact ⟨tr', hrun⟩

theorem calls_of_run (hinit : CallGate.init max = .ok gate)
    (h : (databaseSys synthesize).Run { server := { gate := { gate } } } tr σ) :
    σ.server.CallsInv := by
  obtain ⟨tr', hrun⟩ := server_run h
  exact Server.callsInv_run hinit hrun

theorem started_run (hinit : CallGate.init max = .ok gate)
    (h : (databaseSys synthesize).Run { server := { gate := { gate } } } tr σ) : Started σ := by
  induction h with
  | nil => exact nofun
  | snoc hrun hs ih => exact started_step (calls_of_run hinit hrun) ih (step_cases hs)

theorem written_nil {R : List DbRow → List DbRow → Prop} :
    Written R { server := { gate := { gate } } } where
  consumer k c hc := by simp at hc
  greeting k c hc := by simp at hc
  others k j hj := rfl
  fresh k t hk := rfl

/-- In every run the rows written are among those begun, in order. -/
theorem written_run (hinit : CallGate.init max = .ok gate)
    (h : (databaseSys synthesize).Run { server := { gate := { gate } } } tr σ) :
    σ.Written List.Sublist := by
  induction h with
  | nil => exact written_nil
  | snoc hrun hs ih =>
      refine written_preserved (List.Sublist.refl _) (fun _ _ zs h => h.append_right zs) ?_
        (calls_of_run hinit hrun) ih (step_cases hs)
      exact .inr fun xs ys zs h => (List.sublist_append_left xs ys).trans h

/-- Where no commit fails they are all of them. -/
theorem written_all (hinit : CallGate.init max = .ok gate)
    (h : (databaseSys synthesize).Run { server := { gate := { gate } } } tr σ)
    (hkept : ∀ p ∈ tr, p.1.loses p.2 = false) : σ.Written Eq := by
  induction h with
  | nil => exact written_nil
  | @snoc tr ρ τ e hrun hs ih =>
      refine written_preserved rfl (fun _ _ zs h => congrArg (· ++ zs) h) ?_
        (calls_of_run hinit hrun) (ih fun p hp => hkept p (List.mem_append_left _ hp))
        (step_cases hs)
      exact .inl (hkept (ρ, e) (by simp))

/-- The foreign key of what a task has written is its call's `call_sid`. -/
theorem Written.callSid (hσ : σ.Written List.Sublist) {k : Nat} {t : TaskRef} {c : Call}
    {row : DbRow} (hc : σ.server.calls[k]? = some c) (hrow : row ∈ σ.written (k, t)) :
    row.callSid = c.callSid := by
  match t with
  | .consumer => exact callSid_of_mem_rowsBegun ((hσ.consumer k c hc).subset hrow)
  | .playback 0 => exact callSid_of_mem_rowsBegun ((hσ.greeting k c hc).subset hrow)
  | .playback (j + 1) =>
      rw [hσ.others k (j + 1) (Nat.succ_ne_zero j)] at hrow
      cases hrow

theorem mem_written {s : StoredRow} (hs : s ∈ σ.stored) : s.row ∈ σ.written s.writer := by
  refine List.mem_append_left _ (List.mem_map_of_mem (List.mem_filter.mpr ⟨hs, ?_⟩))
  exact decide_eq_true rfl

/-- The row of `call_sessions` that a stored row belongs to is its writer's. -/
theorem owner_of_stored (hinit : CallGate.init max = .ok gate)
    (h : (databaseSys synthesize).Run { server := { gate := { gate } } } tr σ) {s : StoredRow}
    (hs : s ∈ σ.stored) : ∃ c, σ.server.calls[s.writer.1]? = some c ∧
      s.row.callSid = c.callSid ∧
      ∃ r ∈ σ.server.rows, r.callSid = c.callSid ∧ r.owner = s.writer.1 := by
  obtain ⟨c, hc, hstarted⟩ := started_run hinit h s hs
  exact ⟨c, hc, (written_run hinit h).callSid hc (mem_written hs),
    (calls_of_run hinit h).owning _ c hc (.inr hstarted)⟩

/-- The rows stored for a call are those of its consumer and of its first playback. -/
theorem storedBy_perm (hσ : σ.Written List.Sublist) (k : Nat) :
    ((σ.stored.filter fun s => s.writer.1 = k).map (·.row)).Perm
      (σ.storedBy (k, .consumer) ++ σ.storedBy (k, .playback 0)) := by
  have hsplit := (List.filter_append_perm (fun s : StoredRow => s.writer = (k, .consumer))
    (σ.stored.filter fun s => s.writer.1 = k)).symm.map (·.row)
  rw [List.map_append, List.filter_filter, List.filter_filter] at hsplit
  have hconsumer : σ.stored.filter (fun s => decide (s.writer = (k, .consumer)) &&
      decide (s.writer.1 = k)) = σ.stored.filter fun s => s.writer = (k, .consumer) := by
    refine List.filter_congr fun s _ => ?_
    by_cases h : s.writer = (k, .consumer)
    · simp [h]
    · simp [h]
  have hplayback : σ.stored.filter (fun s => !decide (s.writer = (k, .consumer)) &&
      decide (s.writer.1 = k)) = σ.stored.filter fun s => s.writer = (k, .playback 0) := by
    refine List.filter_congr fun s hs => ?_
    have hmem := mem_written hs
    obtain ⟨⟨j, t⟩, row, createdAt⟩ := s
    match t with
    | .consumer => simp
    | .playback 0 => simp
    | .playback (i + 1) =>
        -- no other playback has stored a row
        rw [hσ.others j (i + 1) (Nat.succ_ne_zero i)] at hmem
        cases hmem
  rw [hconsumer, hplayback] at hsplit
  exact hsplit

/-- What is picked from the rows of a call is picked from those it began to write. -/
theorem picked_subperm {β : Type} (f : DbRow → Option β) (hσ : σ.Written List.Sublist)
    {k : Nat} {c : Call} (hc : σ.server.calls[k]? = some c) :
    (((σ.stored.filter fun s => s.writer.1 = k).map (·.row)).filterMap f).Subperm
      ((rowsBegun c.callSid c.state.log).filterMap f) := by
  have hconsumer : (σ.storedBy (k, .consumer)).Sublist (consumerRows c.callSid c.state.log) :=
    (List.sublist_append_left _ _).trans (hσ.consumer k c hc)
  have hgreeting : (σ.storedBy (k, .playback 0)).Sublist (greetingRows c.callSid c.state.log) :=
    (List.sublist_append_left _ _).trans (hσ.greeting k c hc)
  have hstored := (storedBy_perm hσ k).filterMap f
  have hsub := ((hconsumer.append hgreeting).filterMap f).subperm
  exact (hstored.subperm_right.mpr hsub).trans (rowsBegun_perm.filterMap f).subperm

/-- Where no commit failed and nothing is added, they are all of them. -/
theorem picked_perm {β : Type} (f : DbRow → Option β) (hσ : σ.Written List.Sublist)
    (hall : σ.Written Eq) {k : Nat} {c : Call} (hc : σ.server.calls[k]? = some c)
    (hadded : ∀ t, σ.added (k, t) = []) :
    (((σ.stored.filter fun s => s.writer.1 = k).map (·.row)).filterMap f).Perm
      ((rowsBegun c.callSid c.state.log).filterMap f) := by
  have hconsumer : σ.storedBy (k, .consumer) = consumerRows c.callSid c.state.log := by
    rw [← hall.consumer k c hc, written, hadded, List.append_nil]
  have hgreeting : σ.storedBy (k, .playback 0) = greetingRows c.callSid c.state.log := by
    rw [← hall.greeting k c hc, written, hadded, List.append_nil]
  have hstored := storedBy_perm hσ k
  rw [hconsumer, hgreeting] at hstored
  exact (hstored.trans rowsBegun_perm).filterMap f

/-- The foreign key of what is added is there: its call has started, so its `create` has
returned. -/
theorem hasRow_of_added (hcalls : σ.server.CallsInv) (hσ : σ.Written List.Sublist) {k : Nat}
    {t : TaskRef} {c : Call} {row : DbRow} (hc : σ.server.calls[k]? = some c)
    (hstarted : c.state.startPc = .started) (hrow : row ∈ σ.added (k, t)) :
    σ.server.hasRow row.callSid = true := by
  obtain ⟨r, hr, hsid, -⟩ := hcalls.owning k c hc (.inr hstarted)
  rw [hσ.callSid hc (List.mem_append_right _ hrow), ← hsid]
  exact List.any_eq_true.mpr ⟨r, hr, beq_self_eq_true _⟩

/-- The database allows every step of the process. -/
theorem exists_step (hcalls : σ.server.CallsInv) (hσ : σ.Written List.Sublist)
    {server : Server} (hserver : σ.server.step synthesize e.act = some server) :
    ∃ τ, (databaseSys synthesize).step σ e = some τ ∧ τ.server = server := by
  show ∃ τ, (σ.server.step synthesize e.act).bind _ = some τ ∧ _
  rw [hserver, Option.bind_some]
  cases hact : e.act with
  | call k a inDoubt =>
      obtain ⟨c, d, hc, hd, -, hstep, -⟩ := exists_call (hact ▸ hserver)
      simp only [hc, hd]
      cases htask : a.task? with
      | none => exact ⟨_, rfl, rfl⟩
      | some t =>
          have hstarted := (CallOrchestrator.step_cases hstep).started_of_task
            (hcalls.start k c hc) (hcalls.greet k c hc) htask
          have hkeys : ((σ.added (k, t)).any fun row => !σ.server.hasRow row.callSid) = false := by
            refine List.any_eq_false.mpr fun row hrow => ?_
            rw [hasRow_of_added hcalls hσ hc hstarted hrow]
            exact Bool.false_ne_true
          simp only [resumeTask, hkeys, Bool.and_false]
          exact ⟨_, rfl, rfl⟩
  | _ => exact ⟨_, rfl, rfl⟩

/-- The rows of one `call_sid` are those of the call that owns it. -/
theorem filter_callSid (hinit : CallGate.init max = .ok gate)
    (h : (databaseSys synthesize).Run { server := { gate := { gate } } } tr σ) {r : SessionRow}
    (hr : r ∈ σ.server.rows) :
    (σ.stored.filter fun s => s.row.callSid = r.callSid) =
      σ.stored.filter fun s => s.writer.1 = r.owner := by
  have hcalls := calls_of_run hinit h
  refine List.filter_congr fun s hs => decide_eq_decide.mpr ?_
  obtain ⟨c, hc, hsid, q, hq, hqsid, howner⟩ := owner_of_stored hinit h hs
  constructor
  · intro heq
    rw [← howner, hcalls.eq_of_callSid hq hr (hqsid.trans (hsid.symm.trans heq))]
  · intro heq
    obtain ⟨d, hd, hdsid, -⟩ := hcalls.owned r hr
    rw [← heq] at hd
    obtain rfl := Option.some.inj (hc.symm.trans hd)
    exact hsid.trans hdsid

/-- What is read of a row that is there. -/
theorem replay_row (hinit : CallGate.init max = .ok gate)
    (h : (databaseSys synthesize).Run { server := { gate := { gate } } } tr σ) {r : SessionRow}
    (hr : r ∈ σ.server.rows) :
    ∃ c session, σ.server.calls[r.owner]? = some c ∧
      σ.getWithTurns r.callSid = .ok (some session) ∧
      session.callSid = c.callSid ∧ session.fromNumber = c.fromNumber ∧
      session.ended = r.ended ∧
      session.turns.Subperm ((rowsBegun r.callSid c.state.log).filterMap DbRow.turn?) ∧
      session.toolCalls.Subperm ((rowsBegun r.callSid c.state.log).filterMap DbRow.toolCall?) ∧
      ((∀ p ∈ tr, p.1.loses p.2 = false) → (∀ t, σ.added (r.owner, t) = []) →
        session.turns.Perm ((rowsBegun r.callSid c.state.log).filterMap DbRow.turn?) ∧
        session.toolCalls.Perm ((rowsBegun r.callSid c.state.log).filterMap DbRow.toolCall?)) := by
  have hcalls := calls_of_run hinit h
  have hwritten := written_run hinit h
  obtain ⟨c, hc, hsid, hfrom⟩ := hcalls.owned r hr
  have hordered : (σ.ordered r.callSid).Perm
      ((σ.stored.filter fun s => s.writer.1 = r.owner).map (·.row)) := by
    rw [ordered, filter_callSid hinit h hr]
    exact (List.mergeSort_perm _ _).map _
  have hamong : ∀ {β : Type} (f : DbRow → Option β), ((σ.ordered r.callSid).filterMap f).Subperm
      ((rowsBegun r.callSid c.state.log).filterMap f) := by
    intro β f
    have hpicked := picked_subperm f hwritten hc
    rw [hsid] at hpicked
    exact (hordered.filterMap f).subperm.trans hpicked
  have hall : (∀ p ∈ tr, p.1.loses p.2 = false) → (∀ t, σ.added (r.owner, t) = []) →
      ∀ {β : Type} (f : DbRow → Option β), ((σ.ordered r.callSid).filterMap f).Perm
        ((rowsBegun r.callSid c.state.log).filterMap f) := by
    intro hkept hadded β f
    have hpicked := picked_perm f hwritten (written_all hinit h hkept) hc hadded
    rw [hsid] at hpicked
    exact (hordered.filterMap f).trans hpicked
  refine ⟨c, ⟨r.callSid, r.fromNumber, r.ended, (σ.ordered r.callSid).filterMap DbRow.turn?,
    (σ.ordered r.callSid).filterMap DbRow.toolCall?⟩, hc, ?_, hsid.symm, hfrom.symm, rfl,
    hamong _, hamong _, fun hkept hadded => ⟨hall hkept hadded _, hall hkept hadded _⟩⟩
  rw [getWithTurns, hcalls.filter_callSid hr]

end Database

open Database

/-- **Rows of a call.** In every run of the process a stored turn or tool call belongs
to the session of the call that wrote it: two calls never write under one `call_sid`,
also where their start frames carry the same. And the foreign key never refuses a
commit: every step of the process is one that its database allows. -/
theorem rows_isolated {synthesize : Nat → Nat → String → List Bytes} {max : Int}
    {gate : CallGate} (hinit : CallGate.init max = .ok gate) {tr : List (Database × DbAct)}
    {σ : Database}
    (hrun : (databaseSys synthesize).Run { server := { gate := { gate } } } tr σ) :
    (∀ s ∈ σ.stored, ∃ c, σ.server.calls[s.writer.1]? = some c ∧ s.row.callSid = c.callSid ∧
      ∃ r ∈ σ.server.rows, r.callSid = c.callSid ∧ r.owner = s.writer.1) ∧
    (∀ s ∈ σ.stored, ∀ s' ∈ σ.stored, s.row.callSid = s'.row.callSid →
      s.writer.1 = s'.writer.1) ∧
    ∀ e server, σ.server.step synthesize e.act = some server →
      ∃ τ, (databaseSys synthesize).step σ e = some τ ∧ τ.server = server := by
  have hcalls := calls_of_run hinit hrun
  refine ⟨fun s hs => owner_of_stored hinit hrun hs, ?_, ?_⟩
  · intro s hs s' hs' hsid
    obtain ⟨c, -, hrow, r, hr, hrsid, howner⟩ := owner_of_stored hinit hrun hs
    obtain ⟨c', -, hrow', r', hr', hrsid', howner'⟩ := owner_of_stored hinit hrun hs'
    have hsame : r = r' := by
      apply hcalls.eq_of_callSid hr hr'
      rw [hrsid, hrsid', ← hrow, ← hrow', hsid]
    rw [← howner, ← howner', hsame]
  · intro e server hserver
    exact exists_step hcalls (written_run hinit hrun) hserver

theorem get_path (σ : Database) (select : Outcome) (callSid : PathParam) :
    σ.get select callSid.path = some (σ.getCallSession select callSid) := by
  rw [Database.get, matchCallSid_eq_some.mpr rfl]
  rfl

/-- **Replay.** The route answers the paths of one segment after `/sessions/`: with 500
where the select raises, and else with 404 exactly where there is no row of that
`call_sid`. Otherwise it shows the number the owner of the row was called from, and turns
and tool calls that the owner began to write, none of another call; all of them where no
commit has failed and none is awaited. -/
theorem replay_session {synthesize : Nat → Nat → String → List Bytes} {max : Int}
    {gate : CallGate} (hinit : CallGate.init max = .ok gate) {tr : List (Database × DbAct)}
    {σ : Database}
    (hrun : (databaseSys synthesize).Run { server := { gate := { gate } } } tr σ) :
    (∀ select path, (σ.get select path).isSome = true ↔ ∃ callSid : PathParam,
      path = callSid.path) ∧
    ∀ callSid : PathParam,
      σ.get .raises callSid.path = some (.error ⟨500, "internal_error"⟩) ∧
      ((∀ r ∈ σ.server.rows, r.callSid ≠ callSid.value) ∧
          σ.get .returns callSid.path = some (.error ⟨404, "session not found"⟩) ∨
        ∃ r ∈ σ.server.rows, ∃ c session, r.callSid = callSid.value ∧
          σ.server.calls[r.owner]? = some c ∧
          σ.get .returns callSid.path = some (.ok session) ∧
          session.callSid = c.callSid ∧ session.fromNumber = c.fromNumber ∧
          session.ended = r.ended ∧
          session.turns.Subperm
            ((rowsBegun callSid.value c.state.log).filterMap DbRow.turn?) ∧
          session.toolCalls.Subperm
            ((rowsBegun callSid.value c.state.log).filterMap DbRow.toolCall?) ∧
          ((∀ p ∈ tr, p.1.loses p.2 = false) → (∀ t, σ.added (r.owner, t) = []) →
            session.turns.Perm
              ((rowsBegun callSid.value c.state.log).filterMap DbRow.turn?) ∧
            session.toolCalls.Perm
              ((rowsBegun callSid.value c.state.log).filterMap DbRow.toolCall?))) := by
  constructor
  · intro select path
    rw [Database.get, Option.isSome_map, Option.isSome_iff_exists]
    exact exists_congr fun callSid => matchCallSid_eq_some
  intro callSid
  refine ⟨get_path σ .raises callSid, ?_⟩
  rw [get_path]
  have hcalls := calls_of_run hinit hrun
  by_cases hrow : ∃ r ∈ σ.server.rows, r.callSid = callSid.value
  · obtain ⟨r, hr, hvalue⟩ := hrow
    obtain ⟨c, session, hc, hsession, hshown⟩ := replay_row hinit hrun hr
    rw [hvalue] at hsession hshown
    refine .inr ⟨r, hr, c, session, hvalue, hc, ?_, hshown⟩
    rw [getCallSession, hsession]
  · have hnone : ∀ r ∈ σ.server.rows, r.callSid ≠ callSid.value :=
      fun r hr h => hrow ⟨r, hr, h⟩
    refine .inl ⟨hnone, ?_⟩
    rw [getCallSession, getWithTurns, List.filter_eq_nil_iff.mpr]
    intro r hr
    simpa using hnone r hr

/-- Two browser sockets without a `session_id`: the second call fails to start, the
greeting of the first is spoken to its end and stored. -/
def twoSocketsActs : List DbAct :=
  let frame : Received := .json (.dict [("type", .str "start")])
  let acts : List ServerAct := [.connect .webrtc, .connect .webrtc, .receive 0 frame,
    .call 0 (.starting .returns), .call 0 (.starting .returns), .call 0 (.starting .returns),
    .startDone 0, .receive 1 frame, .call 1 (.starting .returns), .call 1 (.starting .raises),
    .startDone 1, .call 0 (.playback 0 (.outcome .returns)),
    .call 0 (.playback 0 (.outcome .returns)), .call 0 (.playback 0 (.outcome .returns)),
    .call 0 (.playback 0 (.outcome .returns))]
  acts.map fun act => { act }

theorem rows_isolated_two_sockets :
    ∃ tr σ, (databaseSys fun _ _ _ => []).Run
        { server := { gate := { gate := ⟨{ value := 2 }, 2, 0, false⟩ } } } tr σ ∧
      σ.server.calls.length = 2 ∧ σ.stored.length = 1 ∧
      ∀ s ∈ σ.stored, ∀ s' ∈ σ.stored, s.row.callSid = s'.row.callSid →
        s.writer.1 = s'.writer.1 := by
  let start : Database := { server := { gate := { gate := ⟨{ value := 2 }, 2, 0, false⟩ } } }
  have hrun : (databaseSys fun _ _ _ => []).Run start
      ((databaseSys fun _ _ _ => []).trace start twoSocketsActs) _ :=
    TSys.Run.exec twoSocketsActs (by decide +kernel)
  have hinit : CallGate.init 2 = .ok ⟨{ value := 2 }, 2, 0, false⟩ := rfl
  exact ⟨_, _, hrun, by decide +kernel, by decide +kernel, (rows_isolated hinit hrun).2.1⟩

theorem replay_session_two_sockets :
    let webrtc : PathParam := ⟨"webrtc", by decide, by decide +kernel⟩
    ∃ tr σ, (databaseSys fun _ _ _ => []).Run
        { server := { gate := { gate := ⟨{ value := 2 }, 2, 0, false⟩ } } } tr σ ∧
      ((σ.getCallSession .returns webrtc).toOption.map fun session => session.turns.length) =
        some 1 ∧
      ∃ r ∈ σ.server.rows, ∃ c session, σ.server.calls[r.owner]? = some c ∧
        σ.get .returns webrtc.path = some (.ok session) ∧
        session.fromNumber = c.fromNumber := by
  intro webrtc
  let start : Database := { server := { gate := { gate := ⟨{ value := 2 }, 2, 0, false⟩ } } }
  have hrun : (databaseSys fun _ _ _ => []).Run start
      ((databaseSys fun _ _ _ => []).trace start twoSocketsActs) _ :=
    TSys.Run.exec twoSocketsActs (by decide +kernel)
  have hinit : CallGate.init 2 = .ok ⟨{ value := 2 }, 2, 0, false⟩ := rfl
  refine ⟨_, _, hrun, by decide +kernel, ?_⟩
  rcases ((replay_session hinit hrun).2 webrtc).2 with
    ⟨hnone, -⟩ | ⟨r, hr, c, session, -, hc, hsession, -, hfrom, -⟩
  · exact absurd hnone (by decide +kernel)
  · exact ⟨r, hr, c, session, hc, hsession, hfrom⟩

end VoiceAgent
