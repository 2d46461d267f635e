import Mathlib.Data.List.Nodup
import VoiceAgent.Logic.ServerSteps

/-!
# Whose row `stop()` ends

`mark_ended` finds its row by `callSid`, and `stop()` calls it whether `start()`
got as far as inserting one or not. A call that shares its `callSid` with
another is harmless only once it cannot find the other's row any more: its
`stop()` is past the select, or the row is its own and its `stop()` called.
-/

namespace VoiceAgent

open Lib Lib.TSys

/-- `stop()` was called. -/
def Call.stopCalled (c : Call) : Bool := c.state.stopPc != .notCalled

theorem Call.stopCalled_iff (c : Call) : c.stopCalled = true ↔ 0 < c.state.stopPc.rank := by
  unfold Call.stopCalled
  cases c.state.stopPc <;> simp [StopPc.rank]

/-- The same call later on. -/
structure Call.Later (c d : Call) : Prop where
  callSid : d.callSid = c.callSid
  rank : c.state.stopPc.rank ≤ d.state.stopPc.rank

theorem Call.Later.stopCalled {c d : Call} (h : c.Later d) (hc : c.stopCalled = true) :
    d.stopCalled = true :=
  d.stopCalled_iff.mpr (Nat.lt_of_lt_of_le (c.stopCalled_iff.mp hc) h.rank)

theorem Call.later_stop (c : Call) : c.Later c.stop := by
  refine ⟨rfl, ?_⟩
  rcases c.state.stop_cases with ⟨-, h⟩ | ⟨h, -⟩
  · exact Nat.le_of_eq (by rw [Call.stop, h])
  · rw [h]
    exact Nat.zero_le _

/-- A row once `mark_ended` has written those of a `callSid`. -/
def SessionRow.mark (callSid : String) (r : SessionRow) : SessionRow :=
  if r.callSid = callSid then { r with ended := true } else r

theorem SessionRow.mark_callSid (r : SessionRow) (callSid : String) :
    (r.mark callSid).callSid = r.callSid := by
  unfold SessionRow.mark
  split <;> rfl

theorem SessionRow.mark_owner (r : SessionRow) (callSid : String) :
    (r.mark callSid).owner = r.owner := by
  unfold SessionRow.mark
  split <;> rfl

namespace Server

variable {synthesize : Nat → Nat → String → List Bytes} {σ τ : Server}

/-- The k-th call has inserted a row. -/
def ownsRow (σ : Server) (k : Nat) : Bool := σ.rows.any fun r => r.owner == k

/-- The k-th call, `c`, and a later call with its `callSid` cannot end each
other's row too early: its `mark_ended` is past the select, or the row of that
`callSid` is its own and its `stop()` was called. -/
def settled (σ : Server) (k : Nat) (c : Call) : Bool :=
  decide (StopPc.rank .committing ≤ c.state.stopPc.rank) || (c.stopCalled && σ.ownsRow k)

/-- The step's start frame carries the `callSid` of a call that is not settled. -/
def clashes (σ : Server) (a : ServerAct) : Bool :=
  match σ.startFrame? a with
  | some (_, frame) =>
      σ.calls.zipIdx.any fun p => p.1.callSid == frame.callSid && !σ.settled p.2 p.1
  | none => false

theorem stopCalled_of_settled {k : Nat} {c : Call} (h : σ.settled k c = true) :
    c.stopCalled = true := by
  rw [settled, Bool.or_eq_true, Bool.and_eq_true, decide_eq_true_eq] at h
  rcases h with h | ⟨h, -⟩
  · exact c.stopCalled_iff.mpr (Nat.lt_of_lt_of_le (by decide) h)
  · exact h

theorem settled_of_not_clashes {a : ServerAct} {i k : Nat} {frame : StartFrame} {c : Call}
    (hstart : σ.startFrame? a = some (i, frame)) (hno : ¬ σ.clashes a)
    (hc : σ.calls[k]? = some c) (hsid : c.callSid = frame.callSid) : σ.settled k c = true := by
  rw [clashes, hstart, List.any_eq_true, not_exists] at hno
  have hmem : (c, k) ∈ σ.calls.zipIdx := List.mk_mem_zipIdx_iff_getElem?.mpr hc
  by_contra hnot
  refine hno (c, k) ⟨hmem, ?_⟩
  rw [Bool.not_eq_true] at hnot
  show (c.callSid == frame.callSid && !σ.settled k c) = true
  rw [hnot, hsid, beq_self_eq_true]
  rfl

/-- What holds between the rows and the calls. -/
structure RowInv (σ : Server) : Prop where
  owner : ∀ r ∈ σ.rows, ∃ c, σ.calls[r.owner]? = some c ∧ c.callSid = r.callSid ∧
    (r.ended = true → c.stopCalled = true)
  unique : (σ.rows.map (·.callSid)).Nodup
  settled : ∀ (j k : Nat) (c d : Call), σ.calls[j]? = some c → σ.calls[k]? = some d → j < k →
    c.callSid = d.callSid → σ.settled j c = true
  marking : ∀ (k : Nat) (c : Call), σ.calls[k]? = some c → c.state.stopPc = .committing →
    ∃ r ∈ σ.rows, r.callSid = c.callSid ∧
      ∃ d, σ.calls[r.owner]? = some d ∧ d.stopCalled = true

theorem RowInv.eq_of_callSid (hσ : RowInv σ) {r s : SessionRow} (hr : r ∈ σ.rows)
    (hs : s ∈ σ.rows) (hsid : r.callSid = s.callSid) : r = s :=
  List.inj_on_of_nodup_map hσ.unique hr hs hsid

/-- A step that constructs no call takes every call to a later state of itself
and no row away. -/
structure Evolves (σ τ : Server) : Prop where
  calls : ∀ (k : Nat) (c : Call), σ.calls[k]? = some c → ∃ d, τ.calls[k]? = some d ∧ c.Later d
  calls' : ∀ (k : Nat) (d : Call), τ.calls[k]? = some d → ∃ c, σ.calls[k]? = some c ∧ c.Later d
  rows : ∀ r ∈ σ.rows, ∃ s ∈ τ.rows, s.callSid = r.callSid ∧ s.owner = r.owner

theorem Evolves.settled (h : Evolves σ τ) {k : Nat} {c d : Call} (hcd : c.Later d)
    (hc : σ.settled k c = true) : τ.settled k d = true := by
  rw [Server.settled, Bool.or_eq_true, Bool.and_eq_true, decide_eq_true_eq] at hc ⊢
  rcases hc with hrank | ⟨hcalled, howns⟩
  · exact .inl (Nat.le_trans hrank hcd.rank)
  · refine .inr ⟨hcd.stopCalled hcalled, ?_⟩
    obtain ⟨r, hr, hk⟩ := List.any_eq_true.mp howns
    obtain ⟨s, hs, -, howner⟩ := h.rows r hr
    exact List.any_eq_true.mpr ⟨s, hs, by rw [howner]; exact hk⟩

theorem Evolves.settledAll (h : Evolves σ τ) (hσ : RowInv σ) (j k : Nat) (c d : Call)
    (hc : τ.calls[j]? = some c) (hd : τ.calls[k]? = some d) (hjk : j < k)
    (hsid : c.callSid = d.callSid) : τ.settled j c = true := by
  obtain ⟨c₀, hc₀, hcl⟩ := h.calls' j c hc
  obtain ⟨d₀, hd₀, hdl⟩ := h.calls' k d hd
  refine h.settled hcl (hσ.settled j k c₀ d₀ hc₀ hd₀ hjk ?_)
  rw [← hcl.callSid, ← hdl.callSid, hsid]

/-- A row found, with an owner that is being stopped, stays so. -/
theorem Evolves.marked (h : Evolves σ τ) {sid : String}
    (hr : ∃ r ∈ σ.rows, r.callSid = sid ∧ ∃ d, σ.calls[r.owner]? = some d ∧ d.stopCalled = true) :
    ∃ r ∈ τ.rows, r.callSid = sid ∧ ∃ d, τ.calls[r.owner]? = some d ∧ d.stopCalled = true := by
  obtain ⟨r, hr, hsid, d, hd, hcalled⟩ := hr
  obtain ⟨s, hs, hssid, howner⟩ := h.rows r hr
  obtain ⟨d', hd', hlater⟩ := h.calls r.owner d hd
  exact ⟨s, hs, hssid.trans hsid, d', howner ▸ hd', hlater.stopCalled hcalled⟩

/-- The owner of the row that `mark_ended` finds is being stopped. -/
theorem RowInv.found (hσ : RowInv σ) {k : Nat} {c : Call} (hc : σ.calls[k]? = some c)
    (hpc : c.state.stopPc = .selecting) (hrow : σ.hasRow c.callSid = true) :
    ∃ r ∈ σ.rows, r.callSid = c.callSid ∧
      ∃ d, σ.calls[r.owner]? = some d ∧ d.stopCalled = true := by
  obtain ⟨r, hr, hsid⟩ := List.any_eq_true.mp hrow
  rw [beq_iff_eq] at hsid
  obtain ⟨d, hd, hdsid, -⟩ := hσ.owner r hr
  refine ⟨r, hr, hsid, d, hd, ?_⟩
  have hcalled : c.stopCalled = true := by rw [Call.stopCalled, hpc]; rfl
  rcases Nat.lt_trichotomy r.owner k with hlt | heq | hgt
  · -- an earlier call's row: that call is settled
    exact stopCalled_of_settled (hσ.settled _ _ d c hd hc hlt (hdsid.trans hsid))
  · rw [heq] at hd
    obtain rfl := Option.some.inj (hc.symm.trans hd)
    exact hcalled
  · -- a later call's row: it would be the settled earlier call's own
    have hset := hσ.settled _ _ c d hc hd hgt (hdsid.trans hsid).symm
    rw [Server.settled, hpc, Bool.or_eq_true, Bool.and_eq_true] at hset
    rcases hset with h | ⟨-, howns⟩
    · cases h
    · obtain ⟨s, hs, hk⟩ := List.any_eq_true.mp howns
      rw [beq_iff_eq] at hk
      obtain ⟨e, he, hesid, -⟩ := hσ.owner s hs
      rw [hk] at he
      obtain rfl := Option.some.inj (hc.symm.trans he)
      obtain rfl := hσ.eq_of_callSid hr hs (hsid.trans hesid)
      omega

/-- The invariant after a step that constructs no call: what is left to show is
about rows that the step has touched and calls that have just found one. -/
theorem RowInv.evolve (hσ : RowInv σ) (h : Evolves σ τ)
    (hended : ∀ r ∈ τ.rows, (∃ q ∈ σ.rows, q.callSid = r.callSid ∧ q.owner = r.owner ∧
        (r.ended = true → q.ended = true ∨
          ∃ c, σ.calls[q.owner]? = some c ∧ c.stopCalled = true)) ∨
      (r.ended = false ∧ ∃ c, σ.calls[r.owner]? = some c ∧ c.callSid = r.callSid))
    (hunique : (τ.rows.map (·.callSid)).Nodup)
    (hmarking : ∀ (k : Nat) (c d : Call), σ.calls[k]? = some c → τ.calls[k]? = some d →
      d.state.stopPc = .committing → c.state.stopPc = .committing ∨
        ∃ r ∈ σ.rows, r.callSid = c.callSid ∧
          ∃ d, σ.calls[r.owner]? = some d ∧ d.stopCalled = true) : RowInv τ where
  owner r hr := by
    rcases hended r hr with ⟨q, hq, hsid, howner, hmark⟩ | ⟨hnot, c, hc, hsid⟩
    · obtain ⟨c, hc, hcsid, hcalled⟩ := hσ.owner q hq
      obtain ⟨d, hd, hlater⟩ := h.calls q.owner c hc
      rw [howner] at hd
      refine ⟨d, hd, (hlater.callSid.trans hcsid).trans hsid, fun hr => ?_⟩
      rcases hmark hr with hq | ⟨c', hc', hcalled'⟩
      · exact hlater.stopCalled (hcalled hq)
      · obtain rfl := Option.some.inj (hc.symm.trans hc')
        exact hlater.stopCalled hcalled'
    · obtain ⟨d, hd, hlater⟩ := h.calls r.owner c hc
      refine ⟨d, hd, hlater.callSid.trans hsid, fun hr => ?_⟩
      rw [hnot] at hr
      cases hr
  unique := hunique
  settled := h.settledAll hσ
  marking k d hd hpc := by
    obtain ⟨c, hc, hlater⟩ := h.calls' k d hd
    rw [hlater.callSid]
    rcases hmarking k c d hc hd hpc with hcpc | hfound
    · exact h.marked (hσ.marking k c hc hcpc)
    · exact h.marked hfound

theorem rowInv_constructs {i : Nat} {s : Session} {msg : PyVal} {frame : StartFrame}
    (hσ : RowInv σ) (hstart : σ.startFrame? (.receive i (.json msg)) = some (i, frame))
    (hno : ¬ σ.clashes (.receive i (.json msg))) : RowInv (σ.construct synthesize i s frame) where
  owner r hr := by
    obtain ⟨c, hc, h⟩ := hσ.owner r hr
    exact ⟨c, (List.getElem?_append_left (List.getElem?_eq_some_iff.mp hc).1).trans hc, h⟩
  unique := hσ.unique
  settled j k c d hc hd hjk hsid := by
    rcases getElem?_snoc_cases hd with hd | ⟨rfl, rfl⟩
    · have hlt := (List.getElem?_eq_some_iff.mp hd).1
      rcases getElem?_snoc_cases hc with hc | ⟨rfl, -⟩
      · exact hσ.settled j k c d hc hd hjk hsid
      · omega
    · rcases getElem?_snoc_cases hc with hc | ⟨rfl, -⟩
      · -- the new call against an older one: this is what the condition is for
        have hset : σ.settled j c = true := settled_of_not_clashes hstart hno hc hsid
        exact hset
      · omega
  marking k c hc hpc := by
    rcases getElem?_snoc_cases hc with hc | ⟨-, rfl⟩
    · obtain ⟨r, hr, hsid, d, hd, hcalled⟩ := hσ.marking k c hc hpc
      exact ⟨r, hr, hsid, d,
        (List.getElem?_append_left (List.getElem?_eq_some_iff.mp hd).1).trans hd, hcalled⟩
    · cases hpc

theorem rowInv_stops {i k : Nat} {s : Session} (hσ : RowInv σ) :
    RowInv { σ.put i s with calls := σ.calls.modify k Call.stop } := by
  have hlookup : ∀ (j : Nat) (c : Call), σ.calls[j]? = some c →
      (σ.calls.modify k Call.stop)[j]? = some (if k = j then c.stop else c) := by
    intro j c hc
    rw [List.getElem?_modify, hc]
    rfl
  have hlater : ∀ (j : Nat) (c : Call), c.Later (if k = j then c.stop else c) := by
    intro j c
    split
    · exact c.later_stop
    · exact ⟨rfl, Nat.le_refl _⟩
  refine hσ.evolve ⟨?_, ?_, ?_⟩ ?_ hσ.unique ?_
  · intro j c hc
    exact ⟨_, hlookup j c hc, hlater j c⟩
  · intro j d hd
    obtain ⟨c, hc, rfl⟩ := getElem?_modify_cases hd
    exact ⟨c, hc, hlater j c⟩
  · intro r hr
    exact ⟨r, hr, rfl, rfl⟩
  · intro r hr
    exact .inl ⟨r, hr, rfl, rfl, .inl⟩
  · intro j c d hc hd hpc
    refine .inl ?_
    obtain rfl := Option.some.inj ((hlookup j c hc).symm.trans hd)
    split at hpc
    · -- a call of `stop()` ends before the first await of `mark_ended`
      rcases c.state.stop_cases with ⟨-, h⟩ | ⟨-, h⟩
      · rw [Call.stop, h] at hpc
        exact hpc
      · rw [show c.state.stop.stopPc = .committing from hpc] at h
        rcases h with h | h <;> cases h
    · exact hpc

/-- The rows after a step of a call: the same, one more, or one marked. -/
theorem rowsAfter_cases {k : Nat} {c : Call} {inDoubt : Bool} {a : CallAct}
    (hanswers : σ.answers c a = true) :
    σ.rowsAfter k c inDoubt a = σ.rows ∨
    (σ.rowsAfter k c inDoubt a =
        σ.rows ++ [{ callSid := c.callSid, fromNumber := c.fromNumber, owner := k }] ∧
      σ.hasRow c.callSid = false) ∨
    (σ.rowsAfter k c inDoubt a = σ.rows.map (SessionRow.mark c.callSid) ∧
      c.state.stopPc = .committing) := by
  unfold rowsAfter
  split
  · split
    · -- an insert that is carried out has found no row of that key
      rename_i hinserts
      refine .inr (.inl ⟨rfl, ?_⟩)
      obtain ⟨hpc, rfl | ⟨-, hnone⟩⟩ := hinserts
      · rw [answers, hpc] at hanswers
        simpa using hanswers
      · rwa [Bool.not_eq_true'] at hnone
    · exact .inl rfl
  · split
    · rename_i hmarks
      exact .inr (.inr ⟨rfl, hmarks.1⟩)
    · exact .inl rfl
  · exact .inl rfl

theorem evolves_call {k : Nat} {c : Call} {inDoubt : Bool} {a : CallAct}
    {state : CallOrchestrator}
    (hc : σ.calls[k]? = some c) (hanswers : σ.answers c a = true)
    (hs : CallOrchestrator.Step c.cfg c.state a state) :
    Evolves σ
      { σ with calls := σ.calls.set k { c with state }, rows := σ.rowsAfter k c inDoubt a } := by
  have hlater : c.Later { c with state } := ⟨rfl, CallOrchestrator.rank_step hs⟩
  refine ⟨?_, ?_, ?_⟩
  · intro j d hd
    by_cases hkj : k = j
    · subst hkj
      obtain rfl := Option.some.inj (hc.symm.trans hd)
      exact ⟨_, List.getElem?_set_self (List.getElem?_eq_some_iff.mp hc).1, hlater⟩
    · exact ⟨d, (List.getElem?_set_ne hkj).trans hd, rfl, Nat.le_refl _⟩
  · intro j d hd
    rcases getElem?_set_cases hd with ⟨rfl, rfl⟩ | ⟨-, hd⟩
    · exact ⟨c, hc, hlater⟩
    · exact ⟨d, hd, rfl, Nat.le_refl _⟩
  · intro r hr
    show ∃ s ∈ σ.rowsAfter k c inDoubt a, _
    rcases rowsAfter_cases hanswers with h | ⟨h, -⟩ | ⟨h, -⟩ <;> rw [h]
    · exact ⟨r, hr, rfl, rfl⟩
    · exact ⟨r, List.mem_append_left _ hr, rfl, rfl⟩
    · exact ⟨_, List.mem_map_of_mem hr, r.mark_callSid _, r.mark_owner _⟩

/-- The key stays a key: an insert that returns has found no row of its own. -/
theorem unique_rowsAfter {k : Nat} {c : Call} {inDoubt : Bool} {a : CallAct}
    (hanswers : σ.answers c a = true) (hunique : (σ.rows.map (·.callSid)).Nodup) :
    ((σ.rowsAfter k c inDoubt a).map (·.callSid)).Nodup := by
  rcases rowsAfter_cases hanswers with h | ⟨h, hnone⟩ | ⟨h, -⟩ <;> rw [h]
  · exact hunique
  · rw [List.map_append]
    refine List.nodup_append.mpr ⟨hunique, List.nodup_singleton _, ?_⟩
    intro sid hsid sid' hsid' heq
    obtain rfl := List.mem_singleton.mp hsid'
    obtain ⟨r, hr, rfl⟩ := List.mem_map.mp hsid
    have hfound : σ.hasRow c.callSid = true :=
      List.any_eq_true.mpr ⟨r, hr, beq_iff_eq.mpr heq⟩
    rw [hnone] at hfound
    cases hfound
  · have hsids : (σ.rows.map fun r => (r.mark c.callSid).callSid) = σ.rows.map (·.callSid) :=
      List.map_congr_left fun r _ => r.mark_callSid c.callSid
    rw [List.map_map]
    exact hsids.symm ▸ hunique

theorem rowInv_call {k : Nat} {c : Call} {inDoubt : Bool} {a : CallAct} {state : CallOrchestrator}
    (hσ : RowInv σ) (hc : σ.calls[k]? = some c) (hanswers : σ.answers c a = true)
    (hstep : c.state.step c.cfg a = some state) :
    RowInv
      { σ with calls := σ.calls.set k { c with state }, rows := σ.rowsAfter k c inDoubt a } := by
  have hs := CallOrchestrator.step_cases hstep
  refine hσ.evolve (evolves_call hc hanswers hs) ?_ (unique_rowsAfter hanswers hσ.unique) ?_
  · show ∀ r ∈ σ.rowsAfter k c inDoubt a, _
    rcases rowsAfter_cases hanswers with h | ⟨h, -⟩ | ⟨h, hpc⟩ <;> rw [h]
    · intro r hr
      exact .inl ⟨r, hr, rfl, rfl, .inl⟩
    · intro r hr
      rcases List.mem_append.mp hr with hr | hr
      · exact .inl ⟨r, hr, rfl, rfl, .inl⟩
      · obtain rfl := List.mem_singleton.mp hr
        exact .inr ⟨rfl, c, hc, rfl⟩
    · intro r hr
      obtain ⟨q, hq, rfl⟩ := List.mem_map.mp hr
      refine .inl ⟨q, hq, (q.mark_callSid _).symm, (q.mark_owner _).symm, ?_⟩
      unfold SessionRow.mark
      split
      · -- the row that the select found
        rename_i hmine
        obtain ⟨r, hr, hrsid, d, hd, hcalled⟩ := hσ.marking k c hc hpc
        obtain rfl := hσ.eq_of_callSid hq hr (hmine.trans hrsid.symm)
        intro _
        exact .inr ⟨d, hd, hcalled⟩
      · exact .inl
  · intro j d e hd he hpc
    rcases getElem?_set_cases he with ⟨rfl, rfl⟩ | ⟨-, he⟩
    · obtain rfl := Option.some.inj (hc.symm.trans hd)
      rcases CallOrchestrator.committing_step hs hpc with h | ⟨hsel, rfl⟩
      · exact .inl h
      · -- the select has just found a row
        refine .inr (hσ.found hc hsel ?_)
        rw [answers, beq_iff_eq] at hanswers
        exact hanswers.symm
    · obtain rfl := Option.some.inj (hd.symm.trans he)
      exact .inl hpc

theorem rowInv_step {a : ServerAct} (hσ : RowInv σ) (hno : ¬ σ.clashes a)
    (h : Step synthesize σ a τ) : RowInv τ := by
  cases h with
  | connects hgate ha hpc => exact ⟨hσ.owner, hσ.unique, hσ.settled, hσ.marking⟩
  | gates hgate => exact ⟨hσ.owner, hσ.unique, hσ.settled, hσ.marking⟩
  | skips hframe => exact hσ
  | moves hframe hs hqueued hloop hover hgate hpermit hstarted =>
      exact ⟨hσ.owner, hσ.unique, hσ.settled, hσ.marking⟩
  | constructs hstart hs hpc => exact rowInv_constructs hσ hstart hno
  | stops hframe hs hloop hk hfailed => exact rowInv_stops hσ
  | call hc hstop hanswers hstep => exact rowInv_call hσ hc hanswers hstep

end Server

open Server

/-- **Session rows.** In every run of the process in which no start frame carries
the `callSid` of a call that is not settled, a row of `call_sessions` has
`ended_at` set only once `stop()` was called on the very call whose `start()`
inserted it. -/
theorem session_rows_isolated {synthesize : Nat → Nat → String → List Bytes} {gate : GateState}
    {tr : List (Server × ServerAct)} {σ : Server}
    (h : (serverSys synthesize).Run { gate } tr σ) (hno : ∀ p ∈ tr, ¬ p.1.clashes p.2) :
    ∀ r ∈ σ.rows, r.ended = true → σ.calls[r.owner]?.any Call.stopCalled = true := by
  have hstart : RowInv { gate } := ⟨by simp, List.nodup_nil, by simp, by simp⟩
  have hσ : RowInv σ := h.preserves (I := RowInv) (P := fun σ a => ¬ σ.clashes a)
    (fun _ _ _ hσ hno hs => rowInv_step hσ hno (step_cases hs)) hstart hno
  intro r hr hended
  obtain ⟨c, hc, -, hcalled⟩ := hσ.owner r hr
  rw [hc]
  exact hcalled hended

/-- Two browser sockets without a `session_id`: the insert of the second call
fails, and its `stop()` ends the row of the first, which goes on. -/
theorem failed_start_ends_other_row :
    ∃ tr σ, (serverSys fun _ _ _ => []).Run { gate := { gate := ⟨{ value := 2 }, 2, 0, false⟩ } }
        tr σ ∧
      ¬ ∀ r ∈ σ.rows, r.ended = true → σ.calls[r.owner]?.any Call.stopCalled = true := by
  let start : Server := { gate := { gate := ⟨{ value := 2 }, 2, 0, false⟩ } }
  let frame : Received := .json (.dict [("type", .str "start")])
  let acts : List ServerAct :=
    [.connect .webrtc, .connect .webrtc, .receive 0 frame,
     .call 0 (.starting .returns), .call 0 (.starting .returns), .call 0 (.starting .returns),
     .startDone 0, .receive 1 frame, .call 1 (.starting .returns), .call 1 (.starting .raises),
     .startDone 1, .call 1 (.stopping .returns), .call 1 (.stopping .returns),
     .call 1 (.stopping (.found true)), .call 1 (.stopping .returns)]
  have hrun : (serverSys fun _ _ _ => []).Run start
      ((serverSys fun _ _ _ => []).trace start acts) _ := TSys.Run.exec acts (by decide +kernel)
  exact ⟨_, _, hrun, by decide +kernel⟩

/-- One browser call, up to the commit of its own `mark_ended`. -/
theorem session_rows_isolated_own_row :
    ∃ tr σ, (serverSys fun _ _ _ => []).Run { gate := { gate := ⟨{ value := 2 }, 2, 0, false⟩ } }
        tr σ ∧
      σ.rows.map (·.ended) = [true] ∧
      ∀ r ∈ σ.rows, r.ended = true → σ.calls[r.owner]?.any Call.stopCalled = true := by
  let start : Server := { gate := { gate := ⟨{ value := 2 }, 2, 0, false⟩ } }
  let acts : List ServerAct :=
    [.connect .webrtc, .receive 0 (.json (.dict [("type", .str "start")])),
     .call 0 (.starting .returns), .call 0 (.starting .returns), .call 0 (.starting .returns),
     .startDone 0, .receive 0 .raises, .call 0 (.playback 0 (.thrown false)),
     .call 0 (.stopping .returns), .call 0 (.consumer (.thrown false)),
     .call 0 (.stopping .returns), .call 0 (.stopping .returns), .call 0 (.stopping .returns),
     .call 0 (.stopping (.found true)), .call 0 (.stopping .returns)]
  have hrun : (serverSys fun _ _ _ => []).Run start
      ((serverSys fun _ _ _ => []).trace start acts) _ := TSys.Run.exec acts (by decide +kernel)
  exact ⟨_, _, hrun, by decide +kernel, session_rows_isolated hrun (by decide +kernel)⟩

end VoiceAgent
