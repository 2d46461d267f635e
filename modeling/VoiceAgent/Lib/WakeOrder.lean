import Mathlib.Data.List.Nodup
import Mathlib.Data.List.Pairwise
import VoiceAgent.Lib.Semaphore

/-!
# No lost wake-up and no queue jumping

The queue of a semaphore beside the tasks it has woken and that have not been
resumed (`WakeOrder`): tasks are woken in the order in which they queued, but for
those that are cancelled. Where the loop resumes woken tasks in the order in which
they were woken, the task that `acquire()` returns to is therefore the oldest one
that is not cancelled (`WakeOrder.first`).

A semaphore is `Alert` when a permit that is free while tasks wait will be handed
out: some task on the queue is still to be resumed, and looks for it then.
-/

namespace Lib

namespace Semaphore

variable {ι : Type*} {s s' : Semaphore ι} {ws ws' pre post : List (Waiter ι)}
  {w : Waiter ι} {i : ι} {woken : List ι}

/-- The tasks that were granted a permit and have not been resumed. -/
def granted (ws : List (Waiter ι)) : List ι :=
  (ws.filter fun w => w.fut = .granted).map (·.task)

/-- The tasks that wait and are not cancelled. -/
def live (ws : List (Waiter ι)) : List ι :=
  (ws.filter fun w => w.fut ≠ .cancelled).map (·.task)

@[simp] theorem granted_append (ws ws' : List (Waiter ι)) :
    granted (ws ++ ws') = granted ws ++ granted ws' := by
  simp [granted]

@[simp] theorem live_append (ws ws' : List (Waiter ι)) :
    live (ws ++ ws') = live ws ++ live ws' := by
  simp [live]

theorem granted_cons_of_ne (h : w.fut ≠ .granted) : granted (w :: ws) = granted ws := by
  simp [granted, h]

theorem granted_cons_of_eq (h : w.fut = .granted) :
    granted (w :: ws) = w.task :: granted ws := by
  simp [granted, h]

theorem live_cons_of_ne (h : w.fut ≠ .cancelled) : live (w :: ws) = w.task :: live ws := by
  simp [live, h]

theorem live_cons_of_eq (h : w.fut = .cancelled) : live (w :: ws) = live ws := by
  simp [live, h]

theorem live_eq_nil (h : ∀ w ∈ ws, w.fut = .cancelled) : live ws = [] := by
  simpa [live] using h

theorem granted_eq_nil (h : ∀ w ∈ ws, w.fut ≠ .granted) : granted ws = [] := by
  simpa [granted] using h

theorem live_sublist (h : ws'.Sublist ws) : (live ws').Sublist (live ws) :=
  (h.filter _).map _

theorem granted_sublist (h : ws'.Sublist ws) : (granted ws').Sublist (granted ws) :=
  (h.filter _).map _

theorem mem_granted (h : w ∈ ws) (hw : w.fut = .granted) : w.task ∈ granted ws := by
  rw [granted, List.mem_map]
  exact ⟨w, List.mem_filter.mpr ⟨h, by simpa using hw⟩, rfl⟩

theorem task_mem_of_granted (h : i ∈ granted ws) : i ∈ ws.map (·.task) :=
  (List.filter_sublist.map _).subset h

/-- Everyone on an open semaphore's queue is cancelled. -/
theorem cancelled_of_not_locked (h : s.locked = false) : ∀ w ∈ s.waiters, w.fut = .cancelled := by
  intro w hw
  rw [locked, Bool.or_eq_false_iff, List.any_eq_false] at h
  simpa using h.2 w hw

/-- The waiter that is granted the next permit is the first pending one. -/
theorem grantFirst_cases : ∀ {ws ws' : List (Waiter ι)} {i : ι},
    grantFirst ws = some (ws', i) → ∃ pre w post, ws = pre ++ w :: post ∧
      w.fut = .pending ∧ w.task = i ∧ (∀ v ∈ pre, v.fut ≠ .pending) ∧
      ws' = pre ++ { w with fut := .granted } :: post := by
  intro ws
  induction ws with
  | nil => intro ws' i h; simp [grantFirst] at h
  | cons w ws ih =>
      intro ws' i h
      unfold grantFirst at h
      by_cases hw : w.fut = .pending
      · rw [if_pos hw] at h
        obtain ⟨rfl, rfl⟩ : { w with fut := .granted } :: ws = ws' ∧ w.task = i := by
          simpa using h
        exact ⟨[], w, ws, rfl, hw, rfl, by simp, rfl⟩
      · rw [if_neg hw, Option.map_eq_some_iff] at h
        obtain ⟨⟨vs, j⟩, hvs, heq⟩ := h
        obtain ⟨rfl, rfl⟩ : w :: vs = ws' ∧ j = i := by simpa using heq
        obtain ⟨pre, v, post, rfl, hv, htask, hpre, rfl⟩ := ih hvs
        refine ⟨w :: pre, v, post, rfl, hv, htask, ?_, rfl⟩
        rw [List.forall_mem_cons]
        exact ⟨hw, hpre⟩

theorem grantFirst_eq_none : grantFirst ws = none ↔ ∀ w ∈ ws, w.fut ≠ .pending := by
  induction ws with
  | nil => simp [grantFirst]
  | cons w ws ih =>
      unfold grantFirst
      by_cases hw : w.fut = .pending
      · simp [hw]
      · rw [if_neg hw, Option.map_eq_none_iff, ih, List.forall_mem_cons]
        exact (and_iff_right hw).symm

/-- The queue of a semaphore and the tasks it has woken, oldest first. -/
structure WakeOrder (ws : List (Waiter ι)) (woken : List ι) : Prop where
  distinct : (ws.map (·.task)).Nodup
  once : woken.Nodup
  done : ∀ i ∈ woken, ∃ w ∈ ws, w.task = i ∧ w.fut ≠ .pending
  ahead : ws.Pairwise fun w v => v.fut = .granted → w.fut ≠ .pending
  inOrder : (granted ws).Sublist woken

theorem wakeOrder_nil : WakeOrder ([] : List (Waiter ι)) [] where
  distinct := List.nodup_nil
  once := List.nodup_nil
  done := by simp
  ahead := List.Pairwise.nil
  inOrder := List.Sublist.refl _

/-- A task queues. -/
theorem WakeOrder.push (h : WakeOrder ws woken) (hi : i ∉ ws.map (·.task)) :
    WakeOrder (ws ++ [⟨i, .pending⟩]) woken where
  distinct := by
    rw [List.map_append, List.nodup_append]
    refine ⟨h.distinct, List.nodup_singleton i, ?_⟩
    intro a ha b hb heq
    obtain rfl := List.mem_singleton.mp hb
    exact hi (heq ▸ ha)
  once := h.once
  done j hj := by
    obtain ⟨w, hw, hdone⟩ := h.done j hj
    exact ⟨w, List.mem_append_left _ hw, hdone⟩
  ahead := by
    rw [List.pairwise_append]
    refine ⟨h.ahead, List.pairwise_singleton _ _, ?_⟩
    intro w _ v hv hgranted
    obtain rfl := List.mem_singleton.mp hv
    cases hgranted
  inOrder := by
    rw [granted_append, granted_cons_of_ne (by simp)]
    simpa [granted] using h.inOrder

/-- No one but a pending waiter's own entry has its number. -/
theorem WakeOrder.not_woken (h : WakeOrder (pre ++ w :: post) woken) (hw : w.fut = .pending) :
    w.task ∉ woken := by
  intro hmem
  obtain ⟨v, hv, htask, hdone⟩ := h.done _ hmem
  have hdistinct := h.distinct
  rw [List.map_append, List.map_cons, List.nodup_append] at hdistinct
  rcases List.mem_append.mp hv with hv | hv
  · exact hdistinct.2.2 _ (List.mem_map_of_mem hv) _ (by simp) htask
  · rcases List.mem_cons.mp hv with rfl | hv
    · exact hdone hw
    · exact (List.nodup_cons.mp hdistinct.2.1).1 (htask ▸ List.mem_map_of_mem hv)

/-- The future of a pending waiter is done; a permit goes to no one with a pending one
ahead. -/
theorem WakeOrder.settle {fut : Fut} (h : WakeOrder (pre ++ w :: post) woken)
    (hw : w.fut = .pending) (hfut : fut ≠ .pending)
    (hpre : fut = .granted → ∀ v ∈ pre, v.fut ≠ .pending) :
    WakeOrder (pre ++ { w with fut } :: post) (woken ++ [w.task]) := by
  have hahead := h.ahead
  rw [List.pairwise_append, List.pairwise_cons] at hahead
  -- behind a pending waiter no one has a grant
  have hpost : granted post = [] := granted_eq_nil fun v hv hgranted =>
    hahead.2.1.1 v hv hgranted hw
  have hgranted : granted (pre ++ w :: post) = granted pre := by
    rw [granted_append, granted_cons_of_ne (by simp [hw]), hpost, List.append_nil]
  refine ⟨?_, ?_, ?_, ?_, ?_⟩
  · simpa using h.distinct
  · rw [List.nodup_append]
    refine ⟨h.once, List.nodup_singleton _, ?_⟩
    intro a ha b hb heq
    obtain rfl := List.mem_singleton.mp hb
    exact h.not_woken hw (heq ▸ ha)
  · intro j hj
    rcases List.mem_append.mp hj with hj | hj
    · obtain ⟨v, hv, htask, hdone⟩ := h.done j hj
      refine ⟨v, ?_, htask, hdone⟩
      rcases List.mem_append.mp hv with hv | hv
      · exact List.mem_append_left _ hv
      · rcases List.mem_cons.mp hv with rfl | hv
        · exact absurd hw hdone
        · exact List.mem_append_right _ (List.mem_cons_of_mem _ hv)
    · obtain rfl := List.mem_singleton.mp hj
      exact ⟨{ w with fut }, by simp, rfl, hfut⟩
  · rw [List.pairwise_append, List.pairwise_cons]
    refine ⟨hahead.1, ⟨fun v hv hv' => absurd hw (hahead.2.1.1 v hv hv'), hahead.2.1.2⟩, ?_⟩
    intro v hv u hu hu'
    rcases List.mem_cons.mp hu with rfl | hu
    · exact hpre hu' v hv
    · exact hahead.2.2 v hv u (List.mem_cons_of_mem _ hu) hu'
  · have horder := h.inOrder
    rw [hgranted] at horder
    by_cases hf : fut = .granted
    · rw [granted_append, granted_cons_of_eq hf, hpost]
      exact horder.append (List.Sublist.refl _)
    · rw [granted_append, granted_cons_of_ne hf, hpost, List.append_nil]
      exact horder.trans (List.sublist_append_left _ _)

theorem WakeOrder.grant (h : WakeOrder ws woken) (hg : grantFirst ws = some (ws', i)) :
    WakeOrder ws' (woken ++ [i]) ∧ live ws' = live ws := by
  obtain ⟨pre, w, post, rfl, hw, rfl, hpre, rfl⟩ := grantFirst_cases hg
  refine ⟨h.settle hw (by simp) fun _ => hpre, ?_⟩
  have hlive : w.fut ≠ .cancelled := by
    rw [hw]
    nofun
  rw [live_append, live_append, live_cons_of_ne hlive, live_cons_of_ne (by simp)]

theorem WakeOrder.wakeLoop (fuel : Nat) : ∀ {s : Semaphore ι} {woken : List ι},
    WakeOrder s.waiters woken →
      WakeOrder (wakeLoop fuel s).1.waiters (woken ++ (wakeLoop fuel s).2) ∧
        live (Semaphore.wakeLoop fuel s).1.waiters = live s.waiters := by
  induction fuel with
  | zero =>
      intro s woken h
      exact ⟨by simpa [Semaphore.wakeLoop] using h, rfl⟩
  | succ fuel ih =>
      intro s woken h
      unfold Semaphore.wakeLoop
      split
      · split
        · exact ⟨by simpa using h, rfl⟩
        · rename_i s' i hw
          unfold wakeUpNext at hw
          rw [Option.map_eq_some_iff] at hw
          obtain ⟨⟨ws, j⟩, hg, heq⟩ := hw
          obtain ⟨rfl, rfl⟩ : Semaphore.mk (s.value - 1) ws = s' ∧ j = i := by simpa using heq
          obtain ⟨hgrant, hlive⟩ := h.grant hg
          obtain ⟨hloop, hlive'⟩ := ih (s := ⟨s.value - 1, ws⟩) hgrant
          refine ⟨?_, hlive'.trans hlive⟩
          rw [List.append_assoc] at hloop
          exact hloop
      · exact ⟨by simpa using h, rfl⟩

theorem WakeOrder.release (h : WakeOrder s.waiters woken) :
    WakeOrder s.release.1.waiters (woken ++ s.release.2) ∧
      live s.release.1.waiters = live s.waiters := by
  unfold Semaphore.release wakeUpNext
  dsimp only
  cases hg : grantFirst s.waiters with
  | none => exact ⟨by simpa using h, rfl⟩
  | some r => exact h.grant hg

section
variable [DecidableEq ι]

/-- Where a task's entry is on the queue. -/
theorem waiter?_cases (h : s.waiter? i = some w) :
    ∃ pre post, s.waiters = pre ++ w :: post ∧ w.task = i ∧ (∀ v ∈ pre, v.task ≠ i) ∧
      (s.waiters.eraseP fun v => v.task = i) = pre ++ post := by
  obtain ⟨htask, pre, post, heq, hpre⟩ := List.find?_eq_some_iff_append.mp h
  have hpre' : ∀ v ∈ pre, v.task ≠ i := by simpa using hpre
  refine ⟨pre, post, heq, by simpa using htask, hpre', ?_⟩
  have hhead : ((w :: post).eraseP fun v => v.task = i) = post := by
    rw [List.eraseP_cons, htask]
    rfl
  rw [heq, List.eraseP_append_right _ (by simpa using hpre'), hhead]

/-- A task on the queue is cancelled before it has a permit. -/
theorem WakeOrder.cancel (h : WakeOrder s.waiters woken) (hw : s.waiter? i = some w)
    (hfut : w.fut = .pending) :
    WakeOrder (s.cancel i).waiters (woken ++ [i]) ∧
      (live (s.cancel i).waiters).Sublist (live s.waiters) ∧
      ∃ v ∈ (s.cancel i).waiters, v.fut ≠ .pending := by
  obtain ⟨pre, post, hws, rfl, hpre, -⟩ := waiter?_cases hw
  have hdistinct := h.distinct
  rw [hws] at h
  rw [hws, List.map_append, List.map_cons, List.nodup_append, List.nodup_cons] at hdistinct
  have hcancel : (s.cancel w.task).waiters = pre ++ { w with fut := .cancelled } :: post := by
    have hkeep : ∀ {l : List (Waiter ι)}, (∀ v ∈ l, v.task ≠ w.task) →
        (l.map fun v => if v.task = w.task then cancelFut v else v) = l := by
      intro l hl
      conv_rhs => rw [← List.map_id l]
      exact List.map_congr_left fun v hv => if_neg (hl v hv)
    have hpost : ∀ v ∈ post, v.task ≠ w.task := fun v hv heq =>
      hdistinct.2.1.1 (heq ▸ List.mem_map_of_mem hv)
    show (s.waiters.map fun v => if v.task = w.task then cancelFut v else v) = _
    rw [hws, List.map_append, List.map_cons, hkeep hpre, hkeep hpost, if_pos rfl, cancelFut,
      if_pos hfut]
  rw [hcancel]
  refine ⟨h.settle hfut (by simp) (by simp), ?_, { w with fut := .cancelled }, by simp, by simp⟩
  rw [hws, live_append, live_append, live_cons_of_eq rfl]
  exact (List.Sublist.refl _).append (live_sublist (List.sublist_cons_self _ _))

/-- A woken task is resumed. -/
theorem WakeOrder.take (h : WakeOrder s.waiters woken) (hw : s.waiter? i = some w) :
    WakeOrder (s.waiters.eraseP fun v => v.task = i) (woken.erase i) := by
  obtain ⟨pre, post, hws, rfl, hpre, herase⟩ := waiter?_cases hw
  have hsub : (pre ++ post).Sublist (pre ++ w :: post) :=
    (List.Sublist.refl _).append (List.sublist_cons_self _ _)
  rw [herase]
  rw [hws] at h
  have hdistinct := h.distinct
  rw [List.map_append, List.map_cons, List.nodup_append, List.nodup_cons] at hdistinct
  refine ⟨h.distinct.sublist (hsub.map _), h.once.erase _, ?_, h.ahead.sublist hsub, ?_⟩
  · intro j hj
    obtain ⟨hne, hj⟩ := (h.once.mem_erase_iff).mp hj
    obtain ⟨v, hv, rfl, hdone⟩ := h.done j hj
    refine ⟨v, ?_, rfl, hdone⟩
    rcases List.mem_append.mp hv with hv | hv
    · exact List.mem_append_left _ hv
    · rcases List.mem_cons.mp hv with rfl | hv
      · exact absurd rfl hne
      · exact List.mem_append_right _ hv
  · have hgone : w.task ∉ granted (pre ++ post) := by
      intro hmem
      have hmem := task_mem_of_granted hmem
      rw [List.map_append] at hmem
      rcases List.mem_append.mp hmem with hmem | hmem
      · exact hdistinct.2.2 _ hmem _ (by simp) rfl
      · exact hdistinct.2.1.1 hmem
    rw [← List.erase_of_not_mem hgone]
    exact ((granted_sublist hsub).trans h.inOrder).erase _

theorem WakeOrder.resume {thrown acquired : Bool} {new : List ι}
    (h : WakeOrder s.waiters woken) (hres : s.resume i thrown = some (s', acquired, new)) :
    WakeOrder s'.waiters (woken.erase i ++ new) ∧
      live s'.waiters = live (s.waiters.eraseP fun v => v.task = i) := by
  unfold Semaphore.resume at hres
  split at hres
  · cases hres
  · rename_i w hw
    have htake := h.take hw
    split at hres
    · cases hres
    · cases hres
      exact htake.wakeLoop _
    · cases hres
      exact WakeOrder.wakeLoop _ (s := ⟨s.value + 1, s.waiters.eraseP fun v => v.task = i⟩) htake
    · cases hres
      exact htake.wakeLoop _

/-- `acquire()` returns to a task that was granted a permit. -/
theorem granted_of_resume {thrown : Bool} {new : List ι}
    (hres : s.resume i thrown = some (s', true, new)) :
    ∃ w, s.waiter? i = some w ∧ w.fut = .granted := by
  unfold Semaphore.resume at hres
  split at hres
  · cases hres
  · rename_i w hw
    split at hres
    · cases hres
    · rename_i hfut
      exact ⟨w, hw, hfut⟩
    · cases hres
    · cases hres

/-- Where woken tasks are resumed in the order in which they were woken, the task that
gets its permit is the first on the queue that is not cancelled. -/
theorem WakeOrder.first (h : WakeOrder s.waiters woken) (hw : s.waiter? i = some w)
    (hfut : w.fut = .granted) (hhead : woken.head? = some i) :
    ∃ pre post, s.waiters = pre ++ w :: post ∧ w.task = i ∧ (∀ v ∈ pre, v.task ≠ i) ∧
      (s.waiters.eraseP fun v => v.task = i) = pre ++ post ∧
      ∀ v ∈ pre, v.fut = .cancelled := by
  obtain ⟨pre, post, hws, rfl, hpre, herase⟩ := waiter?_cases hw
  refine ⟨pre, post, hws, rfl, hpre, herase, ?_⟩
  obtain ⟨rest, rfl⟩ : ∃ rest, woken = w.task :: rest := by
    cases woken with
    | nil => cases hhead
    | cons j rest =>
        obtain rfl := Option.some.inj hhead
        exact ⟨rest, rfl⟩
  have hahead := h.ahead
  have horder := h.inOrder
  rw [hws] at hahead horder
  rw [List.pairwise_append] at hahead
  rw [granted_append, granted_cons_of_eq hfut] at horder
  have hnone : granted pre = [] := by
    cases hg : granted pre with
    | nil => rfl
    | cons j js =>
        -- the head of what was woken would be woken once more
        rw [hg] at horder
        have hj : j ∈ pre.map (·.task) := task_mem_of_granted (by rw [hg]; simp)
        obtain ⟨v, hv, rfl⟩ := List.mem_map.mp hj
        rcases List.sublist_cons_iff.mp horder with horder | ⟨r, heq, -⟩
        · exact absurd (horder.subset (by simp)) (List.nodup_cons.mp h.once).1
        · exact absurd (List.cons.inj heq).1 (hpre v hv)
  intro v hv
  have hpending : v.fut ≠ .pending := hahead.2.2 v hv w (by simp) hfut
  have hgranted : v.fut ≠ .granted := fun hv' => by
    have := mem_granted hv hv'
    rw [hnone] at this
    cases this
  cases hfutv : v.fut with
  | pending => exact absurd hfutv hpending
  | granted => exact absurd hfutv hgranted
  | cancelled => rfl

end

/-! ## Futures that are done -/

/-- The task is on the queue and its future is done. -/
def Done (ws : List (Waiter ι)) (i : ι) : Prop := ∃ w ∈ ws, w.task = i ∧ w.fut ≠ .pending

section

variable {j : ι}

theorem Done.grant (h : Done ws j) (hg : grantFirst ws = some (ws', i)) : Done ws' j := by
  obtain ⟨pre, v, post, rfl, hv, -, -, rfl⟩ := grantFirst_cases hg
  obtain ⟨w, hw, htask, hdone⟩ := h
  refine ⟨w, ?_, htask, hdone⟩
  rcases List.mem_append.mp hw with hw | hw
  · exact List.mem_append_left _ hw
  · rcases List.mem_cons.mp hw with rfl | hw
    · exact absurd hv hdone
    · exact List.mem_append_right _ (List.mem_cons_of_mem _ hw)

theorem Done.wakeLoop (fuel : Nat) : ∀ {s : Semaphore ι}, Done s.waiters j →
    Done (wakeLoop fuel s).1.waiters j := by
  induction fuel with
  | zero => intro s h; exact h
  | succ fuel ih =>
      intro s h
      unfold Semaphore.wakeLoop
      split
      · split
        · exact h
        · rename_i s' i hw
          unfold wakeUpNext at hw
          rw [Option.map_eq_some_iff] at hw
          obtain ⟨⟨ws, k⟩, hg, heq⟩ := hw
          obtain ⟨rfl, rfl⟩ : Semaphore.mk (s.value - 1) ws = s' ∧ k = i := by simpa using heq
          exact ih (h.grant hg)
      · exact h

theorem Done.release (h : Done s.waiters j) : Done s.release.1.waiters j := by
  unfold Semaphore.release wakeUpNext
  dsimp only
  cases hg : grantFirst s.waiters with
  | none => exact h
  | some r => exact h.grant hg

variable [DecidableEq ι]

theorem Done.cancel (h : Done s.waiters j) (i : ι) : Done (s.cancel i).waiters j := by
  obtain ⟨w, hw, htask, hdone⟩ := h
  have hkeep : (if w.task = i then cancelFut w else w) = w := by
    split
    · exact if_neg hdone
    · rfl
  exact ⟨w, List.mem_map.mpr ⟨w, hw, hkeep⟩, htask, hdone⟩

/-- The entry of another task leaves the queue. -/
theorem Done.resume {thrown acquired : Bool} {new : List ι} (h : Done s.waiters j)
    (hne : j ≠ i) (hres : s.resume i thrown = some (s', acquired, new)) :
    Done s'.waiters j := by
  have htake : Done (s.waiters.eraseP fun w => w.task = i) j := by
    obtain ⟨w, hw, rfl, hdone⟩ := h
    exact ⟨w, (List.mem_eraseP_of_neg (by simpa using hne)).mpr hw, rfl, hdone⟩
  unfold Semaphore.resume at hres
  split at hres
  · cases hres
  · split at hres
    · cases hres
    · cases hres
      exact htake.wakeLoop _
    · cases hres
      exact Done.wakeLoop _ (s := ⟨s.value + 1, s.waiters.eraseP fun w => w.task = i⟩) htake
    · cases hres
      exact htake.wakeLoop _

end

/-! ## No lost wake-up -/

/-- A permit is free only while some task on the queue, if there is one, is still to be
resumed. -/
def Alert (s : Semaphore ι) : Prop :=
  (∀ w ∈ s.waiters, w.fut = .pending) → s.waiters ≠ [] → s.value ≤ 0

theorem alert_of_nil (h : s.waiters = []) : s.Alert := fun _ hne => absurd h hne

theorem alert_of_done (h : ∃ w ∈ s.waiters, w.fut ≠ .pending) : s.Alert := by
  intro hall _
  obtain ⟨w, hw, hdone⟩ := h
  exact absurd (hall w hw) hdone

theorem alert_of_no_pending (h : ∀ w ∈ s.waiters, w.fut ≠ .pending) : s.Alert := by
  intro hall hne
  obtain ⟨w, hw⟩ := List.exists_mem_of_ne_nil _ hne
  exact absurd (hall w hw) (h w hw)

/-- An open semaphore may give a permit away past its queue. -/
theorem alert_of_not_locked (h : s.locked = false) (value : Int) :
    ({ s with value } : Semaphore ι).Alert :=
  alert_of_no_pending fun w hw => by
    rw [cancelled_of_not_locked h w hw]
    nofun

theorem Alert.acquire (h : s.Alert) (i : ι) : (s.acquire i).1.Alert := by
  unfold Semaphore.acquire
  cases hlocked : s.locked with
  | false => exact alert_of_not_locked hlocked _
  | true =>
      intro hall _
      have hall' : ∀ w ∈ s.waiters, w.fut = .pending := fun w hw =>
        hall w (List.mem_append_left _ hw)
      by_cases hne : s.waiters = []
      · -- nobody else waits: no permit was free
        rw [locked, hne] at hlocked
        simp only [List.any_nil, Bool.or_false, beq_iff_eq] at hlocked
        exact Int.le_of_eq hlocked
      · exact h hall' hne

theorem alert_wakeUpNext (h : s.wakeUpNext = some (s', i)) : s'.Alert := by
  unfold wakeUpNext at h
  rw [Option.map_eq_some_iff] at h
  obtain ⟨⟨ws, j⟩, hg, heq⟩ := h
  obtain ⟨rfl, rfl⟩ : Semaphore.mk (s.value - 1) ws = s' ∧ j = i := by simpa using heq
  obtain ⟨pre, w, post, -, -, -, -, rfl⟩ := grantFirst_cases hg
  exact alert_of_done ⟨{ w with fut := .granted }, by simp, by simp⟩

theorem alert_of_wakeUpNext_none (h : s.wakeUpNext = none) : s.Alert := by
  unfold wakeUpNext at h
  rw [Option.map_eq_none_iff] at h
  exact alert_of_no_pending (grantFirst_eq_none.mp h)

theorem alert_release : s.release.1.Alert := by
  unfold Semaphore.release
  dsimp only
  split
  · rename_i hw
    exact alert_of_wakeUpNext_none hw
  · rename_i s' i hw
    exact alert_wakeUpNext hw

/-- The loop ends without a free permit or without a pending waiter. -/
theorem alert_wakeLoop (fuel : Nat) : ∀ s : Semaphore ι, s.value ≤ fuel →
    (Semaphore.wakeLoop fuel s).1.Alert := by
  induction fuel with
  | zero =>
      intro s hle _ _
      exact hle
  | succ fuel ih =>
      intro s hle
      unfold Semaphore.wakeLoop
      split
      · split
        · rename_i hw
          exact alert_of_wakeUpNext_none hw
        · rename_i s' i hw
          have hvalue := wakeUpNext_value hw
          exact ih s' (by omega)
      · rename_i hpos
        intro _ _
        exact Int.not_lt.mp hpos

theorem alert_wakeUp : s.wakeUp.1.Alert := alert_wakeLoop _ s (Int.self_le_toNat _)

/-- Whoever leaves the queue looks for the next. -/
theorem alert_resume [DecidableEq ι] {thrown acquired : Bool}
    (h : s.resume i thrown = some (s', acquired, woken)) : s'.Alert := by
  unfold resume at h
  split at h
  · cases h
  · split at h
    · cases h
    · cases h
      exact alert_wakeUp
    · cases h
      exact alert_wakeUp
    · cases h
      exact alert_wakeUp

/-! ## Who waits -/

/-- The tasks on the queue. -/
def queued (s : Semaphore ι) : List ι := s.waiters.map (·.task)

theorem wakeUpNext_queued (h : s.wakeUpNext = some (s', i)) : s'.queued = s.queued := by
  unfold wakeUpNext at h
  rw [Option.map_eq_some_iff] at h
  obtain ⟨⟨ws, j⟩, hg, heq⟩ := h
  obtain ⟨rfl, rfl⟩ : Semaphore.mk (s.value - 1) ws = s' ∧ j = i := by simpa using heq
  obtain ⟨pre, w, post, hws, -, -, -, rfl⟩ := grantFirst_cases hg
  simp [queued, hws]

theorem release_queued : s.release.1.queued = s.queued := by
  unfold Semaphore.release
  dsimp only
  split
  · rfl
  · rename_i s' i hw
    show s'.queued = ({ s with value := s.value + 1 } : Semaphore ι).queued
    exact wakeUpNext_queued hw

theorem wakeLoop_queued (fuel : Nat) : ∀ s : Semaphore ι,
    (Semaphore.wakeLoop fuel s).1.queued = s.queued := by
  induction fuel with
  | zero => intro s; rfl
  | succ fuel ih =>
      intro s
      unfold Semaphore.wakeLoop
      split
      · split
        · rfl
        · rename_i s' i hw
          exact (ih s').trans (wakeUpNext_queued hw)
      · rfl

section
variable [DecidableEq ι]

theorem cancel_queued (s : Semaphore ι) (i : ι) : (s.cancel i).queued = s.queued := by
  unfold queued cancel
  rw [List.map_map]
  refine List.map_congr_left fun w _ => ?_
  show (if w.task = i then cancelFut w else w).task = w.task
  unfold cancelFut
  split
  · split <;> rfl
  · rfl

/-- A task that is resumed leaves the queue. -/
theorem resume_queued {thrown acquired : Bool} {new : List ι}
    (h : s.resume i thrown = some (s', acquired, new)) :
    s'.queued = (s.waiters.eraseP fun w => w.task = i).map (·.task) := by
  unfold Semaphore.resume at h
  split at h
  · cases h
  · split at h
    · cases h
    · cases h
      exact wakeLoop_queued _ _
    · cases h
      exact wakeLoop_queued _ _
    · cases h
      exact wakeLoop_queued _ _

theorem waiter?_of_queued (h : i ∈ s.queued) : ∃ w, s.waiter? i = some w := by
  obtain ⟨w, hw, rfl⟩ := List.mem_map.mp h
  refine Option.isSome_iff_exists.mp (List.find?_isSome.mpr ⟨w, hw, ?_⟩)
  simp

theorem waiter?_eq (h : s.waiter? i = some w) : w ∈ s.waiters ∧ w.task = i := by
  obtain ⟨pre, post, hws, htask, -⟩ := waiter?_cases h
  rw [hws]
  exact ⟨List.mem_append_right _ List.mem_cons_self, htask⟩

/-- A task whose future is done can be resumed. -/
theorem exists_resume (h : s.waiter? i = some w) (hdone : w.fut ≠ .pending) (thrown : Bool) :
    ∃ r, s.resume i thrown = some r := by
  cases hfut : w.fut with
  | pending => exact absurd hfut hdone
  | granted => cases thrown <;> simp [Semaphore.resume, h, hfut]
  | cancelled => simp [Semaphore.resume, h, hfut]

end

/-- Every task on the queue whose future is done has been woken. -/
def Roused (ws : List (Waiter ι)) (woken : List ι) : Prop :=
  ∀ w ∈ ws, w.fut ≠ .pending → w.task ∈ woken

theorem Roused.grant (h : Roused ws woken) (hg : grantFirst ws = some (ws', i)) :
    Roused ws' (woken ++ [i]) := by
  obtain ⟨pre, v, post, rfl, -, rfl, -, rfl⟩ := grantFirst_cases hg
  intro w hw hdone
  rcases List.mem_append.mp hw with hw | hw
  · exact List.mem_append_left _ (h w (List.mem_append_left _ hw) hdone)
  · rcases List.mem_cons.mp hw with rfl | hw
    · exact List.mem_append_right _ (List.mem_singleton.mpr rfl)
    · exact List.mem_append_left _
        (h w (List.mem_append_right _ (List.mem_cons_of_mem _ hw)) hdone)

theorem Roused.wakeLoop (fuel : Nat) : ∀ {s : Semaphore ι} {woken : List ι},
    Roused s.waiters woken →
    Roused (wakeLoop fuel s).1.waiters (woken ++ (wakeLoop fuel s).2) := by
  induction fuel with
  | zero =>
      intro s woken h
      rw [Semaphore.wakeLoop, List.append_nil]
      exact h
  | succ fuel ih =>
      intro s woken h
      unfold Semaphore.wakeLoop
      split
      · split
        · rw [List.append_nil]
          exact h
        · rename_i s' i hw
          unfold wakeUpNext at hw
          rw [Option.map_eq_some_iff] at hw
          obtain ⟨⟨ws, k⟩, hg, heq⟩ := hw
          obtain ⟨rfl, rfl⟩ : Semaphore.mk (s.value - 1) ws = s' ∧ k = i := by simpa using heq
          have hloop := ih (s := ⟨s.value - 1, ws⟩) (h.grant hg)
          rw [List.append_assoc] at hloop
          exact hloop
      · rw [List.append_nil]
        exact h

theorem Roused.release (h : Roused s.waiters woken) :
    Roused s.release.1.waiters (woken ++ s.release.2) := by
  unfold Semaphore.release wakeUpNext
  dsimp only
  cases hg : grantFirst s.waiters with
  | none =>
      rw [Option.map_none, List.append_nil]
      exact h
  | some r => exact h.grant hg

section
variable [DecidableEq ι]

theorem Roused.cancel (h : Roused s.waiters woken) (i : ι) :
    Roused (s.cancel i).waiters (woken ++ [i]) := by
  intro w hw hdone
  obtain ⟨v, hv, rfl⟩ := List.mem_map.mp hw
  by_cases htask : v.task = i
  · refine List.mem_append_right _ (List.mem_singleton.mpr ?_)
    rw [if_pos htask]
    unfold cancelFut
    split <;> exact htask
  · rw [if_neg htask] at hdone ⊢
    exact List.mem_append_left _ (h v hv hdone)

theorem Roused.resume {thrown acquired : Bool} {new : List ι} (h : Roused s.waiters woken)
    (hdistinct : s.queued.Nodup) (hres : s.resume i thrown = some (s', acquired, new)) :
    Roused s'.waiters (woken.erase i ++ new) := by
  have htake : Roused (s.waiters.eraseP fun w => w.task = i) (woken.erase i) := by
    intro w hw hdone
    have hne : w.task ≠ i := by
      rintro rfl
      obtain ⟨v, hv⟩ := waiter?_of_queued (List.mem_map_of_mem (List.mem_of_mem_eraseP hw))
      obtain ⟨pre, post, hws, htask, -, herase⟩ := waiter?_cases hv
      rw [queued, hws, List.map_append, List.map_cons, List.nodup_append, List.nodup_cons]
        at hdistinct
      rw [herase] at hw
      rcases List.mem_append.mp hw with hw | hw
      · exact hdistinct.2.2 _ (List.mem_map_of_mem hw) _ List.mem_cons_self htask.symm
      · exact hdistinct.2.1.1 (htask ▸ List.mem_map_of_mem hw)
    exact (List.mem_erase_of_ne hne).mpr (h w (List.mem_of_mem_eraseP hw) hdone)
  unfold Semaphore.resume at hres
  split at hres
  · cases hres
  · split at hres
    · cases hres
    · cases hres
      exact htake.wakeLoop _
    · cases hres
      exact Roused.wakeLoop _ (s := ⟨s.value + 1, s.waiters.eraseP fun w => w.task = i⟩) htake
    · cases hres
      exact htake.wakeLoop _

end

end Semaphore

end Lib
