import VoiceAgent.Logic.Playbacks

/-!
# What `stop()` establishes

`stop()` takes its list of tasks and cancels them without an await in between.
The playbacks before the last are settled already (`Superseded`), so from that
moment every task of the call is (`Quiet`), and a settled task has no code of
its own left to run: the consumer cannot start one more playback while
`stop()` joins the tasks it knows.
-/

namespace VoiceAgent

open Lib

namespace CallOrchestrator

variable {cfg : CallConfig} {σ τ : CallOrchestrator}

/-- `stop()` has been called and every task of the call is settled. -/
structure Quiet (σ : CallOrchestrator) : Prop where
  called : σ.stopPc ≠ .notCalled
  started : σ.startPc = .started ∨ σ.startPc = .failed
  playbacks : ∀ (k : Nat) (p : Playback), σ.speakTasks[k]? = some p → p.task.settled = true
  consumer : ∀ t, σ.sttTask = some t → t.settled = true

/-- What a step of a quiet call leaves as it was: the tasks begin nothing, and
those that are done stay so. -/
structure Idles (σ τ : CallOrchestrator) : Prop where
  llm : τ.llm = σ.llm
  length : τ.speakTasks.length = σ.speakTasks.length
  tasks : τ.tasks = σ.tasks
  done : ∀ t, σ.isDone t = true → τ.isDone t = true

theorem Idles.refl : Idles σ σ := ⟨rfl, rfl, rfl, fun _ h => h⟩

/-- The list of `stop()` depends on which tasks there are, not on their state. -/
theorem tasks_congr (hlen : τ.speakTasks.length = σ.speakTasks.length)
    (htask : τ.sttTask.isNone = σ.sttTask.isNone) : τ.tasks = σ.tasks := by
  have hempty : τ.speakTasks.isEmpty = σ.speakTasks.isEmpty := by
    rw [Bool.eq_iff_iff, List.isEmpty_iff_length_eq_zero, List.isEmpty_iff_length_eq_zero, hlen]
  rw [tasks, tasks, hlen, hempty, htask]

theorem isDone_set {k : Nat} {p : Playback} {t : AsyncTask PlaybackPc}
    (hp : σ.speakTasks[k]? = some p) (hnot : p.task.isDone = false) (log : List CallEvent)
    {r : TaskRef} (h : σ.isDone r = true) :
    isDone { σ with speakTasks := σ.speakTasks.set k { p with task := t }, log } r = true := by
  cases r with
  | consumer => exact h
  | playback j =>
      by_cases hjk : k = j
      · subst hjk
        simp only [isDone, hp, Option.all_some] at h
        rw [hnot] at h
        cases h
      · show ((σ.speakTasks.set k { p with task := t })[j]?).all _ = true
        rw [List.getElem?_set_ne hjk]
        exact h

/-- The join of a quiet call changes the program counter alone. -/
theorem Quiet.join (hσ : Quiet σ) (tasks : List TaskRef) :
    Quiet (σ.join tasks) ∧ Idles σ (σ.join tasks) := by
  rcases σ.join_cases tasks with ⟨h, -⟩ | ⟨t, rest, h, -⟩ <;> rw [h]
  all_goals exact ⟨⟨nofun, hσ.started, hσ.playbacks, hσ.consumer⟩, ⟨rfl, rfl, rfl, fun _ h => h⟩⟩

/-- One step of a quiet call: it stays quiet, and only `stop()` still writes. -/
theorem quiet_step {a : CallAct} (hσ : Quiet σ) (h : Step cfg σ a τ) :
    Quiet τ ∧ Idles σ τ ∧
      (τ.log = σ.log ∨ σ.stopPc = .selecting ∧ τ.log = σ.log ++ [.ended]) := by
  obtain ⟨hcalled, hstarted, hplaybacks, hconsumer⟩ := id hσ
  cases h with
  | tick ms =>
      exact ⟨⟨hcalled, hstarted, hplaybacks, hconsumer⟩, ⟨rfl, rfl, rfl, fun _ h => h⟩, .inl rfl⟩
  | enqueue text isFinal =>
      exact ⟨⟨hcalled, hstarted, hplaybacks, hconsumer⟩, ⟨rfl, rfl, rfl, fun _ h => h⟩, .inl rfl⟩
  | starting hfrom hfrom' hto hwait =>
      rcases hstarted with h | h
      · exact absurd h hfrom
      · exact absurd h hfrom'
  | started hpc =>
      rw [hpc] at hstarted
      rcases hstarted with h | h <;> cases h
  | takeFinal htask hqueue hfinal => cases hconsumer _ htask
  | bargeIn htask hqueue hint hspeaking => cases hconsumer _ htask
  | takePartial htask hqueue hfinal => cases hconsumer _ htask
  | @consumer task t w e htask hres =>
      obtain ⟨ht, rfl⟩ := Coroutine.resume_settled (hconsumer _ htask) hres
      have hnot := Coroutine.not_isDone_of_resumes hres
      refine ⟨⟨hcalled, hstarted, hplaybacks, ?_⟩, ⟨rfl, rfl, ?_, ?_⟩, .inl rfl⟩
      · intro t' ht'
        obtain rfl : t = t' := Option.some.inj ht'
        exact ht
      · exact tasks_congr rfl (by rw [htask]; rfl)
      · intro r hr
        cases r with
        | playback k => exact hr
        | consumer =>
            simp only [isDone, htask, Option.all_some] at hr
            rw [hnot] at hr
            cases hr
  | @playback k p t w e hp hres =>
      obtain ⟨ht, rfl⟩ := Coroutine.resume_settled (hplaybacks k p hp) hres
      have hnot := Coroutine.not_isDone_of_resumes hres
      refine ⟨⟨hcalled, hstarted, ?_, hconsumer⟩, ⟨rfl, ?_, ?_, ?_⟩, ?_⟩
      · intro j q hq
        rcases getElem?_set_cases hq with ⟨rfl, rfl⟩ | ⟨-, hq⟩
        · exact ht
        · exact hplaybacks j q hq
      · exact List.length_set ..
      · exact tasks_congr (List.length_set ..) rfl
      · intro r hr
        exact isDone_set hp hnot _ hr
      · exact .inl (List.append_nil _)
  | stop hstart hpc => exact absurd hpc hcalled
  | stopAgain hpc => exact ⟨hσ, .refl, .inl rfl⟩
  | @joined t tasks hpc hdone =>
      obtain ⟨hquiet, hidle⟩ := hσ.join tasks
      exact ⟨hquiet, hidle, .inl (join_log tasks)⟩
  | swallowed hpc => exact ⟨hσ, .refl, .inl rfl⟩
  | ending hpc =>
      exact ⟨⟨nofun, hstarted, hplaybacks, hconsumer⟩, ⟨rfl, rfl, rfl, fun _ h => h⟩,
        .inr ⟨hpc, rfl⟩⟩
  | @stopping w pc hfrom hopen hto hlt hnot =>
      refine ⟨⟨?_, hstarted, hplaybacks, hconsumer⟩, ⟨rfl, rfl, rfl, fun _ h => h⟩, .inl rfl⟩
      show pc ≠ .notCalled
      intro heq
      rw [heq] at hto
      cases hto

/-- `stop()` makes a call quiet at once: the task it cancels is the only one
that was not settled. -/
theorem quiet_stop (hsup : σ.Superseded) (hstart : σ.startPc = .started ∨ σ.startPc = .failed) :
    Quiet (σ.cancelAll.join σ.tasks) := by
  have hplaybacks : ∀ (k : Nat) (p : Playback), σ.cancelAll.speakTasks[k]? = some p →
      p.task.settled = true := by
    intro k p hp
    obtain ⟨q, hq, -, htask⟩ := cancelSpeak_getElem? hp
    have hlt := (List.getElem?_eq_some_iff.mp hq).1
    rw [htask]
    split
    · exact AsyncTask.settled_cancel _
    · exact hsup k q hq (by omega)
  have hconsumer : ∀ t, σ.cancelAll.sttTask = some t → t.settled = true := by
    intro t ht
    obtain ⟨s, -, rfl⟩ := Option.map_eq_some_iff.mp ht
    exact AsyncTask.settled_cancel s
  rcases σ.cancelAll.join_cases σ.tasks with ⟨h, -⟩ | ⟨t, rest, h, -⟩ <;> rw [h]
  all_goals exact ⟨nofun, hstart, hplaybacks, hconsumer⟩

theorem cancelAll_tasks : σ.cancelAll.tasks = σ.tasks :=
  tasks_congr σ.cancelSpeak_length (by rw [cancelAll]; cases σ.sttTask <;> rfl)

/-- What `stop()` has established at each of its awaits. -/
structure StopInv (σ : CallOrchestrator) : Prop where
  superseded : σ.Superseded
  quiet : σ.stopPc ≠ .notCalled → Quiet σ
  joining : ∀ rest, σ.stopPc = .joining rest → ∀ t ∈ σ.tasks, t ∈ rest ∨ σ.isDone t = true
  joined : σ.stopPc.joined = true → ∀ t ∈ σ.tasks, σ.isDone t = true
  ended : CallEvent.ended ∈ σ.log → σ.stopPc ≠ .notCalled
  rows : σ.log.Pairwise fun e f => e = .ended → f.isRow = false

/-- After joining some tasks, those not passed over are done. -/
theorem StopInv.of_join {tasks : List TaskRef} (hsup : σ.Superseded)
    (hquiet : Quiet (σ.join tasks)) (htasks : ∀ t ∈ σ.tasks, t ∈ tasks ∨ σ.isDone t = true)
    (hrows : σ.log.Pairwise fun e f => e = .ended → f.isRow = false) :
    StopInv (σ.join tasks) := by
  have hlog : (σ.join tasks).log = σ.log := join_log tasks
  have hsup' : (σ.join tasks).Superseded := by
    rw [Superseded, join_speakTasks]
    exact hsup
  rcases σ.join_cases tasks with ⟨h, hall⟩ | ⟨t, rest, h, hrest⟩ <;>
    rw [h] at hquiet hlog hsup' ⊢
  · refine ⟨hsup', fun _ => hquiet, nofun, fun _ s hs => ?_, fun _ => nofun, hrows⟩
    rcases htasks s hs with hmem | hdone
    · exact hall s hmem
    · exact hdone
  · refine ⟨hsup', fun _ => hquiet, ?_, nofun, fun _ => nofun, hrows⟩
    intro rest' heq s hs
    obtain rfl : t :: rest = rest' := by simpa using heq
    rcases htasks s hs with hmem | hdone
    · exact hrest s hmem
    · exact .inr hdone

theorem stopInv_init {registry : ToolRegistry} : StopInv { llm := { registry } } where
  superseded _ _ hp _ := by simp at hp
  quiet h := absurd rfl h
  joining _ := nofun
  joined := nofun
  ended h := by simp at h
  rows := List.Pairwise.nil

/-- A step before `stop()` that does not call it. -/
theorem stopInv_uncalled {a : CallAct} (hσ : StopInv σ) (hpc : σ.stopPc = .notCalled)
    (hτ : τ.stopPc = .notCalled) (h : Step cfg σ a τ) : StopInv τ := by
  obtain ⟨events, hlog, hended⟩ := log_step h
  have hnone : CallEvent.ended ∉ events := fun hmem => by
    have := hended hmem
    rw [hpc] at this
    cases this
  have hnot : CallEvent.ended ∉ τ.log := by
    rw [hlog]
    intro hmem
    rcases List.mem_append.mp hmem with hmem | hmem
    · exact hσ.ended hmem hpc
    · exact hnone hmem
  refine ⟨superseded_step hσ.superseded h.playbackView, fun hne => absurd hτ hne, ?_, ?_,
    fun hmem => absurd hmem hnot, ?_⟩
  · intro rest heq
    rw [hτ] at heq
    cases heq
  · intro hjoined
    rw [hτ] at hjoined
    cases hjoined
  · exact List.pairwise_iff_forall_sublist.mpr fun hsub heq =>
      absurd (heq ▸ hsub.subset (by simp)) hnot

/-- The rows after a step of a quiet call: no task writes one any more. -/
theorem rows_of_quiet (hσ : StopInv σ)
    (hlog : τ.log = σ.log ∨ σ.stopPc = .selecting ∧ τ.log = σ.log ++ [.ended]) :
    τ.log.Pairwise fun e f => e = .ended → f.isRow = false := by
  rcases hlog with hlog | ⟨-, hlog⟩ <;> rw [hlog]
  · exact hσ.rows
  · refine List.pairwise_append.mpr ⟨hσ.rows, List.pairwise_singleton _ _, ?_⟩
    intro e _ f hf _
    obtain rfl := List.mem_singleton.mp hf
    rfl

/-- A step after the call of `stop()`: of another task, the join of one more
task, or an await after the joins. -/
theorem stopInv_called {a : CallAct} (hσ : StopInv σ) (hpc : σ.stopPc ≠ .notCalled)
    (h : Step cfg σ a τ) : StopInv τ := by
  have hsup := superseded_step hσ.superseded h.playbackView
  obtain ⟨hquiet, hidle, hlog⟩ := quiet_step (hσ.quiet hpc) h
  have hrows := rows_of_quiet hσ hlog
  rcases stopPc_step_called hpc h with hτ | ⟨t, rest, hjoin, hdone, rfl⟩ | ⟨hfrom, -, hto⟩
  · refine ⟨hsup, fun _ => hquiet, ?_, ?_, fun _ => hquiet.called, hrows⟩
    · intro rest heq t ht
      rw [hτ] at heq
      rw [hidle.tasks] at ht
      exact (hσ.joining rest heq t ht).imp_right (hidle.done t)
    · intro hjoined t ht
      rw [hτ] at hjoined
      rw [hidle.tasks] at ht
      exact hidle.done t (hσ.joined hjoined t ht)
  · refine StopInv.of_join hσ.superseded hquiet ?_ hσ.rows
    intro s hs
    -- the task at the head is done, the others are still in the list
    rcases hσ.joining _ hjoin s hs with hmem | hdone'
    · rcases List.mem_cons.mp hmem with rfl | hmem
      · exact .inr hdone
      · exact .inl hmem
    · exact .inr hdone'
  · refine ⟨hsup, fun _ => hquiet, ?_, ?_, fun _ => hquiet.called, hrows⟩
    · intro rest heq
      rw [heq] at hto
      cases hto
    · intro _ t ht
      rw [hidle.tasks] at ht
      exact hidle.done t (hσ.joined hfrom t ht)

theorem stopInv_step {a : CallAct} (hσ : StopInv σ) (h : Step cfg σ a τ) : StopInv τ := by
  by_cases hpc : σ.stopPc = .notCalled
  · rcases stopPc_step hpc h with hτ | ⟨hstart, rfl⟩
    · exact stopInv_uncalled hσ hpc hτ h
    · -- the call of `stop()` itself
      have hsup := superseded_step hσ.superseded h.playbackView
      refine StopInv.of_join (σ := σ.cancelAll) ?_ (quiet_stop hσ.superseded hstart) ?_ hσ.rows
      · rw [Superseded, join_speakTasks] at hsup
        exact hsup
      · rw [cancelAll_tasks]
        intro t ht
        exact .inl ht
  · exact stopInv_called hσ hpc h

theorem stopInv_inductive : (callSys cfg).Inductive StopInv where
  init := by
    rintro σ ⟨registry, rfl⟩
    exact stopInv_init
  step _ _ _ hσ hs := stopInv_step hσ (step_cases hs)

theorem stopInv_run {registry : ToolRegistry} {tr : List (CallOrchestrator × CallAct)}
    (h : (callSys cfg).Run { llm := { registry } } tr σ) : StopInv σ :=
  stopInv_inductive.run ⟨registry, rfl⟩ h

/-- Once `stop()` has joined its tasks, the consumer is done. -/
theorem StopInv.consumer_done (hσ : StopInv σ) (hpc : σ.stopPc.joined = true)
    {t : AsyncTask ConsumerPc} (ht : σ.sttTask = some t) : t.isDone = true := by
  have hdone := hσ.joined hpc .consumer (by simp [tasks, ht])
  simpa [isDone, ht] using hdone

theorem returned_step {a : CallAct} (hpc : σ.stopPc = .returned) (h : Step cfg σ a τ) :
    τ.stopPc = .returned := by
  rcases stopPc_step_called (by rw [hpc]; nofun) h with hτ | ⟨t, rest, hjoin, -⟩ | ⟨-, hopen, -⟩
  · exact hτ.trans hpc
  · rw [hpc] at hjoin
    cases hjoin
  · exact absurd hpc hopen

/-- A quiet call whose `stop()` has returned begins nothing, in any run. -/
theorem returned_run {tr : List (CallOrchestrator × CallAct)}
    (h : (callSys cfg).Run σ tr τ) (hσ : Quiet σ) (hstop : σ.stopPc = .returned) :
    Quiet τ ∧ τ.stopPc = .returned ∧ τ.log = σ.log ∧ τ.llm = σ.llm ∧
      τ.speakTasks.length = σ.speakTasks.length := by
  induction h with
  | nil => exact ⟨hσ, hstop, rfl, rfl, rfl⟩
  | snoc hrun hstep ih =>
      obtain ⟨hquiet, hret, hlog, hllm, hlen⟩ := ih
      have hs := step_cases hstep
      obtain ⟨hquiet', hidle, hlog'⟩ := quiet_step hquiet hs
      have hret' := returned_step hret hs
      refine ⟨hquiet', hret', ?_, hidle.llm.trans hllm, hidle.length.trans hlen⟩
      rcases hlog' with hlog' | ⟨hsel, -⟩
      · exact hlog'.trans hlog
      · rw [hret] at hsel
        cases hsel

end CallOrchestrator

end VoiceAgent
