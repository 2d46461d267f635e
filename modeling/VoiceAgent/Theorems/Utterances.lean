import VoiceAgent.Logic.Playbacks

/-!
# Utterances never mix on the wire

`_speak` cancels the task before it without awaiting it, so several playback
tasks coexist. Only the last of them is not settled (`Superseded`), and only a
task that is not settled sends; what each has sent is a prefix of its own
utterance (`Utterance.resumes_continues`).
-/

namespace VoiceAgent

open Lib

namespace CallOrchestrator

/-- The wire of a call: every task has sent a prefix of its utterance, and the
sends stand in the order of the tasks. -/
structure WireInv (cfg : CallConfig) (σ : CallOrchestrator) : Prop where
  superseded : σ.Superseded
  utterance : ∀ k (p : Playback), σ.speakTasks[k]? = some p →
    ∃ role, p.utterance = cfg.utterance k p.utterance.text role
  sent : ∀ k (p : Playback), σ.speakTasks[k]? = some p →
    p.utterance.Sent (withKey k (sends σ.log)) p.task
  spoken : σ.speakTasks.map (·.utterance.text) = spokenTexts σ.log
  known : ∀ s ∈ sends σ.log, s.1 < σ.speakTasks.length
  sorted : (sends σ.log).Pairwise fun s s' => s.1 ≤ s'.1

variable {cfg : CallConfig} {σ τ : CallOrchestrator}

theorem wireInv_init {registry : ToolRegistry} : WireInv cfg { llm := { registry } } where
  superseded _ _ hp _ := by simp at hp
  utterance _ _ hp := by simp at hp
  sent _ _ hp := by simp at hp
  spoken := rfl
  known _ hs := by simp at hs
  sorted := List.Pairwise.nil

/-- Cancelling takes nothing off the wire. -/
theorem WireInv.cancelSpeak (hσ : WireInv cfg σ) {k : Nat} {p : Playback}
    (hp : σ.cancelSpeak.speakTasks[k]? = some p) :
    (∃ role, p.utterance = cfg.utterance k p.utterance.text role) ∧
      p.utterance.Sent (withKey k (sends σ.log)) p.task := by
  obtain ⟨q, hq, hu, htask⟩ := cancelSpeak_getElem? hp
  have hsent := hσ.sent k q hq
  rw [hu]
  refine ⟨hσ.utterance k q hq, ?_⟩
  rw [htask]
  split
  · exact Utterance.sent_of_settled hsent.1 (AsyncTask.settled_cancel _)
  · exact hsent

/-- Only the last task sends: a settled one has no code of its own to run. -/
theorem WireInv.last_sends (hσ : WireInv cfg σ) {k : Nat} {p : Playback}
    {t : AsyncTask PlaybackPc} {w : Wake Outcome} {e : Option (List CallEvent)}
    (hp : σ.speakTasks[k]? = some p) (hres : p.utterance.runPlayback.Resumes p.task w t e)
    (hsends : sends (e.getD []) ≠ []) :
    k + 1 = σ.speakTasks.length ∧ p.task.settled = false := by
  have hlive : p.task.settled = false := by
    by_contra hne
    obtain ⟨-, rfl⟩ := Coroutine.resume_settled (by simpa using hne) hres
    exact hsends rfl
  have hlt := (List.getElem?_eq_some_iff.mp hp).1
  refine ⟨?_, hlive⟩
  by_contra hne
  have := hσ.superseded k p hp (by omega)
  rw [hlive] at this
  cases this

/-- What a playback sends carries its number. -/
theorem WireInv.resumed_sends (hσ : WireInv cfg σ) {k : Nat} {p : Playback}
    {t : AsyncTask PlaybackPc} {w : Wake Outcome} {e : Option (List CallEvent)}
    (hp : σ.speakTasks[k]? = some p)
    (hres : p.utterance.runPlayback.Resumes p.task w t e) :
    ∃ new : List Frame, sends (e.getD []) = new.map (k, ·) ∧
      p.utterance.Sent (withKey k (sends σ.log) ++ new) t := by
  obtain ⟨role, hu⟩ := hσ.utterance k p hp
  obtain ⟨new, hnew, hsent⟩ := Utterance.resumes_continues (hσ.sent k p hp) hres
  refine ⟨new, ?_, hsent⟩
  rw [hu] at hnew
  exact hnew

/-- A step that changes neither the playback tasks nor the wire. -/
theorem wireInv_same (hσ : WireInv cfg σ) (hsup : τ.Superseded)
    (htasks : τ.speakTasks = σ.speakTasks) (hsends : sends τ.log = sends σ.log)
    (hspeaks : spokenTexts τ.log = spokenTexts σ.log) : WireInv cfg τ := by
  refine ⟨hsup, ?_, ?_, ?_, ?_, ?_⟩
  · rw [htasks]
    exact hσ.utterance
  · rw [htasks, hsends]
    exact hσ.sent
  · rw [htasks, hspeaks]
    exact hσ.spoken
  · rw [htasks, hsends]
    exact hσ.known
  · rw [hsends]
    exact hσ.sorted

theorem wireInv_cancelled (hσ : WireInv cfg σ) (hsup : τ.Superseded)
    (htasks : τ.speakTasks = σ.cancelSpeak.speakTasks) (hsends : sends τ.log = sends σ.log)
    (hspeaks : spokenTexts τ.log = spokenTexts σ.log) : WireInv cfg τ := by
  refine ⟨hsup, ?_, ?_, ?_, ?_, ?_⟩
  · rw [htasks]
    intro k p hp
    exact (hσ.cancelSpeak hp).1
  · rw [htasks, hsends]
    intro k p hp
    exact (hσ.cancelSpeak hp).2
  · rw [htasks, hspeaks, texts_congr cancelSpeak_utterances]
    exact hσ.spoken
  · rw [htasks, hsends, cancelSpeak_length]
    exact hσ.known
  · rw [hsends]
    exact hσ.sorted

theorem wireInv_spoke {text : String} {role : Option Role} (hσ : WireInv cfg σ)
    (hsup : τ.Superseded) (htasks : τ.speakTasks = (σ.speak cfg text role).speakTasks)
    (hsends : sends τ.log = sends σ.log)
    (hspeaks : spokenTexts τ.log = spokenTexts σ.log ++ [text]) : WireInv cfg τ := by
  refine ⟨hsup, ?_, ?_, ?_, ?_, ?_⟩
  · rw [htasks]
    intro k p hp
    rcases speak_getElem? hp with ⟨rfl, rfl⟩ | ⟨-, hp⟩
    · exact ⟨role, rfl⟩
    · exact (hσ.cancelSpeak hp).1
  · rw [htasks, hsends]
    intro k p hp
    rcases speak_getElem? hp with ⟨rfl, rfl⟩ | ⟨-, hp⟩
    · -- nothing sent carries the number of a task that is just created
      have hnone : withKey σ.speakTasks.length (sends σ.log) = [] :=
        withKey_eq_nil fun s hs => by
          have := hσ.known s hs
          omega
      have hprog : (cfg.utterance σ.speakTasks.length text role).Progress
          (withKey σ.speakTasks.length (sends σ.log)) .created := hnone
      exact hprog.suspended false
    · exact (hσ.cancelSpeak hp).2
  · rw [htasks, hspeaks, speak, List.map_append,
      texts_congr cancelSpeak_utterances, hσ.spoken]
    rfl
  · rw [htasks, hsends, speak_length]
    intro s hs
    have := hσ.known s hs
    omega
  · rw [hsends]
    exact hσ.sorted

theorem wireInv_resumed {j : Nat} {q : Playback} {t : AsyncTask PlaybackPc}
    {w : Wake Outcome} {e : Option (List CallEvent)} (hσ : WireInv cfg σ)
    (hsup : τ.Superseded) (hq : σ.speakTasks[j]? = some q)
    (hres : q.utterance.runPlayback.Resumes q.task w t e)
    (htasks : τ.speakTasks = σ.speakTasks.set j { q with task := t })
    (hlog : τ.log = σ.log ++ e.getD []) : WireInv cfg τ := by
  obtain ⟨new, hnew, hsent⟩ := hσ.resumed_sends hq hres
  have hspeaks := spokenTexts_of_isPlayback (Utterance.resumes_log hres)
  have hsends : sends τ.log = sends σ.log ++ sends (e.getD []) := by
    rw [hlog, sends_append]
  have hlt := (List.getElem?_eq_some_iff.mp hq).1
  refine ⟨hsup, ?_, ?_, ?_, ?_, ?_⟩
  · intro k p hp
    rw [htasks] at hp
    rcases getElem?_set_cases hp with ⟨rfl, rfl⟩ | ⟨-, hp⟩
    · exact hσ.utterance j q hq
    · exact hσ.utterance k p hp
  · intro k p hp
    rw [hsends, hnew, withKey_append]
    rw [htasks] at hp
    rcases getElem?_set_cases hp with ⟨rfl, rfl⟩ | ⟨hjk, hp⟩
    · rw [withKey_map_self]
      exact hsent
    · rw [withKey_map_of_ne hjk, List.append_nil]
      exact hσ.sent k p hp
  · rw [htasks, hlog, spokenTexts_append, hspeaks, List.append_nil, ← hσ.spoken]
    exact texts_congr (set_utterances hq rfl)
  · rw [htasks, hsends, List.length_set]
    intro s hs
    rcases List.mem_append.mp hs with hs | hs
    · exact hσ.known s hs
    · rw [hnew] at hs
      obtain ⟨x, -, rfl⟩ := List.mem_map.mp hs
      exact hlt
  · rw [hsends, List.pairwise_append]
    refine ⟨hσ.sorted, ?_, ?_⟩
    · rw [hnew, List.pairwise_map]
      exact List.pairwise_of_forall fun _ _ => Nat.le_refl _
    · intro s hs s' hs'
      -- a task that sends is the last, so no number on the wire is larger
      have hlast := (hσ.last_sends hq hres (List.ne_nil_of_mem hs')).1
      rw [hnew] at hs'
      obtain ⟨x, -, rfl⟩ := List.mem_map.mp hs'
      have := hσ.known s hs
      show s.1 ≤ j
      omega

theorem wireInv_step {a : CallAct} (hσ : WireInv cfg σ) (h : PlaybackView cfg σ τ a) :
    WireInv cfg τ := by
  have hsup := superseded_step hσ.superseded h
  cases h with
  | same htasks hsends hspeaks => exact wireInv_same hσ hsup htasks hsends hspeaks
  | cancelled htasks hsends hspeaks => exact wireInv_cancelled hσ hsup htasks hsends hspeaks
  | spoke text role htasks hsends hspeaks => exact wireInv_spoke hσ hsup htasks hsends hspeaks
  | resumed hq hres htasks hlog => exact wireInv_resumed hσ hsup hq hres htasks hlog

theorem wireInv_inductive : (callSys cfg).Inductive (WireInv cfg) where
  init := by
    rintro σ ⟨registry, rfl⟩
    exact wireInv_init
  step _ _ _ hσ hs := wireInv_step hσ (step_cases hs).playbackView

theorem wireInv_run {registry : ToolRegistry} {tr : List (CallOrchestrator × CallAct)}
    (h : (callSys cfg).Run { llm := { registry } } tr σ) : WireInv cfg σ :=
  wireInv_inductive.run ⟨registry, rfl⟩ h

end CallOrchestrator

open CallOrchestrator

/-- **Utterances never mix.** In every run of a call the frames sent are, in the
order of the `_speak` calls, what each utterance sent; that is a prefix of the
utterance's full frame sequence; and a send is begun only by the latest
playback, and only while it is not cancelled. -/
theorem utterances_never_mix {cfg : CallConfig} {registry : ToolRegistry}
    {tr : List (CallOrchestrator × CallAct)} {σ : CallOrchestrator}
    (h : (callSys cfg).Run { llm := { registry } } tr σ) :
    σ.speakTasks.map (·.utterance.text) = spokenTexts σ.log ∧
    (sends σ.log).map (·.2) =
      ((List.range σ.speakTasks.length).flatMap fun k => withKey k (sends σ.log)) ∧
    (∀ k (p : Playback), σ.speakTasks[k]? = some p →
      withKey k (sends σ.log) <+: (cfg.utterance k p.utterance.text none).frames) ∧
    ∀ q ∈ tr, ∀ ρ s, (callSys cfg).step q.1 q.2 = some ρ → s ∈ sends ρ.log →
      s ∈ sends q.1.log ∨ (s.1 + 1 = q.1.speakTasks.length ∧
        ∃ p, q.1.speakTasks[s.1]? = some p ∧ p.task.settled = false) := by
  have hσ := wireInv_run h
  refine ⟨hσ.spoken, eq_flatMap_of_sorted hσ.sorted hσ.known, ?_, ?_⟩
  · intro k p hp
    obtain ⟨role, hu⟩ := hσ.utterance k p hp
    have hsent := (hσ.sent k p hp).1
    rw [hu] at hsent
    exact hsent
  · rintro ⟨σ, a⟩ hmem ρ s hstep hs
    obtain ⟨pre, post, rfl⟩ := List.append_of_mem hmem
    obtain ⟨-, hpre, -, -⟩ := h.split rfl
    have hσ := wireInv_run hpre
    have hview : PlaybackView cfg σ ρ a := (step_cases hstep).playbackView
    cases hview with
    | same htasks hsends hspeaks => exact .inl (hsends ▸ hs)
    | cancelled htasks hsends hspeaks => exact .inl (hsends ▸ hs)
    | spoke text role htasks hsends hspeaks => exact .inl (hsends ▸ hs)
    | @resumed k p t w e hp hres htasks hlog =>
        rw [hlog, sends_append] at hs
        rcases List.mem_append.mp hs with hs | hs
        · exact .inl hs
        · obtain ⟨new, hnew, -⟩ := hσ.resumed_sends hp hres
          obtain ⟨hlast, hlive⟩ := hσ.last_sends hp hres (List.ne_nil_of_mem hs)
          rw [hnew] at hs
          obtain ⟨x, -, rfl⟩ := List.mem_map.mp hs
          exact .inr ⟨hlast, p, hp, hlive⟩

/-- The greeting and one reply, each of one short chunk; the caller interrupts
the greeting by a whole turn. -/
theorem utterances_never_mix_reply :
    let cfg : CallConfig := { transport := .twilio, synthesize := fun k _ => [[0, k.toUInt8]] }
    ∃ tr σ, (callSys cfg).Run { llm := { registry := ⟨[]⟩ } } tr σ ∧
      (sends σ.log).map (·.2) =
        [.audio [0, 0], .audio [0, 1], .mark "eot"] ∧
      ((sends σ.log).map (·.2) =
        (List.range σ.speakTasks.length).flatMap fun k => withKey k (sends σ.log)) := by
  intro cfg
  let reply : Response :=
    { events := [.textDelta "Hello"], content := [.text "Hello"]
      usage := ⟨1, 1, none, none⟩, stopReason := some .endTurn }
  let acts : List CallAct :=
    [.starting .returns, .starting .returns, .starting .returns,
     .consumer (.outcome .returns), .playback 0 (.outcome .returns),
     .playback 0 (.outcome .returns), .playback 0 (.outcome .returns),
     .enqueue "Hi there" true, .take, .consumer (.outcome .returns),
     .consumer (.outcome .returns), .consumer (.outcome (.responds reply)),
     .consumer (.outcome .returns), .consumer (.outcome .returns),
     .playback 0 (.thrown false),
     .playback 1 (.outcome .returns), .playback 1 (.outcome .returns),
     .playback 1 (.outcome .returns), .playback 1 (.outcome .returns)]
  let start : CallOrchestrator := { llm := { registry := ⟨[]⟩ } }
  have hrun : (callSys cfg).Run start ((callSys cfg).trace start acts) _ :=
    TSys.Run.exec acts (by decide)
  exact ⟨_, _, hrun, by decide, (utterances_never_mix hrun).2.1⟩

end VoiceAgent
