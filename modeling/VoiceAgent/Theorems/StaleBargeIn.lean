import VoiceAgent.Logic.Turns

/-!
# Stale barge-ins

The STT queue is read only between turns, so a partial that arrives while
`run_turn` is in progress is read after the turn has started to speak, and
`_is_speaking()` then answers for a playback the caller had not heard yet. What
decides is the queue at the `_speak` call: as long as no partial long enough to
interrupt waits there, every such partial in the queue was enqueued with all
playbacks of the call already started.
-/

namespace VoiceAgent

open Lib Lib.TSys

def CallEvent.bargeIn? : CallEvent → Option (Nat × Nat)
  | .bargeIn playback spoken => some (playback, spoken)
  | _ => none

/-- The playbacks that partials cancelled, each with the number of playbacks
started when the partial was enqueued. -/
def bargeIns (log : List CallEvent) : List (Nat × Nat) := log.filterMap CallEvent.bargeIn?

@[simp] theorem bargeIns_append (log log' : List CallEvent) :
    bargeIns (log ++ log') = bargeIns log ++ bargeIns log' := List.filterMap_append

theorem bargeIns_of_isTurn {log : List CallEvent} (h : ∀ e ∈ log, e.isTurn) :
    bargeIns log = [] := by
  refine filterMap_eq_nil_of_class (fun e he => ?_) h
  cases e <;> first | rfl | cases he

theorem bargeIns_of_isPlayback {log : List CallEvent} (h : ∀ e ∈ log, e.isPlayback) :
    bargeIns log = [] := by
  refine filterMap_eq_nil_of_class (fun e he => ?_) h
  cases e <;> first | rfl | cases he

namespace CallOrchestrator

/-- The step calls `_speak`: with the greeting, or with the reply of a turn. -/
def callsSpeak (σ : CallOrchestrator) : CallAct → Bool
  | .starting .returns => σ.startPc = .leavingScope
  | .consumer (.outcome .returns) =>
      match σ.sttTask with
      | some (.suspended (.leavingTurnScope turn) _) => !blank turn.text
      | _ => false
  | _ => false

/-- The step calls `_speak` while a partial long enough to interrupt waits in
the STT queue. -/
def speaksOver (σ : CallOrchestrator) (a : CallAct) : Bool :=
  σ.callsSpeak a && σ.sttQueue.any Transcript.interrupts

variable {cfg : CallConfig} {σ τ : CallOrchestrator}

/-- The partials that wait were enqueued after the last `_speak` call, and so
were those that cancelled a playback. -/
structure Fresh (σ : CallOrchestrator) : Prop where
  queue : ∀ t ∈ σ.sttQueue, t.interrupts = true → t.spoken = σ.speakTasks.length
  cancelled : ∀ b ∈ bargeIns σ.log, b.1 < b.2

theorem speakTasks_ne_nil_of_isSpeaking (h : σ.isSpeaking = true) : 0 < σ.speakTasks.length := by
  refine List.length_pos_of_ne_nil fun hnil => ?_
  rw [isSpeaking, hnil] at h
  cases h

/-- After a `_speak` call over a queue without such partials nothing stale waits. -/
theorem Fresh.of_speak {text : String} {role : Option Role}
    (hcancelled : ∀ b ∈ bargeIns σ.log, b.1 < b.2)
    (hnone : ∀ t ∈ σ.sttQueue, t.interrupts = false) : Fresh (σ.speak cfg text role) where
  queue t ht hint := by
    rw [hnone t ht] at hint
    cases hint
  cancelled := by
    rw [speak_log, bargeIns_append]
    intro b hb
    rcases List.mem_append.mp hb with hb | hb
    · exact hcancelled b hb
    · cases hb

theorem none_interrupts {a : CallAct} (hspeak : σ.callsSpeak a = true)
    (hno : ¬ σ.speaksOver a = true) : ∀ t ∈ σ.sttQueue, t.interrupts = false := by
  rw [speaksOver, hspeak, Bool.true_and, List.any_eq_true] at hno
  intro t ht
  by_contra hint
  exact hno ⟨t, ht, by simpa using hint⟩

/-- A step that starts no playback, enqueues nothing and lets no partial
interrupt. -/
theorem Fresh.same (hσ : Fresh σ) (hqueue : τ.sttQueue ⊆ σ.sttQueue)
    (hlen : τ.speakTasks.length = σ.speakTasks.length)
    (hlog : bargeIns τ.log = bargeIns σ.log) : Fresh τ where
  queue t ht hint := by
    rw [hlen]
    exact hσ.queue t (hqueue ht) hint
  cancelled := by
    rw [hlog]
    exact hσ.cancelled

theorem fresh_step {a : CallAct} (hσ : Fresh σ) (hno : ¬ σ.speaksOver a = true)
    (h : Step cfg σ a τ) : Fresh τ := by
  cases h with
  | enqueue text isFinal =>
      refine ⟨fun t ht hint => ?_, hσ.cancelled⟩
      rcases List.mem_append.mp ht with ht | ht
      · exact hσ.queue t ht hint
      · rw [List.mem_singleton.mp ht]
  | started hpc =>
      have hnone := none_interrupts (by simp [callsSpeak, hpc]) hno
      exact .of_speak hσ.cancelled hnone
  | @takeFinal t rest htask hq hfinal =>
      refine hσ.same (hq ▸ List.subset_cons_self t rest) rfl ?_
      rw [bargeIns_append]
      exact List.append_nil _
  | @bargeIn t rest htask hq hint hspeaking =>
      have hpos := speakTasks_ne_nil_of_isSpeaking hspeaking
      have hsub : rest ⊆ σ.sttQueue := hq ▸ List.subset_cons_self t rest
      have hspoken := hσ.queue t (by rw [hq]; exact List.mem_cons_self) hint
      refine ⟨fun s hs hs' => ?_, ?_⟩
      · rw [cancelSpeak_length]
        exact hσ.queue s (hsub hs) hs'
      · -- the partial itself was enqueued over the playback it cancels
        rw [bargeIns_append]
        intro b hb
        rcases List.mem_append.mp hb with hb | hb
        · exact hσ.cancelled b hb
        · obtain rfl : b = (σ.speakTasks.length - 1, t.spoken) := List.mem_singleton.mp hb
          show σ.speakTasks.length - 1 < t.spoken
          omega
  | @takePartial t rest htask hq hfinal =>
      exact hσ.same (hq ▸ List.subset_cons_self t rest) rfl rfl
  | @consumer task t w e htask hres =>
      cases hres with
      | @outcome pc w t e hgo =>
          have hgo := Consumer.go_cases hgo
          have hlog : bargeIns (σ.log ++ e.events) = bargeIns σ.log := by
            rw [bargeIns_append, bargeIns_of_isTurn (Consumer.isTurn_go hgo), List.append_nil]
          cases hsay : e.say with
          | none =>
              simp only [afterConsumer, hsay]
              exact hσ.same (List.Subset.refl _) rfl hlog
          | some text =>
              simp only [afterConsumer, hsay]
              obtain ⟨turn, rfl, rfl, hblank, -⟩ := Consumer.say_go hgo hsay
              have hcalls : σ.callsSpeak (.consumer (.outcome .returns)) = true := by
                simp [callsSpeak, htask, hblank]
              have hnone := none_interrupts hcalls hno
              exact .of_speak (by rw [hlog]; exact hσ.cancelled) hnone
      | thrown => exact hσ.same (List.Subset.refl _) rfl rfl
      | unwound => exact hσ.same (List.Subset.refl _) rfl rfl
  | @playback k p t w e hp hres =>
      refine hσ.same (List.Subset.refl _) (List.length_set ..) ?_
      rw [bargeIns_append, bargeIns_of_isPlayback (Utterance.resumes_log hres),
        List.append_nil]
  | stop hstart hpc =>
      obtain ⟨pc, h⟩ := σ.cancelAll.join_eq σ.tasks
      rw [h]
      exact hσ.same (List.Subset.refl _) σ.cancelSpeak_length rfl
  | @joined t tasks hpc hdone =>
      obtain ⟨pc, h⟩ := σ.join_eq tasks
      rw [h]
      exact hσ.same (List.Subset.refl _) rfl rfl
  | ending hpc =>
      refine hσ.same (List.Subset.refl _) rfl ?_
      rw [bargeIns_append]
      exact List.append_nil _
  | _ => exact hσ.same (List.Subset.refl _) rfl rfl

/-! ## The condition is needed -/

/-- What waits in the queue was enqueued over the playbacks there are. -/
def Enqueued (σ : CallOrchestrator) : Prop := ∀ t ∈ σ.sttQueue, t.spoken ≤ σ.speakTasks.length

theorem length_step {a : CallAct} (h : PlaybackView cfg σ τ a) :
    σ.speakTasks.length ≤ τ.speakTasks.length := by
  cases h with
  | same htasks hsends hspeaks => rw [htasks]
  | cancelled htasks hsends hspeaks => rw [htasks, cancelSpeak_length]
  | spoke text role htasks hsends hspeaks =>
      rw [htasks, speak_length]
      omega
  | resumed hp hres htasks hlog => rw [htasks, List.length_set]

theorem enqueued_step {a : CallAct} (hσ : Enqueued σ) (h : Step cfg σ a τ) : Enqueued τ := by
  have hlen := length_step h.playbackView
  intro t ht
  have hold : t ∈ σ.sttQueue → t.spoken ≤ τ.speakTasks.length := fun h =>
    Nat.le_trans (hσ t h) hlen
  cases h.consumerView with
  | enqueued htask hllm hqueue hlog =>
      rw [hqueue] at ht
      rcases List.mem_append.mp ht with ht | ht
      · exact hold ht
      · rw [List.mem_singleton.mp ht]
        exact hlen
  | final hloop hpop hfinal htask hllm hqueue hlog =>
      rw [hqueue] at ht
      exact hold (hpop ▸ List.mem_cons_of_mem _ ht)
  | interim hloop hpop hfinal htask hllm hqueue hlog haside =>
      rw [hqueue] at ht
      exact hold (hpop ▸ List.mem_cons_of_mem _ ht)
  | same hact hother htask hllm hqueue hlog haside => exact hold (hqueue ▸ ht)
  | started hpc htask hllm hqueue hlog => exact hold (hqueue ▸ ht)
  | went hloop hgo htask hllm hqueue hlog haside => exact hold (hqueue ▸ ht)
  | thrown hloop htask hsettled hllm hqueue hlog => exact hold (hqueue ▸ ht)
  | unwound hloop htask hllm hqueue hlog => exact hold (hqueue ▸ ht)
  | stopped hpc hstart htask hllm hqueue hlog => exact hold (hqueue ▸ ht)

/-- A consumer at its loop, with the last playback under way and only partials
from before it in the queue, can take one that cancels it. -/
theorem exists_stale {m : Nat} (queue : List Transcript) : ∀ σ : CallOrchestrator,
    σ.sttTask = some (.suspended .transcripts false) → σ.sttQueue = queue →
    σ.speakTasks.length = m + 1 → σ.isSpeaking = true →
    queue.any Transcript.interrupts = true → (∀ t ∈ queue, t.spoken ≤ m) →
    ∃ tr τ, (callSys cfg).Run σ tr τ ∧ ∃ b ∈ bargeIns τ.log, ¬ b.1 < b.2 := by
  induction queue with
  | nil =>
      intro σ _ _ _ _ hany
      cases hany
  | cons t rest ih =>
      intro σ hloop hqueue hlen hspeaking hany hold
      by_cases hint : t.interrupts = true
      · -- this one does it
        have hstep : (callSys cfg).step σ .take =
            some ({ σ with sttQueue := rest }.onTranscript t) := by
          show σ.step cfg .take = _
          simp only [step, hloop, hqueue]
        rw [Transcript.interrupts, Bool.and_eq_true, Bool.not_eq_true'] at hint
        have hcond : ({ σ with sttQueue := rest }.isSpeaking &&
            decide (bargeInMinChars ≤ t.text.length)) = true := by
          rw [hint.2, Bool.and_true]
          exact hspeaking
        rw [onTranscript, hint.1, if_neg Bool.false_ne_true, if_pos hcond] at hstep
        refine ⟨_, _, Run.single hstep, (m, t.spoken), ?_, ?_⟩
        · rw [bargeIns_append]
          refine List.mem_append_right _ (List.mem_singleton.mpr ?_)
          show _ = (σ.speakTasks.length - 1, t.spoken)
          rw [hlen]
          rfl
        · exact Nat.not_lt.mpr (hold t List.mem_cons_self)
      · -- this one is dealt with without a word
        rw [Bool.not_eq_true] at hint
        rw [List.any_cons, hint, Bool.false_or] at hany
        obtain ⟨tr, ρ, hrun, hloop', hqueue', -, hsilent⟩ := @take_one cfg _ _ _ hloop hqueue
        have htasks := hsilent hint
        obtain ⟨tr', τ, hrun', hstale⟩ := ih ρ hloop' hqueue' (by rw [htasks, hlen])
          (by rw [isSpeaking, htasks]; exact hspeaking) hany
          fun s hs => hold s (List.mem_cons_of_mem _ hs)
        exact ⟨_, τ, hrun.append hrun', hstale⟩

theorem speak_isSpeaking {text : String} {role : Option Role}
    (h : τ.speakTasks = (σ.speak cfg text role).speakTasks) : τ.isSpeaking = true := by
  rw [isSpeaking, h, speak, List.getLast?_concat]
  rfl

/-- After any step that calls `_speak` over such a partial the call can go on to
a stale barge-in. -/
theorem stale_of_speaksOver {registry : ToolRegistry}
    {tr : List (CallOrchestrator × CallAct)} {a : CallAct}
    (h : (callSys cfg).Run { llm := { registry } } tr σ) (hstep : (callSys cfg).step σ a = some τ)
    (hover : σ.speaksOver a = true) :
    ∃ tr' ρ, (callSys cfg).Run τ tr' ρ ∧ ∃ b ∈ bargeIns ρ.log, ¬ b.1 < b.2 := by
  have hold : Enqueued σ := TSys.Preserved.run (I := Enqueued)
    (fun _ _ _ hσ hs => enqueued_step hσ (step_cases hs)) h nofun
  rw [speaksOver, Bool.and_eq_true] at hover
  obtain ⟨hspeak, hany⟩ := hover
  cases step_cases hstep with
  | started hpc =>
      -- the consumer takes its first step
      let ρ : CallOrchestrator :=
        { σ with startPc := .started, sttTask := some (.suspended .created false) }.speak
          cfg greeting (some .assistant)
      have hfirst : (callSys cfg).step ρ (.consumer (.outcome .returns)) = _ :=
        step_consumer rfl rfl
      obtain ⟨tr', μ, hrun, hstale⟩ := @exists_stale cfg σ.speakTasks.length σ.sttQueue
        (ρ.afterConsumer cfg (.suspended .transcripts false) (some { llm := σ.llm }))
        rfl rfl (speak_length _ _ _) (speak_isSpeaking (σ := { σ with
          startPc := .started, sttTask := some (.suspended .created false) }) rfl) hany hold
      exact ⟨_, μ, Run.cons hfirst hrun, hstale⟩
  | @consumer task t w e htask hres =>
      cases hres with
      | thrown => cases hspeak
      | unwound => cases hspeak
      | @outcome pc w t e hgo =>
          cases Consumer.go_cases hgo with
          | @speaks turn =>
              have hblank : blank turn.text = false := by
                simpa [callsSpeak, htask] using hspeak
              have hτ : σ.afterConsumer cfg (.suspended .transcripts false)
                    (some { llm := σ.llm, say := some turn.text }) =
                  { σ with sttTask := some (.suspended .transcripts false),
                           log := σ.log ++ [] }.speak cfg turn.text none := rfl
              rw [hblank, if_neg Bool.false_ne_true, hτ]
              exact @exists_stale cfg σ.speakTasks.length σ.sttQueue _ rfl rfl
                (speak_length _ _ _) (speak_isSpeaking rfl) hany hold
          | _ => simp [callsSpeak, htask] at hspeak
  | @starting w pc hfrom hfrom' hto hwait =>
      cases w with
      | raises => cases hspeak
      | returns =>
          have hpc : σ.startPc = .leavingScope := by simpa [callsSpeak] using hspeak
          cases hwait hpc
  | _ => cases hspeak

end CallOrchestrator

open CallOrchestrator

/-- **No stale barge-in, where nothing waits.** In every run of a call in which no
partial long enough to interrupt waits in the STT queue when `_speak` is called,
a partial cancels a playback only if that playback had been started when the
partial was enqueued. -/
theorem no_stale_barge_in {cfg : CallConfig} {registry : ToolRegistry}
    {tr : List (CallOrchestrator × CallAct)} {σ : CallOrchestrator}
    (h : (callSys cfg).Run { llm := { registry } } tr σ)
    (hwaits : ∀ p ∈ tr, ¬ p.1.speaksOver p.2) : ∀ b ∈ bargeIns σ.log, b.1 < b.2 := by
  have hstart : Fresh { llm := { registry } } := ⟨nofun, nofun⟩
  have hσ : Fresh σ := h.preserves (I := Fresh) (P := fun σ a => ¬ σ.speaksOver a)
    (fun _ _ _ hσ hno hs => fresh_step hσ hno (step_cases hs)) hstart hwaits
  exact hσ.cancelled

/-- A reply of one line, without tools. -/
def shortReply : Response where
  events := [.textDelta "Hello"]
  content := [.text "Hello"]
  usage := ⟨1, 1, none, none⟩
  stopReason := some .endTurn

/-- The caller says one more word while the model answers: the answer is
cancelled by a partial that was enqueued before it was started. -/
theorem partial_cancels_later_reply :
    ∃ tr σ, (callSys ⟨.webrtc, fun _ _ => []⟩).Run { llm := { registry := ⟨[]⟩ } } tr σ ∧
      ¬ ∀ b ∈ bargeIns σ.log, b.1 < b.2 := by
  let start : CallOrchestrator := { llm := { registry := ⟨[]⟩ } }
  let acts : List CallAct :=
    [.starting .returns, .starting .returns, .starting .returns,
     .consumer (.outcome .returns), .enqueue "Hi there" true, .take,
     .consumer (.outcome .returns), .consumer (.outcome .returns),
     .enqueue "please" false, .consumer (.outcome (.responds shortReply)),
     .consumer (.outcome .returns), .consumer (.outcome .returns), .take]
  have hrun : (callSys ⟨.webrtc, fun _ _ => []⟩).Run start
      ((callSys ⟨.webrtc, fun _ _ => []⟩).trace start acts) _ :=
    TSys.Run.exec acts (by decide)
  exact ⟨_, _, hrun, by decide⟩

/-- The same word after the answer has been started. -/
theorem no_stale_barge_in_reply :
    ∃ tr σ, (callSys ⟨.webrtc, fun _ _ => []⟩).Run { llm := { registry := ⟨[]⟩ } } tr σ ∧
      bargeIns σ.log = [(1, 2)] ∧ ∀ b ∈ bargeIns σ.log, b.1 < b.2 := by
  let start : CallOrchestrator := { llm := { registry := ⟨[]⟩ } }
  let acts : List CallAct :=
    [.starting .returns, .starting .returns, .starting .returns,
     .consumer (.outcome .returns), .enqueue "Hi there" true, .take,
     .consumer (.outcome .returns), .consumer (.outcome .returns),
     .consumer (.outcome (.responds shortReply)), .consumer (.outcome .returns),
     .consumer (.outcome .returns), .enqueue "please" false, .take]
  have hrun : (callSys ⟨.webrtc, fun _ _ => []⟩).Run start
      ((callSys ⟨.webrtc, fun _ _ => []⟩).trace start acts) _ :=
    TSys.Run.exec acts (by decide)
  exact ⟨_, _, hrun, by decide, no_stale_barge_in hrun (by decide)⟩

end VoiceAgent
