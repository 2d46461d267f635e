import VoiceAgent.Lib.Indexed
import VoiceAgent.Logic.Wire

/-!
# The playback tasks of a call

What a step can do to the playback tasks and to the wire (`PlaybackView`), and
the invariant behind every claim about them: all but the last task are done or
asked to cancel (`Superseded`), so at most one of them still runs code of its
own.
-/

namespace VoiceAgent

open Lib

namespace CallOrchestrator

variable {cfg : CallConfig} {σ τ : CallOrchestrator}

theorem cancelSpeak_getElem? {k : Nat} {p : Playback}
    (h : σ.cancelSpeak.speakTasks[k]? = some p) :
    ∃ q, σ.speakTasks[k]? = some q ∧ p.utterance = q.utterance ∧
      p.task = if k + 1 = σ.speakTasks.length then q.task.cancel else q.task := by
  obtain ⟨q, hq, rfl⟩ := getElem?_modify_cases h
  have hlt := (List.getElem?_eq_some_iff.mp hq).1
  refine ⟨q, hq, ?_⟩
  by_cases hk : k + 1 = σ.speakTasks.length
  · rw [if_pos (by omega), if_pos hk]
    exact ⟨rfl, rfl⟩
  · rw [if_neg (by omega), if_neg hk]
    exact ⟨rfl, rfl⟩

theorem speak_getElem? {text : String} {role : Option Role} {k : Nat} {p : Playback}
    (h : (σ.speak cfg text role).speakTasks[k]? = some p) :
    (k = σ.speakTasks.length ∧ p = ⟨cfg.utterance k text role, .suspended .created false⟩) ∨
    (k < σ.speakTasks.length ∧ σ.cancelSpeak.speakTasks[k]? = some p) := by
  have hlen := σ.cancelSpeak_length
  rcases getElem?_snoc_cases h with h | ⟨rfl, rfl⟩
  · have hlt := (List.getElem?_eq_some_iff.mp h).1
    exact .inr ⟨by omega, h⟩
  · rw [hlen]
    exact .inl ⟨rfl, rfl⟩

theorem cancelSpeak_utterances :
    σ.cancelSpeak.speakTasks.map (·.utterance) = σ.speakTasks.map (·.utterance) := by
  refine List.ext_getElem? fun k => ?_
  rw [List.getElem?_map, List.getElem?_map, cancelSpeak, cancelPlayback,
    List.getElem?_modify, Option.map_eq_map, Option.map_map]
  congr 1
  funext p
  show (if _ then _ else _ : Playback).utterance = p.utterance
  split <;> rfl

theorem set_utterances {l : List Playback} {j : Nat} {p q : Playback} (hp : l[j]? = some p)
    (hutterance : q.utterance = p.utterance) :
    (l.set j q).map (·.utterance) = l.map (·.utterance) := by
  rw [List.map_set, hutterance]
  obtain ⟨hj, rfl⟩ := List.getElem?_eq_some_iff.mp hp
  refine List.ext_getElem (by simp) fun k hk hk' => ?_
  rw [List.getElem_set]
  split
  · rename_i hjk
    subst hjk
    rw [List.getElem_map]
  · rfl

/-- The same utterances say the same. -/
theorem texts_congr {l l' : List Playback}
    (h : l'.map (·.utterance) = l.map (·.utterance)) :
    l'.map (·.utterance.text) = l.map (·.utterance.text) := by
  have := congrArg (List.map Utterance.text) h
  rwa [List.map_map, List.map_map] at this

/-- What a step does to the playback tasks, to the wire and to the `_speak` calls. -/
inductive PlaybackView (cfg : CallConfig) (σ : CallOrchestrator) (τ : CallOrchestrator) :
    CallAct → Prop
  | same {a : CallAct} (htasks : τ.speakTasks = σ.speakTasks)
      (hsends : sends τ.log = sends σ.log) (hspeaks : spokenTexts τ.log = spokenTexts σ.log) :
      PlaybackView cfg σ τ a
  | cancelled {a : CallAct} (htasks : τ.speakTasks = σ.cancelSpeak.speakTasks)
      (hsends : sends τ.log = sends σ.log) (hspeaks : spokenTexts τ.log = spokenTexts σ.log) :
      PlaybackView cfg σ τ a
  | spoke {a : CallAct} (text : String) (role : Option Role)
      (htasks : τ.speakTasks = (σ.speak cfg text role).speakTasks)
      (hsends : sends τ.log = sends σ.log)
      (hspeaks : spokenTexts τ.log = spokenTexts σ.log ++ [text]) :
      PlaybackView cfg σ τ a
  | resumed {k : Nat} {p : Playback} {t : AsyncTask PlaybackPc} {w : Wake Outcome}
      {e : Option (List CallEvent)} (hp : σ.speakTasks[k]? = some p)
      (hres : p.utterance.runPlayback.Resumes p.task w t e)
      (htasks : τ.speakTasks = σ.speakTasks.set k { p with task := t })
      (hlog : τ.log = σ.log ++ e.getD []) : PlaybackView cfg σ τ (.playback k w)

/-- Joining changes nothing but where `stop()` is. -/
theorem join_speakTasks (tasks : List TaskRef) :
    (σ.join tasks).speakTasks = σ.speakTasks := by
  obtain ⟨pc, h⟩ := σ.join_eq tasks
  rw [h]

theorem join_log (tasks : List TaskRef) : (σ.join tasks).log = σ.log := by
  obtain ⟨pc, h⟩ := σ.join_eq tasks
  rw [h]

end CallOrchestrator

namespace Consumer

variable {llm : ClaudeAgent} {now : Nat} {pc : ConsumerPc} {w : ConsumerOutcome}
  {t : AsyncTask ConsumerPc} {e : TurnEffect}

theorem afterRunTurn_isRow (started : Nat) (status : TurnStatus) :
    ∀ ev ∈ (afterRunTurn now started llm status).2.events, ev.isRow := by
  cases status <;> simp [afterRunTurn, CallEvent.isRow]

theorem afterRunTurn_say (started : Nat) (status : TurnStatus) :
    (afterRunTurn now started llm status).2.say = none := by
  cases status <;> rfl

theorem addToolCalls_isRow (turn : TurnResult) (calls : List ToolCall) :
    ∀ ev ∈ (addToolCalls llm turn calls).2.events, ev.isRow := by
  cases calls <;> simp [addToolCalls, CallEvent.isRow]

theorem addToolCalls_say (turn : TurnResult) (calls : List ToolCall) :
    (addToolCalls llm turn calls).2.say = none := by
  cases calls <;> rfl

/-- The consumer's own events are the rows it writes. -/
theorem isRow_go (h : Go llm now pc w t e) : ∀ ev ∈ e.events, ev.isRow := by
  cases h with
  | responds hgo => exact afterRunTurn_isRow _ _
  | toolDone hgo => exact afterRunTurn_isRow _ _
  | turnAdded => exact addToolCalls_isRow _ _
  | callAdded => exact addToolCalls_isRow _ _
  | _ => nofun

theorem isTurn_go (h : Go llm now pc w t e) : ∀ ev ∈ e.events, ev.isTurn :=
  fun ev hev => isTurn_of_isRow (isRow_go h ev hev)

/-- Only the end of a turn whose text is not blank says anything. -/
theorem say_go {text : String} (h : Go llm now pc w t e) (hsay : e.say = some text) :
    ∃ turn, pc = .leavingTurnScope turn ∧ w = .returns ∧ blank turn.text = false ∧
      text = turn.text := by
  cases h with
  | responds hgo =>
      rw [afterRunTurn_say] at hsay
      cases hsay
  | toolDone hgo =>
      rw [afterRunTurn_say] at hsay
      cases hsay
  | turnAdded =>
      rw [addToolCalls_say] at hsay
      cases hsay
  | callAdded =>
      rw [addToolCalls_say] at hsay
      cases hsay
  | @speaks turn =>
      refine ⟨turn, rfl, rfl, ?_⟩
      cases hblank : blank turn.text with
      | true => simp [hblank] at hsay
      | false => exact ⟨rfl, by simpa [hblank] using hsay.symm⟩
  | _ => cases hsay

end Consumer

namespace CallOrchestrator

variable {cfg : CallConfig} {σ τ : CallOrchestrator}

/-- A step that leaves the tasks alone and logs none of their events. -/
theorem PlaybackView.same' {a : CallAct} {events : List CallEvent}
    (htasks : τ.speakTasks = σ.speakTasks) (hlog : τ.log = σ.log ++ events)
    (hevents : ∀ e ∈ events, e.isTurn) : PlaybackView cfg σ τ a := by
  refine .same htasks ?_ ?_
  · rw [hlog, sends_append, sends_of_isTurn hevents, List.append_nil]
  · rw [hlog, spokenTexts_append, spokenTexts_of_isTurn hevents, List.append_nil]

theorem Step.playbackView {a : CallAct} (h : Step cfg σ a τ) : PlaybackView cfg σ τ a := by
  cases h with
  | started hpc =>
      refine .spoke _ _ rfl ?_ ?_
      · rw [speak_log, sends_append]
        exact List.append_nil _
      · rw [speak_log, spokenTexts_append]
        rfl
  | takeFinal htask hqueue hfinal =>
      refine .same' rfl rfl ?_
      simp [CallEvent.isTurn]
  | bargeIn htask hqueue hint hspeaking =>
      refine .cancelled rfl ?_ ?_
      · rw [sends_append]
        exact List.append_nil _
      · rw [spokenTexts_append]
        exact List.append_nil _
  | @consumer task t w e htask hres =>
      cases hres with
      | @outcome pc w t e hgo =>
          have hturn := Consumer.isTurn_go (Consumer.go_cases hgo)
          cases hsay : e.say with
          | none =>
              refine .same' ?_ ?_ hturn <;> simp [afterConsumer, hsay]
          | some text =>
              refine .spoke text none ?_ ?_ ?_
              · simp only [afterConsumer, hsay]
                rfl
              · simp only [afterConsumer, hsay, speak_log, sends_append,
                  sends_of_isTurn hturn, List.append_nil]
                exact List.append_nil _
              · simp only [afterConsumer, hsay, speak_log, spokenTexts_append,
                  spokenTexts_of_isTurn hturn, List.append_nil]
                rfl
      | thrown => exact .same rfl rfl rfl
      | unwound => exact .same rfl rfl rfl
  | playback hp hres => exact .resumed hp hres rfl rfl
  | stop hstart hpc =>
      refine .cancelled ?_ ?_ ?_
      · rw [join_speakTasks]
        rfl
      · rw [join_log]
        rfl
      · rw [join_log]
        rfl
  | joined hpc hdone =>
      exact .same (join_speakTasks _) (by rw [join_log]) (by rw [join_log])
  | ending hpc =>
      refine .same rfl ?_ ?_
      · rw [sends_append]
        exact List.append_nil _
      · rw [spokenTexts_append]
        exact List.append_nil _
  | _ => exact .same rfl rfl rfl

/-- A step only appends to the log, and only `stop()` writes `ended_at`. -/
theorem log_step {a : CallAct} (h : Step cfg σ a τ) :
    ∃ events, τ.log = σ.log ++ events ∧ (.ended ∈ events → σ.stopPc = .selecting) := by
  cases h with
  | started hpc => exact ⟨[_], rfl, by simp⟩
  | takeFinal htask hqueue hfinal => exact ⟨[_, _], rfl, by simp⟩
  | bargeIn htask hqueue hint hspeaking => exact ⟨[_], rfl, by simp⟩
  | @consumer task t w e htask hres =>
      cases hres with
      | @outcome pc w t e hgo =>
          have hturn : .ended ∉ e.events := fun hmem => by
            have := Consumer.isTurn_go (Consumer.go_cases hgo) _ hmem
            cases this
          cases hsay : e.say with
          | none => exact ⟨e.events, by simp [afterConsumer, hsay], fun h => absurd h hturn⟩
          | some text =>
              refine ⟨e.events ++ [.speak text], by simp [afterConsumer, hsay], fun h => ?_⟩
              simp [hturn] at h
      | thrown => exact ⟨[], (List.append_nil _).symm, by simp⟩
      | unwound => exact ⟨[], (List.append_nil _).symm, by simp⟩
  | playback hp hres =>
      refine ⟨_, rfl, fun hmem => ?_⟩
      have := Utterance.resumes_log hres _ hmem
      cases this
  | stop hstart hpc => exact ⟨[], by rw [join_log, List.append_nil]; rfl, by simp⟩
  | joined hpc hdone => exact ⟨[], by rw [join_log, List.append_nil], by simp⟩
  | ending hpc => exact ⟨[.ended], rfl, fun _ => hpc⟩
  | _ => exact ⟨[], (List.append_nil _).symm, by simp⟩

/-- Every playback that a later one has replaced is done or asked to cancel. -/
def Superseded (σ : CallOrchestrator) : Prop :=
  ∀ k p, σ.speakTasks[k]? = some p → k + 1 < σ.speakTasks.length → p.task.settled = true

theorem superseded_step {a : CallAct} (hσ : σ.Superseded) (h : PlaybackView cfg σ τ a) :
    τ.Superseded := by
  intro k p hp hk
  cases h with
  | same htasks hsends hspeaks =>
      rw [htasks] at hp hk
      exact hσ k p hp hk
  | cancelled htasks hsends hspeaks =>
      rw [htasks] at hp hk
      rw [cancelSpeak_length] at hk
      obtain ⟨q, hq, -, htask⟩ := cancelSpeak_getElem? hp
      rw [htask, if_neg (by omega)]
      exact hσ k q hq hk
  | spoke text role htasks hsends hspeaks =>
      rw [htasks] at hp hk
      rw [speak_length] at hk
      rcases speak_getElem? hp with ⟨rfl, -⟩ | ⟨hlt, hp⟩
      · omega
      · -- the playback replaced now is cancelled, the older ones were settled
        obtain ⟨q, hq, -, htask⟩ := cancelSpeak_getElem? hp
        rw [htask]
        split
        · exact AsyncTask.settled_cancel _
        · exact hσ k q hq (by omega)
  | @resumed j q t w e hq hres htasks hlog =>
      rw [htasks] at hp hk
      rw [List.length_set] at hk
      rcases getElem?_set_cases hp with ⟨rfl, rfl⟩ | ⟨-, hp⟩
      · exact (Coroutine.resume_settled (hσ j q hq hk) hres).1
      · exact hσ k p hp hk

end CallOrchestrator

end VoiceAgent
