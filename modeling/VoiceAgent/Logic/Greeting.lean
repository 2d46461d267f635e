import VoiceAgent.Logic.Playbacks
import VoiceAgent.Logic.Turns

/-!
# The greeting among the playbacks

The first playback of a call is the greeting's and the only one that writes a row
of its own; every later one speaks a reply, whose row the turn handler writes.
-/

namespace VoiceAgent

open Lib Lib.TSys

namespace CallOrchestrator

variable {cfg : CallConfig} {σ τ : CallOrchestrator}

/-- What a step does to the utterances of a call. -/
inductive UtteranceView (cfg : CallConfig) (σ τ : CallOrchestrator) : Prop
  | same (hstart : τ.startPc = .started ↔ σ.startPc = .started)
      (hutterances : τ.speakTasks.map (·.utterance) = σ.speakTasks.map (·.utterance))
  | greets (hfrom : σ.startPc = .leavingScope) (hto : τ.startPc = .started)
      (hutterances : τ.speakTasks.map (·.utterance) = σ.speakTasks.map (·.utterance) ++
        [cfg.utterance σ.speakTasks.length greeting (some .assistant)])
  | replies (text : String) (hconsumer : σ.sttTask.isSome = true)
      (hstart : τ.startPc = σ.startPc)
      (hutterances : τ.speakTasks.map (·.utterance) = σ.speakTasks.map (·.utterance) ++
        [cfg.utterance σ.speakTasks.length text none])

theorem speak_utterances (text : String) (role : Option Role) :
    (σ.speak cfg text role).speakTasks.map (·.utterance) =
      σ.speakTasks.map (·.utterance) ++ [cfg.utterance σ.speakTasks.length text role] := by
  rw [speak, List.map_append, cancelSpeak_utterances, List.map_singleton, cancelSpeak_length]

theorem Step.utteranceView {a : CallAct} (h : Step cfg σ a τ) : UtteranceView cfg σ τ := by
  cases h with
  | starting hfrom hfrom' hto hwait => exact .same (iff_of_false hto hfrom) rfl
  | started hpc => exact .greets hpc rfl (speak_utterances _ _)
  | bargeIn htask hqueue hint hspeaking => exact .same Iff.rfl cancelSpeak_utterances
  | @consumer task t w e htask hres =>
      have hstart := @afterConsumer_startPc cfg σ t e
      cases e with
      | none => exact .same Iff.rfl rfl
      | some e =>
          cases hsay : e.say with
          | none =>
              refine .same (by rw [hstart]) ?_
              simp only [afterConsumer, hsay]
          | some text =>
              refine .replies text (by rw [htask]; rfl) hstart ?_
              simp only [afterConsumer, hsay]
              exact speak_utterances _ _
  | playback hp hres => exact .same Iff.rfl (set_utterances hp rfl)
  | stop hstart hpc =>
      obtain ⟨pc, hjoin⟩ := σ.cancelAll.join_eq σ.tasks
      rw [hjoin]
      exact .same Iff.rfl cancelSpeak_utterances
  | @joined t tasks hpc hdone =>
      obtain ⟨pc, hjoin⟩ := σ.join_eq tasks
      rw [hjoin]
      exact .same Iff.rfl rfl
  | _ => exact .same Iff.rfl rfl

/-- No playback before `start()` has returned; then the greeting's, and after it
playbacks that write no row. -/
structure GreetInv (cfg : CallConfig) (σ : CallOrchestrator) : Prop where
  silent : σ.startPc ≠ .started → σ.speakTasks = []
  greets : σ.startPc = .started → ∃ replies,
    σ.speakTasks.map (·.utterance) =
      cfg.utterance 0 greeting (some .assistant) :: replies ∧
    ∀ u ∈ replies, u.persistRole = none

theorem greetInv_step {a : CallAct} (hσ : GreetInv cfg σ) (hinv : StartInv σ)
    (h : Step cfg σ a τ) : GreetInv cfg τ := by
  cases h.utteranceView with
  | same hstart hutterances =>
      constructor
      · intro hnot
        rw [hσ.silent fun h => hnot (hstart.mpr h), List.map_nil] at hutterances
        exact List.map_eq_nil_iff.mp hutterances
      · intro hpc
        rw [hutterances]
        exact hσ.greets (hstart.mp hpc)
  | greets hfrom hto hutterances =>
      have hnone : σ.speakTasks = [] := hσ.silent (by rw [hfrom]; nofun)
      refine ⟨fun h => absurd hto h, fun _ => ⟨[], ?_, by simp⟩⟩
      rw [hutterances, hnone]
      rfl
  | replies text hconsumer hstart hutterances =>
      obtain ⟨rest, heq, hrest⟩ := hσ.greets (hinv.mp hconsumer)
      rw [heq] at hutterances
      refine ⟨fun h => absurd (hstart.trans (hinv.mp hconsumer)) h, fun _ => ⟨_, hutterances, ?_⟩⟩
      intro u hu
      rcases List.mem_append.mp hu with hu | hu
      · exact hrest u hu
      · obtain rfl := List.mem_singleton.mp hu
        rfl

theorem greetInv_run {registry : ToolRegistry} {tr : List (CallOrchestrator × CallAct)}
    (h : (callSys cfg).Run { llm := { registry } } tr σ) : GreetInv cfg σ := by
  induction h with
  | nil => exact ⟨fun _ => rfl, nofun⟩
  | snoc hrun hstep ih => exact greetInv_step ih (startInv_run hrun) (step_cases hstep)

/-- The first playback is the greeting's. -/
theorem GreetInv.first (hσ : GreetInv cfg σ) {p : Playback} (hp : σ.speakTasks[0]? = some p) :
    p.utterance = cfg.utterance 0 greeting (some .assistant) := by
  have hstart : σ.startPc = .started := by
    by_contra hne
    rw [hσ.silent hne] at hp
    cases hp
  obtain ⟨rest, heq, -⟩ := hσ.greets hstart
  have := congrArg (·[0]?) heq
  simpa [List.getElem?_map, hp] using this

/-- Only the greeting's playback writes a row, and it writes the greeting. -/
theorem GreetInv.text_of_persistRole (hσ : GreetInv cfg σ) {k : Nat} {p : Playback}
    (hp : σ.speakTasks[k]? = some p) (hrole : p.utterance.persistRole = some .assistant) :
    p.utterance.text = greeting := by
  cases k with
  | zero => rw [hσ.first hp]; rfl
  | succ k =>
      have hstart : σ.startPc = .started := by
        by_contra hne
        rw [hσ.silent hne] at hp
        cases hp
      obtain ⟨rest, heq, hrest⟩ := hσ.greets hstart
      have hget := congrArg (·[k + 1]?) heq
      simp only [List.getElem?_map, hp, Option.map_some, List.getElem?_cons_succ] at hget
      rw [hrest _ (List.mem_of_getElem? hget.symm)] at hrole
      cases hrole

end CallOrchestrator

end VoiceAgent
