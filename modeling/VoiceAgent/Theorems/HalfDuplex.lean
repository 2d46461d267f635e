import VoiceAgent.Theorems.Utterances

/-!
# A call is half-duplex

`_speak` takes the floor, a barge-in takes it away, and only the playback that has it
sends: a caller who interrupts hears nothing more until the next `_speak`. That is a
small machine of its own (`Floor`), and the log of every run of a call, read as its
actions, is one of its runs. A barge-in only asks the task to cancel, so the argument is
`Superseded` once more, now for the last task as well (`Floor.Held`).
-/

namespace VoiceAgent

open Lib Lib.TSys

/-- Who has the floor of a call: how many utterances were begun, and the one of them
that may send. -/
structure Floor where
  begun : Nat := 0
  speaker : Option Nat := none

inductive FloorAct where
  /-- a new utterance takes the floor -/
  | speak
  /-- the caller takes the floor from the utterance of that number -/
  | interrupt (k : Nat)
  /-- the utterance of that number sends a frame -/
  | send (k : Nat)

namespace Floor

/-- Only the last utterance is interrupted, also where it has lost the floor already;
only the one that has the floor sends. -/
def step (f : Floor) : FloorAct → Option Floor
  | .speak => some { begun := f.begun + 1, speaker := some f.begun }
  | .interrupt k => if k + 1 = f.begun then some { f with speaker := none } else none
  | .send k => if f.speaker = some k then some f else none

end Floor

/-- The floor of a call. -/
def floorSys : TSys Floor FloorAct where
  init f := f = {}
  step := Floor.step

def CallEvent.floor? : CallEvent → Option FloorAct
  | .speak _ => some .speak
  | .bargeIn k _ => some (.interrupt k)
  | .send k _ => some (.send k)
  | _ => none

/-- What a log does to the floor. -/
def floorActs (log : List CallEvent) : List FloorAct := log.filterMap CallEvent.floor?

@[simp] theorem floorActs_append (log log' : List CallEvent) :
    floorActs (log ++ log') = floorActs log ++ floorActs log' := List.filterMap_append

theorem floorActs_of_isTurn {log : List CallEvent} (h : ∀ e ∈ log, e.isTurn) :
    floorActs log = [] := by
  refine filterMap_eq_nil_of_class (fun e he => ?_) h
  cases e <;> first | rfl | cases he

/-- What a playback does to the floor are its sends. -/
theorem floorActs_of_isPlayback {log : List CallEvent} (h : ∀ e ∈ log, e.isPlayback) :
    floorActs log = (sends log).map fun s => .send s.1 := by
  induction log with
  | nil => rfl
  | cons e log ih =>
      have hrest := ih fun e he => h e (List.mem_cons_of_mem _ he)
      have he := h e List.mem_cons_self
      cases e with
      | send k frame =>
          show .send k :: floorActs log = .send k :: (sends log).map _
          rw [hrest]
      | turnRow role text latency => exact hrest
      | _ => cases he

/-! ## The machine by itself -/

namespace Floor

variable {f g : Floor}

/-- The utterance that has the floor is the last one begun. -/
def Last (f : Floor) : Prop := ∀ k, f.speaker = some k → k + 1 = f.begun

theorem last_preserved : floorSys.Preserved Last := by
  intro f a g hf hstep
  cases a with
  | speak =>
      obtain rfl := Option.some.inj hstep
      intro k hk
      rw [Option.some.inj hk]
  | interrupt k =>
      obtain ⟨-, h⟩ := Option.ite_none_right_eq_some.mp hstep
      obtain rfl := Option.some.inj h
      nofun
  | send k =>
      obtain ⟨-, h⟩ := Option.ite_none_right_eq_some.mp hstep
      obtain rfl := Option.some.inj h
      exact hf

/-- The log counts the utterances with its `_speak` calls. -/
theorem begun_log {log : List CallEvent} : ∀ {f : Floor},
    floorSys.exec f (floorActs log) = some g → g.begun = f.begun + (spokenTexts log).length := by
  induction log with
  | nil =>
      intro f h
      obtain rfl := Option.some.inj h
      rfl
  | cons e log ih =>
      intro f h
      cases e with
      | speak text =>
          have hbegun : g.begun = f.begun + 1 + (spokenTexts log).length := ih h
          show g.begun = f.begun + ((spokenTexts log).length + 1)
          omega
      | bargeIn k spoken =>
          obtain ⟨f', hstep, hrest⟩ := Option.bind_eq_some_iff.mp h
          obtain ⟨-, h⟩ := Option.ite_none_right_eq_some.mp hstep
          obtain rfl := Option.some.inj h
          exact ih (f := { f with speaker := none }) hrest
      | send k frame =>
          obtain ⟨f', hstep, hrest⟩ := Option.bind_eq_some_iff.mp h
          obtain ⟨-, h⟩ := Option.ite_none_right_eq_some.mp hstep
          obtain rfl := Option.some.inj h
          exact ih hrest
      | _ => exact ih h

/-- A log runs up to each of its events. -/
theorem exec_split {pre post : List CallEvent} {e : CallEvent} {a : FloorAct}
    (he : e.floor? = some a) (h : floorSys.exec f (floorActs (pre ++ e :: post)) = some g) :
    ∃ f₁ f₂, floorSys.exec f (floorActs pre) = some f₁ ∧ f₁.step a = some f₂ ∧
      floorSys.exec f₂ (floorActs post) = some g := by
  rw [floorActs_append, exec_append] at h
  obtain ⟨f₁, hpre, hrest⟩ := Option.bind_eq_some_iff.mp h
  rw [floorActs, List.filterMap_cons_some he] at hrest
  obtain ⟨f₂, hstep, hpost⟩ := Option.bind_eq_some_iff.mp hrest
  exact ⟨f₁, f₂, hpre, hstep, hpost⟩

/-- Where nobody has the floor, nothing is sent before the next `_speak`. -/
theorem silent {log : List CallEvent} (hnone : spokenTexts log = []) : ∀ {f : Floor},
    f.speaker = none → floorSys.exec f (floorActs log) = some g → g.speaker = none := by
  induction log with
  | nil =>
      intro f hf h
      obtain rfl := Option.some.inj h
      exact hf
  | cons e log ih =>
      intro f hf h
      cases e with
      | speak text => cases hnone
      | bargeIn k spoken =>
          obtain ⟨f', hstep, hrest⟩ := Option.bind_eq_some_iff.mp h
          obtain ⟨-, h⟩ := Option.ite_none_right_eq_some.mp hstep
          obtain rfl := Option.some.inj h
          exact ih hnone rfl hrest
      | send k frame =>
          obtain ⟨f', hstep, hrest⟩ := Option.bind_eq_some_iff.mp h
          obtain ⟨hsend, -⟩ := Option.ite_none_right_eq_some.mp hstep
          cases hf.symm.trans hsend
      | _ => exact ih hnone hf h

/-- The utterance that has the floor may send any number of frames. -/
theorem exec_sends {k : Nat} (hf : f.speaker = some k) (frames : List Frame) :
    floorSys.exec f (frames.map fun _ => .send k) = some f := by
  induction frames with
  | nil => rfl
  | cons frame frames ih =>
      show (f.step (.send k)).bind _ = _
      rw [step, if_pos hf]
      exact ih

end Floor

/-! ## The log of a call -/

namespace CallOrchestrator

variable {cfg : CallConfig} {σ τ : CallOrchestrator}

/-- What a step does to the playback tasks and to the floor. -/
inductive FloorView (cfg : CallConfig) (σ τ : CallOrchestrator) : Prop
  | same (htasks : τ.speakTasks = σ.speakTasks) (hacts : floorActs τ.log = floorActs σ.log)
  | hushed (htasks : τ.speakTasks = σ.cancelSpeak.speakTasks)
      (hacts : floorActs τ.log = floorActs σ.log)
  | interrupted (hspeaking : σ.isSpeaking = true)
      (htasks : τ.speakTasks = σ.cancelSpeak.speakTasks)
      (hacts : floorActs τ.log = floorActs σ.log ++ [.interrupt (σ.speakTasks.length - 1)])
  | spoke (text : String) (role : Option Role)
      (htasks : τ.speakTasks = (σ.speak cfg text role).speakTasks)
      (hacts : floorActs τ.log = floorActs σ.log ++ [.speak])
  | resumed {k : Nat} {p : Playback} {t : AsyncTask PlaybackPc} {w : Wake Outcome}
      {e : Option (List CallEvent)} (hp : σ.speakTasks[k]? = some p)
      (hres : p.utterance.runPlayback.Resumes p.task w t e)
      (htasks : τ.speakTasks = σ.speakTasks.set k { p with task := t })
      (hacts : floorActs τ.log = floorActs σ.log ++ floorActs (e.getD []))

theorem FloorView.same' {events : List CallEvent} (htasks : τ.speakTasks = σ.speakTasks)
    (hlog : τ.log = σ.log ++ events) (hevents : floorActs events = []) :
    FloorView cfg σ τ := by
  refine .same htasks ?_
  rw [hlog, floorActs_append, hevents, List.append_nil]

theorem Step.floorView {a : CallAct} (h : Step cfg σ a τ) : FloorView cfg σ τ := by
  cases h with
  | started hpc =>
      refine .spoke _ _ rfl ?_
      rw [speak_log, floorActs_append]
      rfl
  | takeFinal htask hqueue hfinal => exact .same' rfl rfl rfl
  | bargeIn htask hqueue hint hspeaking =>
      refine .interrupted hspeaking rfl ?_
      rw [floorActs_append]
      rfl
  | @consumer task t w e htask hres =>
      cases hres with
      | @outcome pc w t e hgo =>
          have hturn := floorActs_of_isTurn (Consumer.isTurn_go (Consumer.go_cases hgo))
          cases hsay : e.say with
          | none =>
              refine .same' ?_ ?_ hturn <;> simp [afterConsumer, hsay]
          | some text =>
              refine .spoke text none ?_ ?_
              · simp only [afterConsumer, hsay]
                rfl
              · simp only [afterConsumer, hsay, speak_log, floorActs_append, hturn,
                  List.append_nil]
                rfl
      | thrown => exact .same rfl rfl
      | unwound => exact .same rfl rfl
  | playback hp hres => exact .resumed hp hres rfl (floorActs_append _ _)
  | stop hstart hpc =>
      refine .hushed ?_ ?_
      · rw [join_speakTasks]
        rfl
      · rw [join_log]
        rfl
  | joined hpc hdone => exact .same (join_speakTasks _) (by rw [join_log])
  | ending hpc => exact .same' rfl rfl rfl
  | _ => exact .same rfl rfl

/-- The log has left the floor as `f`: all utterances are counted, and where nobody
has the floor every playback is done or asked to cancel. -/
structure Held (σ : CallOrchestrator) (f : Floor) : Prop where
  ran : floorSys.exec {} (floorActs σ.log) = some f
  begun : f.begun = σ.speakTasks.length
  speaker : ∀ k (p : Playback), σ.speakTasks[k]? = some p → p.task.settled = false →
    f.speaker = some k

theorem Held.acts {f g : Floor} {acts : List FloorAct} (hσ : σ.Held f)
    (hacts : floorActs τ.log = floorActs σ.log ++ acts) (hexec : floorSys.exec f acts = some g) :
    floorSys.exec {} (floorActs τ.log) = some g := by
  rw [hacts, exec_append, hσ.ran]
  exact hexec

/-- After `_cancel_speak` every playback is settled, the last one as well. -/
theorem settled_cancelSpeak (hσ : σ.Superseded) {k : Nat} {p : Playback}
    (hp : σ.cancelSpeak.speakTasks[k]? = some p) : p.task.settled = true := by
  obtain ⟨q, hq, -, htask⟩ := cancelSpeak_getElem? hp
  have hlt := (List.getElem?_eq_some_iff.mp hq).1
  rw [htask]
  split
  · exact AsyncTask.settled_cancel _
  · exact hσ k q hq (by omega)

theorem held_step {f : Floor} (hwire : WireInv cfg σ) (hσ : σ.Held f)
    (h : FloorView cfg σ τ) : ∃ g, τ.Held g := by
  cases h with
  | same htasks hacts =>
      refine ⟨f, ?_, ?_, ?_⟩
      · rw [hacts]
        exact hσ.ran
      · rw [htasks]
        exact hσ.begun
      · rw [htasks]
        exact hσ.speaker
  | hushed htasks hacts =>
      refine ⟨f, ?_, ?_, ?_⟩
      · rw [hacts]
        exact hσ.ran
      · rw [htasks, cancelSpeak_length]
        exact hσ.begun
      · rw [htasks]
        intro k p hp hlive
        rw [settled_cancelSpeak hwire.superseded hp] at hlive
        cases hlive
  | interrupted hspeaking htasks hacts =>
      have hlast : σ.speakTasks.length - 1 + 1 = f.begun := by
        rw [hσ.begun]
        have hne : σ.speakTasks ≠ [] := by
          intro hnil
          rw [isSpeaking, hnil] at hspeaking
          cases hspeaking
        have := List.length_pos_of_ne_nil hne
        omega
      refine ⟨{ f with speaker := none }, hσ.acts hacts ?_, ?_, ?_⟩
      · show (f.step (.interrupt (σ.speakTasks.length - 1))).bind _ = _
        rw [Floor.step, if_pos hlast]
        rfl
      · rw [htasks, cancelSpeak_length]
        exact hσ.begun
      · rw [htasks]
        intro k p hp hlive
        rw [settled_cancelSpeak hwire.superseded hp] at hlive
        cases hlive
  | spoke text role htasks hacts =>
      refine ⟨{ begun := f.begun + 1, speaker := some f.begun }, hσ.acts hacts rfl, ?_, ?_⟩
      · rw [htasks, speak_length, ← hσ.begun]
      · rw [htasks]
        intro k p hp hlive
        rcases speak_getElem? hp with ⟨rfl, -⟩ | ⟨-, hp⟩
        · rw [← hσ.begun]
        · rw [settled_cancelSpeak hwire.superseded hp] at hlive
          cases hlive
  | @resumed j q t w e hq hres htasks hacts =>
      refine ⟨f, hσ.acts hacts ?_, ?_, ?_⟩
      · -- what it sends carries its number, and it has the floor where it sends
        obtain ⟨new, hnew, -⟩ := hwire.resumed_sends hq hres
        rw [floorActs_of_isPlayback (Utterance.resumes_log hres), hnew, List.map_map]
        by_cases hempty : new = []
        · rw [hempty]
          rfl
        · have hsends : sends (e.getD []) ≠ [] := by
            rw [hnew]
            simpa using hempty
          have hlive := (hwire.last_sends hq hres hsends).2
          exact Floor.exec_sends (hσ.speaker j q hq hlive) new
      · rw [htasks, List.length_set]
        exact hσ.begun
      · rw [htasks]
        intro k p hp hlive
        rcases getElem?_set_cases hp with ⟨rfl, rfl⟩ | ⟨-, hp⟩
        · -- a settled task stays settled
          refine hσ.speaker j q hq ?_
          by_contra hne
          rw [Bool.not_eq_false] at hne
          rw [(Coroutine.resume_settled hne hres).1] at hlive
          cases hlive
        · exact hσ.speaker k p hp hlive

/-- Every run of a call leaves a log that is a run of the floor. -/
theorem held_run {registry : ToolRegistry} {tr : List (CallOrchestrator × CallAct)}
    (h : (callSys cfg).Run { llm := { registry } } tr σ) : ∃ f, σ.Held f := by
  induction h with
  | nil => exact ⟨{}, rfl, rfl, nofun⟩
  | snoc hrun hstep ih =>
      obtain ⟨f, hf⟩ := ih
      exact held_step (wireInv_run hrun) hf (step_cases hstep).floorView

end CallOrchestrator

open CallOrchestrator

/-- The log of every run of a call is a run of the floor. So a frame is sent only by the
utterance of the last `_speak` call, and after a barge-in nothing is sent until
`_speak` is called again. -/
theorem half_duplex {cfg : CallConfig} {registry : ToolRegistry}
    {tr : List (CallOrchestrator × CallAct)} {σ : CallOrchestrator}
    (hrun : (callSys cfg).Run { llm := { registry } } tr σ) :
    (∃ f, floorSys.exec {} (floorActs σ.log) = some f) ∧
    (∀ pre j frame post, σ.log = pre ++ .send j frame :: post →
      j + 1 = (spokenTexts pre).length) ∧
    ∀ pre k spoken mid j frame post,
      σ.log = pre ++ .bargeIn k spoken :: (mid ++ .send j frame :: post) →
      spokenTexts mid ≠ [] := by
  obtain ⟨f, hf⟩ := held_run hrun
  refine ⟨⟨f, hf.ran⟩, ?_, ?_⟩
  · intro pre j frame post hlog
    obtain ⟨f₁, f₂, hpre, hstep, -⟩ := Floor.exec_split rfl (hlog ▸ hf.ran)
    have hlast : f₁.Last := Floor.last_preserved.run (.of_exec hpre) nofun
    rw [hlast j (Option.ite_none_right_eq_some.mp hstep).1, Floor.begun_log hpre]
    exact Nat.zero_add _
  · intro pre k spoken mid j frame post hlog hnone
    obtain ⟨f₁, f₂, -, hstep, hpost⟩ := Floor.exec_split rfl (hlog ▸ hf.ran)
    obtain ⟨f₃, f₄, hmid, hsend, -⟩ := Floor.exec_split rfl hpost
    have hsilent : f₂.speaker = none := by
      obtain ⟨-, h⟩ := Option.ite_none_right_eq_some.mp hstep
      obtain rfl := Option.some.inj h
      rfl
    have hspeaker := (Option.ite_none_right_eq_some.mp hsend).1
    cases (Floor.silent hnone hsilent hmid).symm.trans hspeaker

/-- The caller interrupts the greeting after its first frame. -/
def interruptActs : List CallAct :=
  [.starting .returns, .starting .returns, .starting .returns, .consumer (.outcome .returns),
   .playback 0 (.outcome .returns), .playback 0 (.outcome .returns),
   .playback 0 (.outcome .returns), .enqueue "hold on" false, .take, .playback 0 (.thrown false)]

theorem half_duplex_interrupted :
    let cfg : CallConfig := { transport := .twilio, synthesize := fun _ _ => [[0, 0]] }
    ∃ tr σ, (callSys cfg).Run { llm := { registry := ⟨[]⟩ } } tr σ ∧
      (σ.log.any fun e => e matches .bargeIn 0 _) = true ∧ (sends σ.log).length = 1 ∧
      ∃ f, floorSys.exec {} (floorActs σ.log) = some f := by
  intro cfg
  let start : CallOrchestrator := { llm := { registry := ⟨[]⟩ } }
  have hrun : (callSys cfg).Run start ((callSys cfg).trace start interruptActs) _ :=
    TSys.Run.exec interruptActs (by decide)
  exact ⟨_, _, hrun, by decide, by decide, (half_duplex hrun).1⟩

end VoiceAgent
