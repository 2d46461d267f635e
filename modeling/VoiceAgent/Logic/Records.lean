import VoiceAgent.Logic.Greeting

/-!
# The records of a conversation

One handler feeds the database, the tool log and the playbacks. `records` puts
what it does into one sequence, from which the greeting's own row is left out;
`RecordView` is what a step appends to it.
-/

namespace VoiceAgent

open Lib Lib.TSys

/-- What is recorded of a conversation. -/
inductive Record where
  /-- a final transcript is taken -/
  | heard (text : String)
  | row (role : Role) (text : String)
  | tool (call : ToolCall)
  | spoke (text : String)

/-- The greeting's row is the assistant's, has the greeting's text and no latency. -/
def CallEvent.record? : CallEvent → Option Record
  | .userTurn text => some (.heard text)
  | .turnRow role text latencyMs =>
      if role = .assistant ∧ text = greeting ∧ latencyMs = none then none
      else some (.row role text)
  | .toolRow call => some (.tool call)
  | .speak text => some (.spoke text)
  | _ => none

def records (log : List CallEvent) : List Record := log.filterMap CallEvent.record?

@[simp] theorem records_append (log log' : List CallEvent) :
    records (log ++ log') = records log ++ records log' := List.filterMap_append

def Record.heard? : Record → Option String
  | .heard text => some text
  | _ => none

def Record.row? : Record → Option (Role × String)
  | .row role text => some (role, text)
  | _ => none

def Record.tool? : Record → Option ToolCall
  | .tool call => some call
  | _ => none

def Record.spoke? : Record → Option String
  | .spoke text => some text
  | _ => none

/-- The turn rows of a log, without the greeting's. -/
def conversationRows (log : List CallEvent) : List (Role × String) :=
  (records log).filterMap Record.row?

/-- What is picked from the records is what is picked from the log. -/
theorem filterMap_records {β : Type} {f : CallEvent → Option β} {g : Record → Option β}
    (h : ∀ ev, ev.record?.bind g = f ev) (log : List CallEvent) :
    (records log).filterMap g = log.filterMap f := by
  rw [records, List.filterMap_filterMap]
  exact congrArg (List.filterMap · log) (funext h)

theorem userTurns_eq (log : List CallEvent) :
    userTurns log = (records log).filterMap Record.heard? := by
  refine (filterMap_records (fun ev => ?_) log).symm
  cases ev with
  | turnRow role text latencyMs =>
      rw [CallEvent.record?]
      split <;> rfl
  | _ => rfl

theorem toolRows_eq (log : List CallEvent) :
    toolRows log = (records log).filterMap Record.tool? := by
  refine (filterMap_records (fun ev => ?_) log).symm
  cases ev with
  | turnRow role text latencyMs =>
      rw [CallEvent.record?]
      split <;> rfl
  | _ => rfl

theorem spokenTexts_eq (log : List CallEvent) :
    spokenTexts log = (records log).filterMap Record.spoke? := by
  refine (filterMap_records (fun ev => ?_) log).symm
  cases ev with
  | turnRow role text latencyMs =>
      rw [CallEvent.record?]
      split <;> rfl
  | _ => rfl

/-- A playback records nothing: it sends, and the row it writes is the greeting's. -/
theorem Utterance.resumes_records {u : Utterance}
    (hgreet : u.persistRole = some .assistant → u.text = greeting)
    {t t' : AsyncTask PlaybackPc} {w : Wake Outcome} {e : Option (List CallEvent)}
    (h : u.runPlayback.Resumes t w t' e) : records (e.getD []) = [] := by
  apply List.filterMap_eq_nil_iff.mpr
  refine Utterance.resumes_forall (P := fun ev => ev.record? = none) ?_ (fun _ => rfl) h
  intro hrole
  exact if_pos ⟨rfl, hgreet hrole, rfl⟩

namespace CallOrchestrator

variable {cfg : CallConfig} {σ τ : CallOrchestrator}

/-- What a step does to the consumer and appends to the records. -/
inductive RecordView (σ τ : CallOrchestrator) : CallAct → Prop
  | quiet {a : CallAct} (hact : a.isConsumer = false)
      (htask : τ.sttTask = σ.sttTask ∨ τ.sttTask = σ.sttTask.map AsyncTask.cancel)
      (hrecords : records τ.log = records σ.log) : RecordView σ τ a
  | started (hnone : σ.sttTask = none)
      (htask : τ.sttTask = some (.suspended .created false))
      (hrecords : records τ.log = records σ.log ++ [.spoke greeting]) :
      RecordView σ τ (.starting .returns)
  | final {text : String} (hloop : σ.sttTask = some (.suspended .transcripts false))
      (htask : τ.sttTask = some (.suspended (.addingUserTurn text) false))
      (hrecords : records τ.log = records σ.log ++ [.heard text, .row .user text]) :
      RecordView σ τ .take
  | went {pc : ConsumerPc} {w : ConsumerOutcome} {t : AsyncTask ConsumerPc}
      {e : TurnEffect} (hloop : σ.sttTask = some (.suspended pc false))
      (hgo : Consumer.go σ.llm σ.clock pc w = some (t, e)) (htask : τ.sttTask = some t)
      (hrecords : records τ.log =
        records σ.log ++ (records e.events ++ e.say.toList.map .spoke)) :
      RecordView σ τ (.consumer (.outcome w))
  | thrown {pc : ConsumerPc} {suspends : Bool} {t : AsyncTask ConsumerPc}
      (hloop : σ.sttTask = some (.suspended pc true)) (htask : τ.sttTask = some t)
      (hended : t = .unwinding .cancelled ∨ t = .done .cancelled)
      (hrecords : records τ.log = records σ.log) :
      RecordView σ τ (.consumer (.thrown suspends))
  | unwound {exit : Exit} (hloop : σ.sttTask = some (.unwinding exit))
      (htask : τ.sttTask = some (.done exit)) (hrecords : records τ.log = records σ.log) :
      RecordView σ τ (.consumer .unwound)

theorem afterConsumer_records (t : AsyncTask ConsumerPc) (e : TurnEffect) :
    records (σ.afterConsumer cfg t (some e)).log =
      records σ.log ++ (records e.events ++ e.say.toList.map .spoke) := by
  cases hsay : e.say with
  | none => simp [afterConsumer, hsay]
  | some text =>
      simp only [afterConsumer, hsay, speak_log, records_append, List.append_assoc]
      rfl

theorem Step.recordView {a : CallAct} (hinv : StartInv σ) (hgreet : GreetInv cfg σ)
    (h : Step cfg σ a τ) : RecordView σ τ a := by
  cases h with
  | started hpc =>
      refine .started (hinv.none_of_leavingScope hpc) rfl ?_
      rw [speak_log, records_append]
      rfl
  | takeFinal htask hqueue hfinal => exact .final htask rfl (records_append _ _)
  | bargeIn htask hqueue hint hspeaking =>
      refine .quiet rfl (.inl rfl) ?_
      rw [records_append]
      exact List.append_nil _
  | @consumer task t w e htask hres =>
      cases hres with
      | @outcome pc w t e hgo =>
          exact .went htask hgo (σ.afterConsumer_sttTask _ _) (afterConsumer_records _ _)
      | thrown =>
          refine .thrown htask rfl ?_ rfl
          split
          · exact .inl rfl
          · exact .inr rfl
      | unwound => exact .unwound htask rfl rfl
  | playback hp hres =>
      refine .quiet rfl (.inl rfl) ?_
      rw [records_append, Utterance.resumes_records (hgreet.text_of_persistRole hp) hres,
        List.append_nil]
  | stop hstart hpc =>
      obtain ⟨pc, hjoin⟩ := σ.cancelAll.join_eq σ.tasks
      rw [hjoin]
      exact .quiet rfl (.inr rfl) rfl
  | @joined t tasks hpc hdone =>
      obtain ⟨pc, hjoin⟩ := σ.join_eq tasks
      rw [hjoin]
      exact .quiet rfl (.inl rfl) rfl
  | ending hpc =>
      refine .quiet rfl (.inl rfl) ?_
      rw [records_append]
      exact List.append_nil _
  | _ => exact .quiet rfl (.inl rfl) rfl

end CallOrchestrator

end VoiceAgent
