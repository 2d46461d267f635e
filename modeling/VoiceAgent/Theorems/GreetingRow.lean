import VoiceAgent.Logic.Greeting
import VoiceAgent.Theorems.Utterances

/-!
# The greeting's row

The `finally` block of `_run_playback` writes the greeting's row unless a flag
says that the playback was cancelled. The flag knows cancellations of the speaking
part only: an error of the TTS stream or of a send leaves it unset, and a
cancellation that falls on the write itself comes too late for it.
-/

namespace VoiceAgent

open Lib Lib.TSys

/-- Before the `finally` block. -/
def PlaybackPc.speaks : PlaybackPc → Bool
  | .persisting _ => false
  | .leavingScope _ => false
  | _ => true

namespace Utterance

/-- An await of the speaking part raises, or, on Twilio, half a sample is left for
the last frame. -/
def fails (u : Utterance) : AsyncTask PlaybackPc → Wake Outcome → Bool
  | .suspended pc false, .outcome .raises => pc.speaks
  | .suspended (.synthesizing buffered []) false, .outcome .returns =>
      decide (u.transport = .twilio) && buffered.length % 2 == 1
  | _, _ => false

/-- `_send_mark` comes to its end, which is the end of the speaking part. -/
def marked (u : Utterance) : AsyncTask PlaybackPc → Wake Outcome → Bool
  | .suspended .sendingMark false, .outcome .returns => true
  | .suspended .sendingTail false, .outcome .returns => decide (u.transport = .webrtc)
  | .suspended (.synthesizing [] []) false, .outcome .returns =>
      decide (u.transport = .webrtc)
  | _, _ => false

/-- The row is stored: the commit of `add_turn` returns. -/
def stores (_ : Utterance) : AsyncTask PlaybackPc → Wake Outcome → Bool
  | .suspended (.persisting _) false, .outcome .returns => true
  | _, _ => false

/-- The database refuses the row. -/
def refused (_ : Utterance) : AsyncTask PlaybackPc → Wake Outcome → Bool
  | .suspended (.persisting _) false, .outcome .raises => true
  | _, _ => false

/-- A cancellation is thrown while the row is being written: its commit does not return,
so the row is not counted as stored. -/
def dropped (_ : Utterance) : AsyncTask PlaybackPc → Wake Outcome → Bool
  | .suspended (.persisting _) true, .thrown _ => true
  | _, _ => false

/-- The task is done, or only cleans up after a cancellation. -/
def ended : AsyncTask PlaybackPc → Bool
  | .suspended _ _ => false
  | _ => true

/-- What has happened in the life of a playback that writes a row: whether its
speech failed, its mark step came to an end, its row was stored, its write was
cancelled. -/
inductive Stage : Bool → Bool → Bool → Bool → AsyncTask PlaybackPc → Prop
  | speaking {pc : PlaybackPc} {cancelling : Bool} (hpc : pc.speaks = true) :
      Stage false false false false (.suspended pc cancelling)
  | persisting {raised cancelling : Bool} :
      Stage raised (!raised) false false (.suspended (.persisting raised) cancelling)
  | leaving {raised cancelling : Bool} :
      Stage raised (!raised) true false (.suspended (.leavingScope raised) cancelling)
  | silenced {t : AsyncTask PlaybackPc} (ht : ended t = true) :
      Stage false false false false t
  | past {raised stored : Bool} {t : AsyncTask PlaybackPc} (ht : ended t = true) :
      Stage raised (!raised) stored (!stored) t

variable {u : Utterance}

/-- The speaking part goes on, or hands over to the `finally` block. -/
def SpeaksOn (u : Utterance) (failed marked : Bool) (t : AsyncTask PlaybackPc) : Prop :=
  (failed = false ∧ marked = false ∧ ∃ pc, t = .suspended pc false ∧ pc.speaks = true) ∨
    ∃ raised, failed = raised ∧ marked = !raised ∧ t = (u.finish raised).1

theorem sendAudio_speaksOn {pcm16 : Bytes} {pc : PlaybackPc} (hpc : pc.speaks = true) :
    SpeaksOn u (decide (u.transport = .twilio) && pcm16.length % 2 == 1) false
      (u.sendAudio pcm16 pc).1 := by
  unfold sendAudio
  by_cases hodd : u.transport = .twilio ∧ pcm16.length % 2 = 1
  · rw [if_pos hodd]
    exact .inr ⟨true, by simp [hodd], rfl, rfl⟩
  · rw [if_neg hodd]
    exact .inl ⟨by simpa using hodd, rfl, pc, rfl, hpc⟩

theorem sendMark_speaksOn :
    SpeaksOn u false (decide (u.transport = .webrtc)) u.sendMark.1 := by
  unfold sendMark
  cases htransport : u.transport with
  | twilio => exact .inl ⟨rfl, by simp, .sendingMark, rfl, rfl⟩
  | webrtc => exact .inr ⟨false, rfl, by simp, rfl⟩

theorem drain_speaksOn (buffered : Bytes) (rest : List Bytes) :
    SpeaksOn u false false (u.drain buffered rest).1 := by
  unfold drain
  split
  · rename_i hfull
    -- a full piece is whole samples
    have heven : (buffered.take chunkBytes).length % 2 = 0 := by
      rw [List.length_take, Nat.min_eq_left hfull]
      rfl
    have h := @sendAudio_speaksOn u (buffered.take chunkBytes)
      (.sendingChunk (buffered.drop chunkBytes) rest) rfl
    rwa [heven, show ((0 : Nat) == 1) = false from rfl, Bool.and_false] at h
  · exact .inl ⟨rfl, rfl, _, rfl, rfl⟩

theorem go_speaksOn {pc : PlaybackPc} {w : Outcome} {t : AsyncTask PlaybackPc}
    {e : List CallEvent} (hpc : pc.speaks = true) (hgo : u.go pc w = some (t, e)) :
    SpeaksOn u (u.fails (.suspended pc false) (.outcome w))
      (u.marked (.suspended pc false) (.outcome w)) t := by
  have hfst : ∀ {r : AsyncTask PlaybackPc × List CallEvent},
      some r = some (t, e) → r.1 = t := fun h => by rw [Option.some.inj h]
  cases w with
  | raises =>
      have hfails : u.fails (.suspended pc false) (.outcome .raises) = true := by
        cases pc with
        | synthesizing buffered rest => cases rest <;> exact hpc
        | _ => exact hpc
      have hmarked : u.marked (.suspended pc false) (.outcome .raises) = false := by
        cases pc with
        | synthesizing buffered rest => cases buffered <;> cases rest <;> rfl
        | _ => rfl
      rw [hfails, hmarked]
      -- an exception goes straight to the `finally` block
      refine .inr ⟨true, rfl, rfl, ?_⟩
      cases pc with
      | created => cases hgo
      | persisting raised => cases hpc
      | leavingScope raised => cases hpc
      | synthesizing buffered rest => cases rest <;> exact (hfst hgo).symm
      | _ => exact (hfst hgo).symm
  | returns =>
      cases pc with
      | created => exact .inl ⟨rfl, rfl, _, (hfst hgo).symm, rfl⟩
      | synthesizing buffered rest =>
          cases rest with
          | cons pcm rest =>
              rw [← hfst hgo]
              cases buffered <;> exact drain_speaksOn _ _
          | nil =>
              rw [← hfst hgo]
              -- the stream is over: a rest is sent before the mark
              cases buffered with
              | nil =>
                  have h := @sendMark_speaksOn u
                  simpa [fails, marked, sendTail] using h
              | cons b buffered =>
                  exact sendAudio_speaksOn rfl
      | sendingChunk buffered rest =>
          rw [← hfst hgo]
          exact drain_speaksOn _ _
      | sendingTail =>
          rw [← hfst hgo]
          exact sendMark_speaksOn
      | sendingMark => exact .inr ⟨false, rfl, rfl, (hfst hgo).symm⟩
      | persisting raised => cases hpc
      | leavingScope raised => cases hpc

theorem finish_persisting (hrole : u.persistRole = some .assistant) (raised : Bool) :
    (u.finish raised).1 = .suspended (.persisting raised) false := by
  rw [finish, if_pos hrole]

theorem stores_speaks {pc : PlaybackPc} (hpc : pc.speaks = true) (w : Wake Outcome) :
    u.stores (.suspended pc false) w = false := by
  cases pc with
  | persisting raised => cases hpc
  | _ => rfl

theorem dropped_speaks {pc : PlaybackPc} (hpc : pc.speaks = true) (cancelling : Bool)
    (w : Wake Outcome) : u.dropped (.suspended pc cancelling) w = false := by
  cases pc with
  | persisting raised => cases hpc
  | _ => rfl

variable {f m s d : Bool} {t t' : AsyncTask PlaybackPc}

/-- Asking the task to cancel changes nothing yet. -/
theorem Stage.cancel (h : Stage f m s d t) : Stage f m s d t.cancel := by
  cases h with
  | speaking hpc => exact .speaking hpc
  | persisting => exact .persisting
  | leaving => exact .leaving
  | silenced ht =>
      cases t with
      | suspended pc cancelling => cases ht
      | unwinding exit => exact .silenced rfl
      | done exit => exact .silenced rfl
  | past ht =>
      cases t with
      | suspended pc cancelling => cases ht
      | unwinding exit => exact .past rfl
      | done exit => exact .past rfl

/-- One step of a playback whose row the database accepts. -/
theorem stage_resumes {w : Wake Outcome} {e : Option (List CallEvent)}
    (hrole : u.persistRole = some .assistant) (h : Stage f m s d t)
    (hres : u.runPlayback.Resumes t w t' e) (haccepts : u.refused t w = false) :
    Stage (f || u.fails t w) (m || u.marked t w) (s || u.stores t w) (d || u.dropped t w)
      t' := by
  cases hres with
  | @outcome pc w t' e hgo =>
      cases h with
      | speaking hpc =>
          rw [stores_speaks hpc, dropped_speaks hpc]
          -- it speaks on, or comes to the write of its row
          rcases go_speaksOn hpc hgo with ⟨hf, hm, pc', rfl, hpc'⟩ | ⟨raised, hf, hm, rfl⟩
          · rw [hf, hm]
            exact .speaking hpc'
          · rw [hf, hm, finish_persisting hrole]
            exact .persisting
      | persisting =>
          cases w with
          | returns =>
              obtain ⟨rfl, -⟩ := Prod.mk.inj (Option.some.inj hgo)
              simpa [fails, marked, stores, dropped] using
                (Stage.leaving : Stage f (!f) true false _)
          | raises => cases haccepts
      | leaving =>
          -- nothing but its end comes after the commit
          have hdone : ∃ exit, t' = .done exit := by
            cases w with
            | returns => exact ⟨_, (Prod.mk.inj (Option.some.inj hgo)).1.symm⟩
            | raises => exact ⟨_, (Prod.mk.inj (Option.some.inj hgo)).1.symm⟩
          obtain ⟨exit, rfl⟩ := hdone
          have hfails : u.fails (.suspended (.leavingScope f) false) (.outcome w) = false := by
            cases w <;> rfl
          have hmarked : u.marked (.suspended (.leavingScope f) false) (.outcome w) =
              false := by
            cases w <;> rfl
          simpa [hfails, hmarked, stores, dropped] using
            (Stage.past rfl : Stage f (!f) true (!true) (.done exit))
      | silenced ht => cases ht
      | past ht => cases ht
  | @thrown pc suspends =>
      -- a cancellation ends it wherever it is
      have hended : ended (if suspends && u.runPlayback.begun pc then
          .unwinding (u.runPlayback.thrown pc) else .done (u.runPlayback.thrown pc)) = true := by
        split <;> rfl
      cases h with
      | speaking hpc =>
          have hsame := dropped_speaks (u := u) hpc true (.thrown suspends)
          simpa [fails, marked, stores, hsame] using Stage.silenced hended
      | persisting =>
          simpa [fails, marked, stores, dropped] using
            (Stage.past hended : Stage f (!f) false (!false) _)
      | leaving =>
          simpa [fails, marked, stores, dropped] using
            (Stage.past hended : Stage f (!f) true (!true) _)
      | silenced ht => cases ht
      | past ht => cases ht
  | @unwound exit =>
      cases h with
      | silenced ht => exact .silenced rfl
      | past ht =>
          simpa [fails, marked, stores, dropped] using
            (Stage.past rfl : Stage f (!f) s (!s) (.done exit))

/-- The mark step is the last of the speaking part. -/
theorem marked_resumes {w : Wake Outcome} {e : Option (List CallEvent)}
    (hrole : u.persistRole = some .assistant) (hmarked : u.marked t w = true)
    (hres : u.runPlayback.Resumes t w t' e) :
    t' = .suspended (.persisting false) false := by
  have hwebrtc : ∀ {r : AsyncTask PlaybackPc × List CallEvent},
      decide (u.transport = .webrtc) = true → u.sendMark = r →
      r.1 = .suspended (.persisting false) false := by
    rintro r htransport rfl
    rw [sendMark, of_decide_eq_true htransport]
    exact finish_persisting hrole false
  unfold marked at hmarked
  split at hmarked
  · cases hres with
    | outcome hgo =>
        obtain rfl := congrArg Prod.fst (Option.some.inj hgo)
        exact finish_persisting hrole false
  · cases hres with
    | outcome hgo => exact hwebrtc hmarked (Option.some.inj hgo)
  · cases hres with
    | outcome hgo => exact hwebrtc hmarked (Option.some.inj hgo)
  · cases hmarked

end Utterance

namespace CallOrchestrator

variable {cfg : CallConfig} {σ τ : CallOrchestrator}

/-- `f` holds of the step, and the step is one of the greeting's playback. -/
def atGreeting (f : Utterance → AsyncTask PlaybackPc → Wake Outcome → Bool)
    (σ : CallOrchestrator) : CallAct → Bool
  | .playback 0 w => σ.speakTasks[0]?.any fun p => f p.utterance p.task w
  | _ => false

/-- `f` holds of some step of the greeting's playback. -/
def happened (f : Utterance → AsyncTask PlaybackPc → Wake Outcome → Bool)
    (tr : List (CallOrchestrator × CallAct)) : Bool :=
  tr.any fun q => q.1.atGreeting f q.2

/-- The greeting's task; before `start()` has created it, one that has not run. -/
def greetingTask (σ : CallOrchestrator) : AsyncTask PlaybackPc :=
  (σ.speakTasks[0]?.map (·.task)).getD (.suspended .created false)

theorem happened_snoc (f : Utterance → AsyncTask PlaybackPc → Wake Outcome → Bool)
    (tr : List (CallOrchestrator × CallAct)) (σ : CallOrchestrator) (a : CallAct) :
    happened f (tr ++ [(σ, a)]) = (happened f tr || σ.atGreeting f a) := by
  simp [happened]

theorem greetingTask_eq {p : Playback} (hp : σ.speakTasks[0]? = some p) :
    σ.greetingTask = p.task := by
  rw [greetingTask, hp]
  rfl

theorem greetingTask_congr (h : τ.speakTasks = σ.speakTasks) :
    τ.greetingTask = σ.greetingTask := by
  rw [greetingTask, h]
  rfl

theorem atGreeting_playback {p : Playback} (hp : σ.speakTasks[0]? = some p)
    (f : Utterance → AsyncTask PlaybackPc → Wake Outcome → Bool) (w : Wake Outcome) :
    σ.atGreeting f (.playback 0 w) = f p.utterance p.task w := by
  rw [atGreeting, hp]
  rfl

theorem greetingTask_cancelSpeak :
    σ.cancelSpeak.greetingTask = σ.greetingTask ∨
      σ.cancelSpeak.greetingTask = σ.greetingTask.cancel := by
  cases hq : σ.cancelSpeak.speakTasks[0]? with
  | none =>
      have hnone : σ.speakTasks[0]? = none := by
        rw [List.getElem?_eq_none_iff] at hq ⊢
        rwa [cancelSpeak_length] at hq
      rw [greetingTask, greetingTask, hq, hnone]
      exact .inl rfl
  | some q =>
      obtain ⟨p, hp, -, htask⟩ := cancelSpeak_getElem? hq
      rw [greetingTask_eq hq, greetingTask_eq hp, htask]
      split
      · exact .inr rfl
      · exact .inl rfl

theorem greetingTask_speak (text : String) (role : Option Role) :
    (σ.speak cfg text role).greetingTask = σ.greetingTask ∨
      (σ.speak cfg text role).greetingTask = σ.greetingTask.cancel := by
  cases hp : σ.speakTasks with
  | nil =>
      refine .inl ?_
      rw [greetingTask, greetingTask, speak, cancelSpeak, cancelPlayback, hp]
      rfl
  | cons p ps =>
      have hlen : 0 < σ.cancelSpeak.speakTasks.length := by
        rw [cancelSpeak_length, hp]
        exact Nat.succ_pos _
      -- a later utterance is put behind the greeting
      have hsame : (σ.speak cfg text role).greetingTask = σ.cancelSpeak.greetingTask := by
        rw [greetingTask, greetingTask, speak, List.getElem?_append_left hlen]
      rw [hsame]
      exact greetingTask_cancelSpeak

/-- What a step does to the greeting's task: nothing, a request to cancel, or a step
of its own. -/
theorem greeting_step {a : CallAct} (h : Step cfg σ a τ) :
    ((τ.greetingTask = σ.greetingTask ∨ τ.greetingTask = σ.greetingTask.cancel) ∧
      ∀ f, σ.atGreeting f a = false) ∨
    ∃ p w t e, a = .playback 0 w ∧ σ.speakTasks[0]? = some p ∧
      p.utterance.runPlayback.Resumes p.task w t e ∧
      τ.speakTasks[0]? = some { p with task := t } := by
  cases h with
  | @playback k p t w e hp hres =>
      cases k with
      | zero =>
          refine .inr ⟨p, w, t, e, rfl, hp, hres, ?_⟩
          exact List.getElem?_set_self (List.getElem?_eq_some_iff.mp hp).1
      | succ k =>
          refine .inl ⟨.inl ?_, fun _ => rfl⟩
          rw [greetingTask, greetingTask, List.getElem?_set_ne (Nat.succ_ne_zero k)]
  | started hpc => exact .inl ⟨greetingTask_speak _ _, fun _ => rfl⟩
  | bargeIn htask hqueue hint hspeaking => exact .inl ⟨greetingTask_cancelSpeak, fun _ => rfl⟩
  | @consumer task t w e htask hres =>
      refine .inl ⟨?_, fun _ => rfl⟩
      cases e with
      | none => exact .inl rfl
      | some e =>
          cases hsay : e.say with
          | none => simp only [afterConsumer, hsay]; exact .inl rfl
          | some text => simp only [afterConsumer, hsay]; exact greetingTask_speak _ _
  | stop hstart hpc =>
      refine .inl ⟨?_, fun _ => rfl⟩
      rw [greetingTask_congr (join_speakTasks _)]
      exact greetingTask_cancelSpeak
  | joined hpc hdone => exact .inl ⟨.inl (greetingTask_congr (join_speakTasks _)), fun _ => rfl⟩
  | _ => exact .inl ⟨.inl rfl, fun _ => rfl⟩

/-- The stage of the greeting's playback, and what it has put on the wire once its
mark step came to an end. -/
structure GreetingStage (cfg : CallConfig) (tr : List (CallOrchestrator × CallAct))
    (σ : CallOrchestrator) : Prop where
  stage : Utterance.Stage (happened Utterance.fails tr) (happened Utterance.marked tr)
    (happened Utterance.stores tr) (happened Utterance.dropped tr) σ.greetingTask
  sent : happened Utterance.marked tr = true →
    withKey 0 (sends σ.log) = (cfg.utterance 0 greeting (some .assistant)).frames

/-- What the greeting's playback has sent is a part of the greeting. -/
theorem greeting_isPrefix (hwire : WireInv cfg σ) (hgreet : GreetInv cfg σ) :
    withKey 0 (sends σ.log) <+: (cfg.utterance 0 greeting (some .assistant)).frames := by
  cases hp : σ.speakTasks[0]? with
  | none =>
      -- before `start()` nothing is sent
      have hnone : withKey 0 (sends σ.log) = [] := withKey_eq_nil fun x hx => by
        have hlt := hwire.known x hx
        have hlen := List.getElem?_eq_none_iff.mp hp
        omega
      rw [hnone]
      exact List.nil_prefix
  | some p =>
      have hsent := (hwire.sent 0 p hp).1
      rwa [hgreet.first hp] at hsent

/-- Nothing is sent after the whole greeting. -/
theorem greeting_complete {a : CallAct} (hwire : WireInv cfg τ) (hgreet : GreetInv cfg τ)
    (h : Step cfg σ a τ)
    (hsent : withKey 0 (sends σ.log) = (cfg.utterance 0 greeting (some .assistant)).frames) :
    withKey 0 (sends τ.log) = (cfg.utterance 0 greeting (some .assistant)).frames := by
  obtain ⟨events, hlog, -⟩ := log_step h
  have hpre := greeting_isPrefix hwire hgreet
  apply hpre.eq_of_length_le
  rw [← hsent, hlog, sends_append, withKey_append]
  exact (List.prefix_append _ _).length_le

theorem greetingStage_run {registry : ToolRegistry} {tr : List (CallOrchestrator × CallAct)}
    (h : (callSys cfg).Run { llm := { registry } } tr σ)
    (haccepts : ∀ q ∈ tr, ¬ q.1.atGreeting Utterance.refused q.2 = true) :
    GreetingStage cfg tr σ := by
  induction h with
  | nil => exact ⟨.speaking rfl, nofun⟩
  | @snoc tr σ τ a hrun hs ih =>
      have hσ := ih fun q hq => haccepts q (List.mem_append_left _ hq)
      have hstep := step_cases hs
      have hwire : WireInv cfg τ := wireInv_run (hrun.snoc hs)
      have hgreet : GreetInv cfg τ := greetInv_run (hrun.snoc hs)
      rcases greeting_step hstep with
        ⟨htask, hnot⟩ | ⟨p, w, t, e, rfl, hp, hres, hτ⟩
      · -- the step is not one of the greeting's playback
        have hsame : ∀ f, happened f (tr ++ [(σ, a)]) = happened f tr := by
          intro f
          rw [happened_snoc, hnot, Bool.or_false]
        constructor
        · rw [hsame, hsame, hsame, hsame]
          rcases htask with htask | htask <;> rw [htask]
          · exact hσ.stage
          · exact hσ.stage.cancel
        · rw [hsame]
          intro hm
          exact greeting_complete hwire hgreet hstep (hσ.sent hm)
      · have hutterance := hgreet.first hτ
        have hrole : p.utterance.persistRole = some .assistant := by
          rw [show p.utterance = _ from hutterance]
          rfl
        have hstage := hσ.stage
        rw [greetingTask_eq hp] at hstage
        constructor
        · have hrefused : p.utterance.refused p.task w = false := by
            have := haccepts (σ, .playback 0 w) (by simp)
            rwa [atGreeting_playback hp, Bool.not_eq_true] at this
          rw [greetingTask_eq hτ, happened_snoc, happened_snoc, happened_snoc, happened_snoc,
            atGreeting_playback hp, atGreeting_playback hp, atGreeting_playback hp,
            atGreeting_playback hp]
          exact Utterance.stage_resumes hrole hstage hres hrefused
        · rw [happened_snoc, atGreeting_playback hp, Bool.or_eq_true]
          rintro (hm | hm)
          · exact greeting_complete hwire hgreet hstep (hσ.sent hm)
          · -- the mark step leads to the write of the row
            obtain rfl := Utterance.marked_resumes hrole hm hres
            have hprog := (hwire.sent 0 _ hτ).2 _ rfl
            have hall := hprog.2 rfl
            rwa [show p.utterance = _ from hutterance] at hall

end CallOrchestrator

open CallOrchestrator

/-- **The greeting's row.** When the greeting's playback has ended, the row is stored
exactly if the greeting was spoken, unless one of two things happened and not the
other: its speech failed, or a cancellation fell on the write of the row. -/
theorem greeting_row_iff {cfg : CallConfig} {registry : ToolRegistry}
    {tr : List (CallOrchestrator × CallAct)} {σ : CallOrchestrator} {p : Playback}
    (h : (callSys cfg).Run { llm := { registry } } tr σ)
    (haccepts : ∀ q ∈ tr, ¬ q.1.atGreeting Utterance.refused q.2 = true)
    (hp : σ.speakTasks[0]? = some p) (hdone : p.task.isDone = true) :
    p.utterance = cfg.utterance 0 greeting (some .assistant) ∧
    (((∃ q ∈ tr, q.1.atGreeting Utterance.stores q.2 = true) ↔
        (withKey 0 (sends σ.log) = p.utterance.frames ∧
          ∃ q ∈ tr, q.1.atGreeting Utterance.marked q.2 = true)) ↔
      ((∃ q ∈ tr, q.1.atGreeting Utterance.fails q.2 = true) ↔
        ∃ q ∈ tr, q.1.atGreeting Utterance.dropped q.2 = true)) := by
  have hutterance := (greetInv_run h).first hp
  obtain ⟨hstage, hsent⟩ := greetingStage_run h haccepts
  refine ⟨hutterance, ?_⟩
  rw [← hutterance] at hsent
  have hany : ∀ f, (∃ q ∈ tr, q.1.atGreeting f q.2 = true) ↔ happened f tr = true :=
    fun f => List.any_eq_true.symm
  rw [hany, hany, hany, hany, and_iff_right_of_imp hsent]
  rw [greetingTask_eq hp] at hstage
  cases htask : p.task with
  | suspended pc cancelling => rw [htask] at hdone; cases hdone
  | unwinding exit => rw [htask] at hdone; cases hdone
  | done exit =>
      rw [htask] at hstage
      -- what is left is about the four facts and the stage alone
      generalize happened Utterance.fails tr = f at hstage ⊢
      generalize happened Utterance.marked tr = m at hstage ⊢
      generalize happened Utterance.stores tr = s at hstage ⊢
      generalize happened Utterance.dropped tr = d at hstage ⊢
      cases hstage with
      | silenced _ => simp
      | past _ => cases f <;> cases s <;> simp

/-- The TTS stream raises before its first chunk: nothing is spoken and the row is
stored. -/
theorem unspoken_greeting_stored :
    ∃ tr σ p, (callSys { transport := .twilio, synthesize := fun _ _ => [[0, 0]] }).Run
        { llm := { registry := ⟨[]⟩ } } tr σ ∧
      (∀ q ∈ tr, ¬ q.1.atGreeting Utterance.refused q.2 = true) ∧
      σ.speakTasks[0]? = some p ∧ p.task.isDone = true ∧
      sends σ.log = [] ∧
      ¬ ((∃ q ∈ tr, q.1.atGreeting Utterance.stores q.2 = true) ↔
        (withKey 0 (sends σ.log) = p.utterance.frames ∧
          ∃ q ∈ tr, q.1.atGreeting Utterance.marked q.2 = true)) := by
  let acts : List CallAct :=
    [.starting .returns, .starting .returns, .starting .returns,
     .playback 0 (.outcome .returns), .playback 0 (.outcome .raises),
     .playback 0 (.outcome .returns), .playback 0 (.outcome .returns)]
  exact ⟨_, _, _, TSys.Run.exec acts (by decide), by decide, rfl, by decide, by decide,
    fun hiff => absurd (hiff.mp (by decide)).2 (by decide)⟩

/-- The greeting is spoken and its row stored, and the caller's words come after it. -/
theorem greeting_row_iff_spoken :
    ∃ tr σ p, (callSys { transport := .twilio, synthesize := fun _ _ => [[0, 0]] }).Run
        { llm := { registry := ⟨[]⟩ } } tr σ ∧ σ.speakTasks[0]? = some p ∧
      withKey 0 (sends σ.log) = [.audio [0, 0], .mark "eot"] ∧
      ((∃ q ∈ tr, q.1.atGreeting Utterance.stores q.2 = true) ↔
        (withKey 0 (sends σ.log) = p.utterance.frames ∧
          ∃ q ∈ tr, q.1.atGreeting Utterance.marked q.2 = true)) := by
  let cfg : CallConfig := { transport := .twilio, synthesize := fun _ _ => [[0, 0]] }
  let acts : List CallAct :=
    [.starting .returns, .starting .returns, .starting .returns,
     .consumer (.outcome .returns), .playback 0 (.outcome .returns),
     .playback 0 (.outcome .returns), .playback 0 (.outcome .returns),
     .playback 0 (.outcome .returns), .playback 0 (.outcome .returns),
     .playback 0 (.outcome .returns), .playback 0 (.outcome .returns),
     .enqueue "Hi there" true, .take]
  let start : CallOrchestrator := { llm := { registry := ⟨[]⟩ } }
  have hrun : (callSys cfg).Run start ((callSys cfg).trace start acts) _ :=
    TSys.Run.exec acts (by decide)
  have hiff := (greeting_row_iff hrun (by decide) rfl (by decide)).2
  exact ⟨_, _, _, hrun, rfl, by decide, hiff.mpr (by decide)⟩

end VoiceAgent
