import VoiceAgent.Logic.CallSteps

/-!
# One utterance on the wire

How far a playback is, read off its suspension point and the frames it has
begun to send: at every await of the speaking part, what was sent and what is
still to come make up the utterance's full frame sequence (`Progress`). The
buffer of `_run_playback` gives up full pieces as chunks arrive, so the frames
do not depend on the chunking (`pieces_buffered`).
-/

namespace VoiceAgent

open Lib

def CallEvent.send? : CallEvent → Option (Nat × Frame)
  | .send k frame => some (k, frame)
  | _ => none

/-- The sends of a log, each with the playback that began it. -/
def sends (log : List CallEvent) : List (Nat × Frame) := log.filterMap CallEvent.send?

def CallEvent.speak? : CallEvent → Option String
  | .speak text => some text
  | _ => none

/-- The texts of the `_speak` calls of a log. -/
def spokenTexts (log : List CallEvent) : List String := log.filterMap CallEvent.speak?

/-- What a playback logs: its sends and the greeting's row. -/
def CallEvent.isPlayback : CallEvent → Bool
  | .send _ _ => true
  | .turnRow _ _ _ => true
  | _ => false

/-- What the turn handler logs. -/
def CallEvent.isTurn : CallEvent → Bool
  | .userTurn _ => true
  | .turnRow _ _ _ => true
  | .toolRow _ => true
  | _ => false

/-- A transcript or tool-call row is written. -/
def CallEvent.isRow : CallEvent → Bool
  | .turnRow _ _ _ => true
  | .toolRow _ => true
  | _ => false

theorem isTurn_of_isRow {e : CallEvent} (h : e.isRow = true) : e.isTurn = true := by
  cases e <;> first | rfl | cases h

@[simp] theorem sends_nil : sends [] = [] := rfl

@[simp] theorem sends_append (log log' : List CallEvent) :
    sends (log ++ log') = sends log ++ sends log' := List.filterMap_append

@[simp] theorem spokenTexts_append (log log' : List CallEvent) :
    spokenTexts (log ++ log') = spokenTexts log ++ spokenTexts log' := List.filterMap_append

/-- A log of events of one class, none of which `f` picks. -/
theorem filterMap_eq_nil_of_class {β : Type} {f : CallEvent → Option β} {p : CallEvent → Bool}
    (hf : ∀ e, p e = true → f e = none) {log : List CallEvent} (h : ∀ e ∈ log, p e = true) :
    log.filterMap f = [] :=
  List.filterMap_eq_nil_iff.mpr fun e he => hf e (h e he)

theorem sends_of_isTurn {log : List CallEvent} (h : ∀ e ∈ log, e.isTurn) : sends log = [] := by
  refine filterMap_eq_nil_of_class (fun e he => ?_) h
  cases e <;> first | rfl | cases he

theorem spokenTexts_of_isTurn {log : List CallEvent} (h : ∀ e ∈ log, e.isTurn) :
    spokenTexts log = [] := by
  refine filterMap_eq_nil_of_class (fun e he => ?_) h
  cases e <;> first | rfl | cases he

theorem spokenTexts_of_isPlayback {log : List CallEvent} (h : ∀ e ∈ log, e.isPlayback) :
    spokenTexts log = [] := by
  refine filterMap_eq_nil_of_class (fun e he => ?_) h
  cases e <;> first | rfl | cases he

namespace Utterance

variable (u : Utterance)

/-- The frames of audio not yet cut, and the mark. -/
def toSend (pcm16 : Bytes) : List Frame := (pieces chunkBytes pcm16).map .audio ++ u.marks

/-- What has been sent by a playback suspended at `pc` and not cancelled. -/
def Progress (sent : List Frame) : PlaybackPc → Prop
  | .created => sent = []
  | .synthesizing buffered rest =>
      sent ++ u.toSend (buffered ++ rest.flatten) = u.frames ∧ buffered.length < chunkBytes
  | .sendingChunk buffered rest => sent ++ u.toSend (buffered ++ rest.flatten) = u.frames
  | .sendingTail => sent ++ u.marks = u.frames
  | .sendingMark => sent = u.frames
  | .persisting raised | .leavingScope raised =>
      sent <+: u.frames ∧ (raised = false → sent = u.frames)

/-- What a playback has sent: a prefix of the utterance, and as much as its
suspension point says while it is not cancelled. -/
def Sent (sent : List Frame) (t : AsyncTask PlaybackPc) : Prop :=
  sent <+: u.frames ∧ ∀ pc, t = .suspended pc false → u.Progress sent pc

/-- A step that leads to a task and begins sends. -/
def Continues (sent : List Frame) (r : AsyncTask PlaybackPc × List CallEvent) : Prop :=
  ∃ new : List Frame, sends r.2 = new.map (u.index, ·) ∧ u.Sent (sent ++ new) r.1

variable {u} {sent : List Frame}

theorem Progress.isPrefix {pc : PlaybackPc} (h : u.Progress sent pc) : sent <+: u.frames := by
  cases pc with
  | created =>
      obtain rfl : sent = [] := h
      exact List.nil_prefix
  | synthesizing buffered rest => exact ⟨_, h.1⟩
  | sendingChunk buffered rest => exact ⟨_, h⟩
  | sendingTail => exact ⟨_, h⟩
  | sendingMark =>
      obtain rfl : sent = u.frames := h
      exact List.prefix_rfl
  | persisting raised => exact h.1
  | leavingScope raised => exact h.1

theorem Progress.suspended {pc : PlaybackPc} (h : u.Progress sent pc) (cancelling : Bool) :
    u.Sent sent (.suspended pc cancelling) := by
  refine ⟨h.isPrefix, fun pc' heq => ?_⟩
  obtain ⟨rfl, -⟩ : pc = pc' ∧ cancelling = false := by simpa using heq
  exact h

theorem sent_of_settled (h : sent <+: u.frames) {t : AsyncTask PlaybackPc}
    (ht : t.settled = true) : u.Sent sent t := by
  refine ⟨h, fun pc heq => ?_⟩
  rw [heq] at ht
  cases ht

theorem Progress.continues {pc : PlaybackPc} (h : u.Progress sent pc) :
    u.Continues sent (.suspended pc false, []) :=
  ⟨[], rfl, by simpa using h.suspended false⟩

theorem continues_done (h : sent <+: u.frames) (exit : Exit) :
    u.Continues sent (.done exit, []) :=
  ⟨[], rfl, by simpa using sent_of_settled h rfl⟩

theorem finish_continues {raised : Bool} (h : sent <+: u.frames)
    (hall : raised = false → sent = u.frames) : u.Continues sent (u.finish raised) := by
  unfold finish
  by_cases hrole : u.persistRole = some .assistant
  · rw [if_pos hrole]
    have hprog : u.Progress sent (.persisting raised) := ⟨h, hall⟩
    exact ⟨[], rfl, by simpa using hprog.suspended false⟩
  · rw [if_neg hrole]
    exact continues_done h _

theorem sendAudio_continues {pcm16 : Bytes} {pc : PlaybackPc} (h : sent <+: u.frames)
    (hsent : u.Progress (sent ++ [.audio pcm16]) pc) :
    u.Continues sent (u.sendAudio pcm16 pc) := by
  unfold sendAudio
  by_cases hodd : u.transport = .twilio ∧ pcm16.length % 2 = 1
  · rw [if_pos hodd]
    exact finish_continues h nofun
  · rw [if_neg hodd]
    exact ⟨[.audio pcm16], rfl, hsent.suspended false⟩

theorem sendMark_continues (h : sent ++ u.marks = u.frames) :
    u.Continues sent u.sendMark := by
  unfold sendMark
  cases htransport : u.transport with
  | twilio =>
      rw [marks, htransport] at h
      have hprog : u.Progress (sent ++ [.mark "eot"]) .sendingMark := h
      exact ⟨[.mark "eot"], rfl, hprog.suspended false⟩
  | webrtc =>
      rw [marks, htransport, List.append_nil] at h
      subst h
      exact finish_continues List.prefix_rfl fun _ => rfl

theorem drain_continues {buffered : Bytes} {rest : List Bytes}
    (h : sent ++ u.toSend (buffered ++ rest.flatten) = u.frames) :
    u.Continues sent (u.drain buffered rest) := by
  unfold drain
  by_cases hfull : chunkBytes ≤ buffered.length
  · -- a full piece goes out, what is left of the buffer stays ahead of the rest
    rw [if_pos hfull]
    refine sendAudio_continues ⟨_, h⟩ ?_
    show sent ++ [.audio (buffered.take chunkBytes)] ++
      u.toSend (buffered.drop chunkBytes ++ rest.flatten) = u.frames
    rw [← h, toSend, toSend, pieces_buffered (by decide) hfull]
    simp
  · rw [if_neg hfull]
    have hprog : u.Progress sent (.synthesizing buffered rest) := ⟨h, by omega⟩
    exact hprog.continues

theorem sendTail_continues {buffered : Bytes} (hlt : buffered.length < chunkBytes)
    (h : sent ++ u.toSend buffered = u.frames) : u.Continues sent (u.sendTail buffered) := by
  unfold sendTail
  by_cases hempty : buffered = []
  · subst hempty
    rw [List.isEmpty_nil, if_pos rfl]
    apply sendMark_continues
    rwa [toSend, pieces_nil] at h
  · -- the rest of the buffer is the last, shorter piece
    rw [if_neg (by simpa using hempty)]
    refine sendAudio_continues ⟨_, h⟩ ?_
    show sent ++ [.audio buffered] ++ u.marks = u.frames
    rw [← h, toSend, pieces_of_lt hlt hempty]
    simp

/-- One step of a playback that is not cancelled: what it sends continues the
utterance. -/
theorem go_continues {pc : PlaybackPc} {w : Outcome}
    {r : AsyncTask PlaybackPc × List CallEvent} (h : u.Progress sent pc)
    (hgo : u.go pc w = some r) : u.Continues sent r := by
  have hpre := h.isPrefix
  cases w with
  | raises =>
      -- from the `finally` block the exception passes, from elsewhere it runs the block
      cases pc with
      | created => cases hgo
      | persisting raised =>
          obtain rfl : (_, _) = r := Option.some.inj hgo
          exact continues_done hpre _
      | leavingScope raised =>
          obtain rfl : (_, _) = r := Option.some.inj hgo
          exact continues_done hpre _
      | synthesizing buffered rest =>
          obtain rfl : u.finish true = r := by cases rest <;> exact Option.some.inj hgo
          exact finish_continues hpre nofun
      | _ =>
          obtain rfl : u.finish true = r := Option.some.inj hgo
          exact finish_continues hpre nofun
  | returns =>
      cases pc with
      | created =>
          obtain rfl : sent = [] := h
          obtain rfl : (_, _) = r := Option.some.inj hgo
          have hprog : u.Progress [] (.synthesizing [] u.audio) := ⟨rfl, by decide⟩
          exact hprog.continues
      | synthesizing buffered rest =>
          cases rest with
          | nil =>
              obtain rfl : u.sendTail buffered = r := Option.some.inj hgo
              exact sendTail_continues h.2 (by simpa using h.1)
          | cons pcm rest =>
              obtain rfl : u.drain (buffered ++ pcm) rest = r := Option.some.inj hgo
              exact drain_continues (by simpa using h.1)
      | sendingChunk buffered rest =>
          obtain rfl : u.drain buffered rest = r := Option.some.inj hgo
          exact drain_continues h
      | sendingTail =>
          obtain rfl : u.sendMark = r := Option.some.inj hgo
          exact sendMark_continues h
      | sendingMark =>
          obtain rfl : u.finish false = r := Option.some.inj hgo
          exact finish_continues hpre fun _ => h
      | persisting raised =>
          obtain rfl : (_, _) = r := Option.some.inj hgo
          have hprog : u.Progress sent (.leavingScope raised) := h
          exact hprog.continues
      | leavingScope raised =>
          obtain rfl : (_, _) = r := Option.some.inj hgo
          exact continues_done hpre _

/-- A playback task that is resumed: what it sends continues the utterance. -/
theorem resumes_continues {t t' : AsyncTask PlaybackPc} {w : Wake Outcome}
    {e : Option (List CallEvent)} (h : u.Sent sent t)
    (hres : u.runPlayback.Resumes t w t' e) : u.Continues sent (t', e.getD []) := by
  cases hres with
  | outcome hgo => exact go_continues (h.2 _ rfl) hgo
  | thrown =>
      -- a cancelled playback sends nothing more
      refine ⟨[], rfl, ?_⟩
      rw [List.append_nil]
      exact sent_of_settled h.1 (by split <;> rfl)
  | unwound => exact continues_done h.1 _

/-! What a playback logs, wherever it is: its sends, and where it has a row to write
that row. -/

section
variable {P : CallEvent → Prop}
  (hrow : u.persistRole = some .assistant → P (.turnRow .assistant u.text none))
include hrow

theorem finish_forall (raised : Bool) : ∀ e ∈ (u.finish raised).2, P e := by
  unfold finish
  split
  · rename_i hrole
    simpa using hrow hrole
  · exact nofun

variable (hsend : ∀ frame, P (.send u.index frame))
include hsend

theorem sendAudio_forall (pcm16 : Bytes) (pc : PlaybackPc) :
    ∀ e ∈ (u.sendAudio pcm16 pc).2, P e := by
  unfold sendAudio
  split
  · exact finish_forall hrow true
  · simpa using hsend _

theorem sendMark_forall : ∀ e ∈ u.sendMark.2, P e := by
  unfold sendMark
  split
  · simpa using hsend _
  · exact finish_forall hrow false

theorem drain_forall (buffered : Bytes) (rest : List Bytes) :
    ∀ e ∈ (u.drain buffered rest).2, P e := by
  unfold drain
  split
  · exact sendAudio_forall hrow hsend _ _
  · exact nofun

theorem sendTail_forall (buffered : Bytes) : ∀ e ∈ (u.sendTail buffered).2, P e := by
  unfold sendTail
  split
  · exact sendMark_forall hrow hsend
  · exact sendAudio_forall hrow hsend _ _

theorem go_forall {pc : PlaybackPc} {w : Outcome} {r : AsyncTask PlaybackPc × List CallEvent}
    (h : u.go pc w = some r) : ∀ e ∈ r.2, P e := by
  unfold go at h
  split at h <;> simp only [Option.some.injEq, reduceCtorEq] at h <;> subst h
  case h_3 => exact drain_forall hrow hsend _ _
  case h_4 => exact sendTail_forall hrow hsend _
  case h_5 => exact drain_forall hrow hsend _ _
  case h_6 => exact sendMark_forall hrow hsend
  case h_7 => exact finish_forall hrow _
  case h_12 => exact finish_forall hrow _
  all_goals exact nofun

theorem resumes_forall {t t' : AsyncTask PlaybackPc} {w : Wake Outcome}
    {e : Option (List CallEvent)} (h : u.runPlayback.Resumes t w t' e) :
    ∀ ev ∈ e.getD [], P ev := by
  cases h with
  | outcome hgo => exact go_forall hrow hsend hgo
  | thrown => exact nofun
  | unwound => exact nofun

end

theorem resumes_log {t t' : AsyncTask PlaybackPc} {w : Wake Outcome}
    {e : Option (List CallEvent)} (h : u.runPlayback.Resumes t w t' e) :
    ∀ ev ∈ e.getD [], ev.isPlayback :=
  resumes_forall (P := fun ev => ev.isPlayback) (fun _ => rfl) (fun _ => rfl) h

end Utterance

end VoiceAgent
