import VoiceAgent.Model.Handler

/-!
# What a handler does with a frame

Which frames are well-formed events, and which of the others are harmful, as far as the
frame itself shows it; `HandlerState.Takes` lists what the loop body does with a frame,
beside what the frame is.
-/

namespace VoiceAgent

open Lib

namespace PyVal

def isDict : PyVal → Bool
  | .dict _ => true
  | _ => false

/-- The member of that name, where the value is an object that has one. -/
def part (v : PyVal) (key : String) : Option PyVal :=
  match v.get key with
  | .ok found => found
  | .error _ => Option.none

variable {v : PyVal} {key : String}

theorem get_of_dict (h : v.isDict = true) : v.get key = .ok (v.part key) := by
  cases v with
  | dict items => rfl
  | _ => cases h

theorem get_of_not_dict (h : v.isDict = false) : v.get key = .error .attributeError := by
  cases v with
  | dict items => cases h
  | _ => rfl

theorem part_of_not_dict (h : v.isDict = false) : v.part key = Option.none := by
  rw [part, get_of_not_dict h]

theorem getD_of_dict (h : v.isDict = true) (default : PyVal) :
    v.getD key default = .ok ((v.part key).getD default) := by
  rw [getD, get_of_dict h]
  rfl

/-- `v.get(key) or other` of an object -/
def partOr (v : PyVal) (key : String) (other : PyVal) : PyVal :=
  match v.part key with
  | some x => if x.truthy then x else other
  | Option.none => other

theorem getOr_of_dict (h : v.isDict = true) (other : PyVal) :
    v.getOr key other = .ok (v.partOr key other) := by
  rw [getOr, get_of_dict h]
  rfl

/-- What is true of a part that is there, and of its replacement, is true of the two. -/
theorem partOr_of_all {p : PyVal → Bool} (other : PyVal) (h : (v.part key).all p = true)
    (hother : p other = true) : p (v.partOr key other) = true := by
  unfold partOr
  split
  · rename_i x hx
    split
    · simpa [hx] using h
    · exact hother
  · exact hother

/-- `(v.get(key) or {}).get(inner)` raises on what passes for true and is no object. -/
theorem get_partOr (v : PyVal) (key inner : String) :
    (v.partOr key emptyDict).get inner =
      if (v.part key).any (fun x => !x.isDict && x.truthy) then .error .attributeError
      else .ok ((v.part key).bind fun x => x.part inner) := by
  unfold partOr
  cases hpart : v.part key with
  | none => rfl
  | some x =>
      cases hdict : x.isDict with
      | false =>
          cases htruthy : x.truthy with
          | false => simp [hdict, htruthy, part_of_not_dict hdict, emptyDict, get]
          | true => simp [hdict, htruthy, get_of_not_dict hdict]
      | true =>
          cases htruthy : x.truthy with
          | false =>
              -- it is `{}` itself
              obtain ⟨items, rfl⟩ : ∃ items, x = .dict items := by
                cases x with
                | dict items => exact ⟨items, rfl⟩
                | _ => cases hdict
              obtain rfl : items = [] := by simpa [truthy] using htruthy
              rfl
          | true => simp [hdict, htruthy, get_of_dict hdict]

theorem isStr_iff {found : Option PyVal} {s : String} :
    isStr found s = true ↔ found = some (.str s) := by
  unfold isStr
  split
  · simp
  · rename_i hne
    constructor
    · intro h
      cases h
    · rintro rfl
      exact absurd rfl (hne s)

end PyVal

/-! ## Events -/

inductive FrameKind where
  | start
  | audio
  | stop
  | other
  deriving DecidableEq

namespace Transport

variable {t : Transport} {msg : PyVal}

/-- Where a message names its event. -/
def eventKey : Transport → String
  | .twilio => "event"
  | .webrtc => "type"

def audioEvent : Transport → String
  | .twilio => "media"
  | .webrtc => "audio"

def event (t : Transport) (msg : PyVal) : Option PyVal := msg.part t.eventKey

def kind (t : Transport) (msg : PyVal) : FrameKind :=
  if PyVal.isStr (t.event msg) "start" then .start
  else if PyVal.isStr (t.event msg) t.audioEvent then .audio
  else if PyVal.isStr (t.event msg) "stop" then .stop
  else .other

/-- The events that a handler knows and does nothing about. -/
def acknowledged (t : Transport) (msg : PyVal) : Bool :=
  match t with
  | .twilio => PyVal.isStr (t.event msg) "mark"
  | .webrtc => false

/-- The parts of a start event are objects, where it has them. -/
def startOk (t : Transport) (msg : PyVal) : Bool :=
  match t with
  | .twilio =>
      (msg.part "start").all fun start =>
        start.isDict && (start.part "customParameters").all PyVal.isDict
  | .webrtc => true

/-- The part of an audio event that has the payload. -/
def media (t : Transport) (msg : PyVal) : Option PyVal :=
  match t with
  | .twilio => msg.part "media"
  | .webrtc => some msg

def payload (t : Transport) (msg : PyVal) : Option PyVal :=
  (t.media msg).bind fun media => media.part "payload"

/-- The payload of an audio event is valid base64, where it has one. -/
def payloadOk (t : Transport) (msg : PyVal) : Bool :=
  match t.payload msg with
  | none => true
  | some (.str text) => Base64.valid text.toList
  | some _ => false

/-- The frame is a well-formed event. -/
def wellFormed (t : Transport) : TextFrame → Bool
  | .badJson => false
  | .unloadable => false
  | .json msg =>
      msg.isDict &&
        match t.kind msg with
        | .start => t.startOk msg
        | .audio => (t.media msg).all PyVal.isDict && t.payloadOk msg
        | .stop => true
        | .other => t.acknowledged msg

/-- The part is there, is no object and passes for true: `or {}` does not replace it. -/
def mediaRaises (t : Transport) (msg : PyVal) : Bool :=
  (t.media msg).any fun media => !media.isDict && media.truthy

/-- The payload is a string, but not valid base64. -/
def payloadInvalid (t : Transport) (msg : PyVal) : Bool :=
  match t.payload msg with
  | some (.str text) => !Base64.valid text.toList
  | _ => false

/-- The frame is malformed and not ignored; `created` where a call was started. -/
def harmful (t : Transport) (created : Bool) : TextFrame → Bool
  | .badJson => false
  | .unloadable => true
  | .json msg =>
      !msg.isDict ||
        match t.kind msg with
        | .start => !t.startOk msg
        | .audio => created && (t.mediaRaises msg || t.payloadInvalid msg)
        | .stop => false
        | .other => false

/-- The payload that an audio event brings to `on_audio_frame`. -/
def speech (t : Transport) : TextFrame → Option String
  | .json msg =>
      if t.kind msg = .audio ∧ t.mediaRaises msg = false then
        match t.payload msg with
        | some (.str text) => some text
        | _ => none
      else none
  | _ => none

def isStart (t : Transport) : TextFrame → Bool
  | .json msg => t.kind msg == .start
  | _ => false

def isStop (t : Transport) : TextFrame → Bool
  | .json msg => t.kind msg == .stop
  | _ => false

/-! ## What a body does with an event -/

/-- What the event of a message of that kind is. -/
def FrameKind.Event (t : Transport) (event : Option PyVal) : FrameKind → Prop
  | .start => event = some (.str "start")
  | .audio => event = some (.str t.audioEvent)
  | .stop => event = some (.str "stop")
  | .other =>
      PyVal.isStr event "start" = false ∧ PyVal.isStr event t.audioEvent = false ∧
        PyVal.isStr event "stop" = false

theorem event_of_kind {k : FrameKind} (h : t.kind msg = k) :
    FrameKind.Event t (t.event msg) k := by
  subst h
  unfold kind
  split
  · exact PyVal.isStr_iff.mp ‹_›
  · split
    · exact PyVal.isStr_iff.mp ‹_›
    · split
      · exact PyVal.isStr_iff.mp ‹_›
      · exact ⟨Bool.eq_false_iff.mpr ‹_›, Bool.eq_false_iff.mpr ‹_›, Bool.eq_false_iff.mpr ‹_›⟩

theorem body_of_not_dict (created : Bool) (h : msg.isDict = false) :
    t.body created msg = .error .attributeError := by
  cases t with
  | twilio =>
      rw [body, runMediaStream, PyVal.get_of_not_dict h]
      rfl
  | webrtc =>
      rw [body, runSignaling, PyVal.get_of_not_dict h]
      rfl

/-- A frame that constructs an orchestrator unless it raises. -/
def StartsOrRaises (r : Except PyErr FrameStep) : Prop :=
  (∃ frame, r = .ok (.start frame)) ∨ ∃ e, r = .error e

theorem StartsOrRaises.bind {α : Type} (x : Except PyErr α) {f : α → Except PyErr FrameStep}
    (h : ∀ a, StartsOrRaises (f a)) : StartsOrRaises (x >>= f) := by
  cases x with
  | error e => exact .inr ⟨e, rfl⟩
  | ok a => exact h a

theorem body_start (created : Bool) (h : msg.isDict = true) (hkind : t.kind msg = .start) :
    StartsOrRaises (t.body created msg) := by
  cases t with
  | twilio =>
      have hevent : msg.part "event" = some (.str "start") := event_of_kind hkind
      rw [body, runMediaStream, PyVal.get_of_dict h, hevent]
      show StartsOrRaises (msg.getOr "start" .emptyDict >>= _)
      apply StartsOrRaises.bind
      intro start
      apply StartsOrRaises.bind
      intro streamSid
      apply StartsOrRaises.bind
      intro params
      apply StartsOrRaises.bind
      intro callSid
      apply StartsOrRaises.bind
      intro fromNumber
      exact .inl ⟨_, rfl⟩
  | webrtc =>
      have hevent : msg.part "type" = some (.str "start") := event_of_kind hkind
      rw [body, runSignaling, PyVal.get_of_dict h, hevent]
      show StartsOrRaises (msg.getD "session_id" (.str "webrtc") >>= _)
      apply StartsOrRaises.bind
      intro sessionId
      exact .inl ⟨_, rfl⟩

theorem body_startOk (created : Bool) (h : msg.isDict = true) (hkind : t.kind msg = .start)
    (hok : t.startOk msg = true) : ∃ frame, t.body created msg = .ok (.start frame) := by
  cases t with
  | twilio =>
      have hevent : msg.part "event" = some (.str "start") := event_of_kind hkind
      -- `or {}` leaves an object in place of each part
      have hparts := PyVal.partOr_of_all .emptyDict hok rfl
      obtain ⟨hstart, hall⟩ := Bool.and_eq_true_iff.mp hparts
      have hparams := PyVal.partOr_of_all .emptyDict hall rfl
      rw [body, runMediaStream, PyVal.get_of_dict h, hevent]
      simp only [bind, Except.bind, PyVal.isStr, beq_self_eq_true, if_true,
        PyVal.getOr_of_dict h, PyVal.getD_of_dict hstart, PyVal.getOr_of_dict hstart,
        PyVal.getD_of_dict hparams, PyVal.getOr_of_dict hparams]
      exact ⟨_, rfl⟩
  | webrtc =>
      have hevent : msg.part "type" = some (.str "start") := event_of_kind hkind
      rw [body, runSignaling, PyVal.get_of_dict h, hevent]
      simp only [bind, Except.bind, PyVal.isStr, beq_self_eq_true, if_true,
        PyVal.getD_of_dict h]
      exact ⟨_, rfl⟩

/-- An audio event reaches `on_audio_frame` with a payload that is a string. -/
theorem body_audio (h : msg.isDict = true) (hkind : t.kind msg = .audio) :
    t.body true msg =
      if t.mediaRaises msg then .error .attributeError
      else match t.payload msg with
        | some (.str text) => .ok (.audio text)
        | _ => .ok .next := by
  cases t with
  | twilio =>
      have hevent : msg.part "event" = some (.str "media") := event_of_kind hkind
      rw [body, runMediaStream, PyVal.get_of_dict h, hevent]
      show (msg.getOr "media" .emptyDict >>= _) = _
      rw [PyVal.getOr_of_dict h]
      have hget : (msg.partOr "media" .emptyDict).get "payload" =
          if twilio.mediaRaises msg then .error .attributeError
          else .ok (twilio.payload msg) := PyVal.get_partOr msg "media" "payload"
      show ((msg.partOr "media" .emptyDict).get "payload" >>= _) = _
      rw [hget]
      cases twilio.mediaRaises msg with
      | true => rfl
      | false => rfl
  | webrtc =>
      have hevent : msg.part "type" = some (.str "audio") := event_of_kind hkind
      rw [body, runSignaling, PyVal.get_of_dict h, hevent]
      show (msg.get "payload" >>= _) = _
      rw [PyVal.get_of_dict h]
      simp only [mediaRaises, payload, media, Option.any_some, h, Bool.not_true,
        Bool.false_and, Option.bind_some]
      rfl

/-- Before a call was started it is ignored. -/
theorem body_early (h : msg.isDict = true) (hkind : t.kind msg = .audio) :
    t.body false msg = .ok .next := by
  cases t with
  | twilio =>
      have hevent : msg.part "event" = some (.str "media") := event_of_kind hkind
      rw [body, runMediaStream, PyVal.get_of_dict h, hevent]
      rfl
  | webrtc =>
      have hevent : msg.part "type" = some (.str "audio") := event_of_kind hkind
      rw [body, runSignaling, PyVal.get_of_dict h, hevent]
      rfl

theorem body_stop (created : Bool) (h : msg.isDict = true) (hkind : t.kind msg = .stop) :
    t.body created msg = .ok .leave := by
  cases t with
  | twilio =>
      have hevent : msg.part "event" = some (.str "stop") := event_of_kind hkind
      rw [body, runMediaStream, PyVal.get_of_dict h, hevent]
      rfl
  | webrtc =>
      have hevent : msg.part "type" = some (.str "stop") := event_of_kind hkind
      rw [body, runSignaling, PyVal.get_of_dict h, hevent]
      rfl

theorem body_other (created : Bool) (h : msg.isDict = true) (hkind : t.kind msg = .other) :
    t.body created msg = .ok .next := by
  obtain ⟨hstart, haudio, hstop⟩ := event_of_kind hkind
  cases t with
  | twilio =>
      simp only [event, eventKey, audioEvent] at hstart haudio hstop
      rw [body, runMediaStream, PyVal.get_of_dict h]
      simp only [bind, Except.bind, hstart, haudio, hstop, Bool.false_and, if_false,
        Bool.false_eq_true]
      rfl
  | webrtc =>
      simp only [event, eventKey, audioEvent] at hstart haudio hstop
      rw [body, runSignaling, PyVal.get_of_dict h]
      simp only [bind, Except.bind, hstart, haudio, hstop, Bool.false_and, if_false,
        Bool.false_eq_true]
      rfl

/-- A string payload comes out of an object. -/
theorem media_of_payload {x : PyVal} (h : t.payload msg = some x) :
    (t.media msg).all PyVal.isDict = true := by
  obtain ⟨media, hmedia, hpart⟩ := Option.bind_eq_some_iff.mp h
  rw [hmedia, Option.all_some]
  by_contra hdict
  rw [PyVal.part_of_not_dict (Bool.eq_false_iff.mpr hdict)] at hpart
  cases hpart

theorem media_of_raises (h : t.mediaRaises msg = true) :
    (t.media msg).all PyVal.isDict = false := by
  unfold mediaRaises at h
  cases hmedia : t.media msg with
  | none => simp [hmedia] at h
  | some media =>
      rw [hmedia, Option.any_some, Bool.and_eq_true, Bool.not_eq_true'] at h
      exact h.1

end Transport

/-! ## One frame -/

namespace HandlerState

open Transport

variable {audioop : Audioop} {t : Transport} {env : List OrchestratorCall → Outcome}
  {s : HandlerState} {f : TextFrame}

/-- What the handler does with a frame. -/
inductive Takes (audioop : Audioop) (t : Transport) (env : List OrchestratorCall → Outcome)
    (s : HandlerState) (f : TextFrame) : Prop
  | ignores (hharmful : t.harmful s.created f = false) (hstart : t.isStart f = false)
      (hstop : t.isStop f = false) (hspeech : s.created = true → t.speech f = none)
      (h : onFrame audioop t env s f = .next s)
  | raises (hbad : t.wellFormed f = false) (hharmful : t.harmful s.created f = true)
      (h : onFrame audioop t env s f = .done (s.finallyBlock env .raised))
  | starts (frame : StartFrame) (hharmful : t.harmful s.created f = !t.wellFormed f)
      (hstart : t.isStart f = true) (hstop : t.isStop f = false)
      (h : onFrame audioop t env s f = s.start env frame)
  | audio (text : String) (hcreated : s.created = true)
      (hok : t.wellFormed f = Base64.valid text.toList)
      (hharmful : t.harmful s.created f = !t.wellFormed f)
      (hstart : t.isStart f = false) (hstop : t.isStop f = false)
      (hspeech : t.speech f = some text)
      (h : onFrame audioop t env s f = s.audio audioop t env text)
  | stops (hok : t.wellFormed f = true) (hharmful : t.harmful s.created f = false)
      (hstop : t.isStop f = true)
      (h : onFrame audioop t env s f = .done (s.finallyBlock env .returned))

theorem takes_audio {msg : PyVal} (hcreated : s.created = true) (hdict : msg.isDict = true)
    (hkind : t.kind msg = .audio) : Takes audioop t env s (.json msg) := by
  have hbody := body_audio hdict hkind
  have hstart : t.isStart (.json msg) = false := by simp [isStart, hkind]
  have hstop : t.isStop (.json msg) = false := by simp [isStop, hkind]
  cases hraises : t.mediaRaises msg with
  | true =>
      rw [hraises, if_pos rfl] at hbody
      exact .raises (by simp [wellFormed, hdict, hkind, media_of_raises hraises])
        (by simp [harmful, hdict, hkind, hcreated, hraises])
        (by simp only [onFrame, hcreated, hbody])
  | false =>
      rw [hraises, if_neg Bool.false_ne_true] at hbody
      have hharmful : t.harmful s.created (.json msg) = t.payloadInvalid msg := by
        simp [harmful, hdict, hkind, hcreated, hraises]
      -- only a string reaches `on_audio_frame`
      split at hbody
      · rename_i text hpayload
        have hok : t.wellFormed (.json msg) = Base64.valid text.toList := by
          simp [wellFormed, hdict, hkind, media_of_payload hpayload, payloadOk, hpayload]
        refine .audio text hcreated hok ?_ hstart hstop
          (by simp [speech, hkind, hraises, hpayload]) (by simp only [onFrame, hcreated, hbody])
        rw [hharmful, hok, payloadInvalid, hpayload]
      · rename_i hpayload
        refine .ignores ?_ hstart hstop (fun _ => ?_) (by simp only [onFrame, hcreated, hbody])
        · rw [hharmful, payloadInvalid]
          split
          · rename_i text heq
            exact absurd heq (hpayload text)
          · rfl
        · simp only [speech, hkind, hraises, and_self, if_true]

theorem onFrame_cases (audioop : Audioop) (t : Transport)
    (env : List OrchestratorCall → Outcome) (s : HandlerState) (f : TextFrame) :
    Takes audioop t env s f := by
  cases f with
  | badJson => exact .ignores rfl rfl rfl (fun _ => rfl) rfl
  | unloadable => exact .raises rfl rfl rfl
  | json msg =>
      cases hdict : msg.isDict with
      | false =>
          -- `msg.get` is the first thing that is called
          refine .raises (by simp [wellFormed, hdict]) (by simp [harmful, hdict]) ?_
          simp only [onFrame, body_of_not_dict s.created hdict]
      | true =>
          cases hkind : t.kind msg with
          | start =>
              rcases body_start s.created hdict hkind with ⟨frame, hbody⟩ | ⟨e, hbody⟩
              · exact .starts frame (by simp [harmful, wellFormed, hdict, hkind])
                  (by simp [isStart, hkind]) (by simp [isStop, hkind])
                  (by simp only [onFrame, hbody])
              · -- an error, so some part is no object
                have hbad : t.startOk msg = false := by
                  by_contra hok
                  obtain ⟨frame, hframe⟩ :=
                    body_startOk s.created hdict hkind (by simpa using hok)
                  rw [hbody] at hframe
                  cases hframe
                exact .raises (by simp [wellFormed, hdict, hkind, hbad])
                  (by simp [harmful, hdict, hkind, hbad]) (by simp only [onFrame, hbody])
          | audio =>
              cases hcreated : s.created with
              | false =>
                  refine .ignores (by simp [harmful, hdict, hkind, hcreated])
                    (by simp [isStart, hkind]) (by simp [isStop, hkind]) (by simp [hcreated]) ?_
                  simp only [onFrame, hcreated, body_early hdict hkind]
              | true => exact takes_audio hcreated hdict hkind
          | stop =>
              exact .stops (by simp [wellFormed, hdict, hkind])
                (by simp [harmful, hdict, hkind]) (by simp [isStop, hkind])
                (by simp only [onFrame, body_stop s.created hdict hkind])
          | other =>
              exact .ignores (by simp [harmful, hdict, hkind]) (by simp [isStart, hkind])
                (by simp [isStop, hkind]) (by simp [speech, hkind])
                (by simp only [onFrame, body_other s.created hdict hkind])

end HandlerState

end VoiceAgent
