import VoiceAgent.Logic.JsonText
import VoiceAgent.Theorems.Utterances
import VoiceAgent.Theorems.Delivery

/-!
# What the other end of the socket hears

The frames of a call as texts, and a receiver that knows JSON, base64 and the two
message formats, but nothing of the call. It reads every text, and the audio it
collects is, utterance by utterance, a beginning of what was synthesized: the
playbacks that a barge-in cuts off leave no half of a sample and no byte of another
utterance behind.
-/

namespace VoiceAgent

open Lib

/-! ## The receiver -/

/-- What a text brings. -/
inductive Heard where
  | media (streamSid : String) (ulaw : Bytes)
  | audio (pcm16 : Bytes)
  | mark (streamSid name : String)
  deriving DecidableEq

namespace Heard

/-- A message of a Twilio media stream. -/
def ofTwilio (j : Json) : Option Heard := do
  let event ← (← j.field? "event").str?
  let streamSid ← (← j.field? "streamSid").str?
  if event = "media" then
    let payload ← (← (← j.field? "media").field? "payload").str?
    let ulaw ← Base64.decode payload
    return .media streamSid ulaw
  else if event = "mark" then
    let name ← (← (← j.field? "mark").field? "name").str?
    return .mark streamSid name
  else none

/-- A message to the browser. -/
def ofWebrtc (j : Json) : Option Heard := do
  let type ← (← j.field? "type").str?
  if type = "audio" then
    let payload ← (← j.field? "payload").str?
    let pcm16 ← Base64.decode payload
    return .audio pcm16
  else none

def ofJson : Transport → Json → Option Heard
  | .twilio => ofTwilio
  | .webrtc => ofWebrtc

def ofText (transport : Transport) (text : String) : Option Heard :=
  (Json.read text).bind (ofJson transport)

/-- The audio in it. -/
def bytes : Heard → Bytes
  | .media _ ulaw => ulaw
  | .audio pcm16 => pcm16
  | .mark _ _ => []

end Heard

/-! ## One frame -/

/-- A frame that gets as far as `send_text`. -/
def Frame.Sendable (transport : Transport) : Frame → Prop
  | .audio pcm16 => ¬(transport = .twilio ∧ pcm16.length % 2 = 1)
  | .mark _ => transport = .twilio

namespace Audioop

variable (audioop : Audioop) (streamSid : String)

/-- What a frame should be heard as. -/
def heardAs (transport : Transport) : Frame → Heard
  | .audio pcm16 =>
      match transport with
      | .twilio => .media streamSid (audioop.carried .twilio pcm16)
      | .webrtc => .audio pcm16
  | .mark name => .mark streamSid name

theorem bytes_heardAs_audio (transport : Transport) (pcm16 : Bytes) :
    (audioop.heardAs streamSid transport (.audio pcm16)).bytes =
      audioop.carried transport pcm16 := by
  cases transport <;> rfl

/-- The value of a frame's message. -/
def messageJson (transport : Transport) : Frame → Json
  | .audio pcm16 =>
      let payload := Json.str (Base64.encode (audioop.carried transport pcm16))
      match transport with
      | .twilio => .obj [("event", .str "media"), ("streamSid", .str streamSid),
          ("media", .obj [("payload", payload)])]
      | .webrtc => .obj [("type", .str "audio"), ("payload", payload)]
  | .mark name => .obj [("event", .str "mark"), ("streamSid", .str streamSid),
      ("mark", .obj [("name", .str name)])]

variable {transport : Transport} {frame : Frame}

theorem message_toJson (h : frame.Sendable transport) :
    ∃ msg, audioop.message transport streamSid frame = some msg ∧
      msg.toJson? = some (audioop.messageJson streamSid transport frame) := by
  cases frame with
  | mark name => exact ⟨_, rfl, rfl⟩
  | audio pcm16 =>
      cases transport with
      | webrtc => exact ⟨_, rfl, rfl⟩
      | twilio =>
          have heven : pcm16.length % 2 = 0 := by
            have hnot : pcm16.length % 2 ≠ 1 := fun hodd => h ⟨rfl, hodd⟩
            omega
          have hpayload := audioop.pcm16ToUlawB64_eq heven
          rw [message, audioMessage, hpayload]
          exact ⟨_, rfl, rfl⟩

theorem ofJson_messageJson (h : frame.Sendable transport) :
    Heard.ofJson transport (audioop.messageJson streamSid transport frame) =
      some (audioop.heardAs streamSid transport frame) := by
  cases frame with
  | mark name =>
      obtain rfl : transport = .twilio := h
      simp [Heard.ofJson, messageJson, Heard.ofTwilio, Json.field?, Json.str?, heardAs]
  | audio pcm16 =>
      cases transport with
      | webrtc =>
          simp [Heard.ofJson, messageJson, Heard.ofWebrtc, Json.field?, Json.str?, heardAs,
            Base64.decode_encode, carried]
      | twilio =>
          simp [Heard.ofJson, messageJson, Heard.ofTwilio, Json.field?, Json.str?, heardAs,
            Base64.decode_encode]

/-- What is handed to `send_text` is heard. -/
theorem sendText_heard (h : frame.Sendable transport) :
    ∃ text, audioop.sendText transport streamSid frame = some text ∧
      (∀ c ∈ text.toList, Json.Printable c) ∧
      Heard.ofText transport text = some (audioop.heardAs streamSid transport frame) := by
  obtain ⟨msg, hmsg, hj⟩ := audioop.message_toJson streamSid h
  obtain ⟨text, htext, hread, hprintable⟩ := PyVal.jsonDumps_reads hj
  refine ⟨text, ?_, hprintable, ?_⟩
  · rw [sendText, hmsg, Option.bind_some, htext]
  · rw [Heard.ofText, hread, Option.bind_some]
    exact audioop.ofJson_messageJson streamSid h

end Audioop

/-! ## What a playback sends -/

namespace Utterance

variable {u : Utterance}

/-- Every send among them is of a frame that has a text. -/
def SendsSound (u : Utterance) (events : List CallEvent) : Prop :=
  ∀ s ∈ sends events, s.2.Sendable u.transport

theorem sendsSound_nil : u.SendsSound [] := by
  intro s hs
  cases hs

theorem sendsSound_send {frame : Frame} (h : frame.Sendable u.transport) :
    u.SendsSound [.send u.index frame] := by
  intro s hs
  obtain rfl : s = (u.index, frame) := List.mem_singleton.mp hs
  exact h

theorem finish_sound (raised : Bool) : u.SendsSound (u.finish raised).2 := by
  unfold finish
  split
  · intro s hs
    cases hs
  · exact sendsSound_nil

theorem sendAudio_sound (pcm16 : Bytes) (pc : PlaybackPc) :
    u.SendsSound (u.sendAudio pcm16 pc).2 := by
  unfold sendAudio
  split
  · exact finish_sound true
  · rename_i hnot
    exact sendsSound_send hnot

theorem sendMark_sound : u.SendsSound u.sendMark.2 := by
  unfold sendMark
  split
  · rename_i htransport
    exact sendsSound_send htransport
  · exact finish_sound false

theorem drain_sound (buffered : Bytes) (rest : List Bytes) :
    u.SendsSound (u.drain buffered rest).2 := by
  unfold drain
  split
  · exact sendAudio_sound _ _
  · exact sendsSound_nil

theorem sendTail_sound (buffered : Bytes) : u.SendsSound (u.sendTail buffered).2 := by
  unfold sendTail
  split
  · exact sendMark_sound
  · exact sendAudio_sound _ _

theorem go_sound {pc : PlaybackPc} {w : Outcome} {r : AsyncTask PlaybackPc × List CallEvent}
    (h : u.go pc w = some r) : u.SendsSound r.2 := by
  unfold go at h
  split at h <;> simp only [Option.some.injEq, reduceCtorEq] at h <;> subst h
  case h_3 => exact drain_sound _ _
  case h_4 => exact sendTail_sound _
  case h_5 => exact drain_sound _ _
  case h_6 => exact sendMark_sound
  case h_7 => exact finish_sound _
  case h_12 => exact finish_sound _
  all_goals exact sendsSound_nil

theorem resumes_sound {t t' : AsyncTask PlaybackPc} {w : Wake Outcome}
    {e : Option (List CallEvent)} (h : u.runPlayback.Resumes t w t' e) :
    u.SendsSound (e.getD []) := by
  cases h with
  | outcome hgo => exact go_sound hgo
  | thrown => exact sendsSound_nil
  | unwound => exact sendsSound_nil

end Utterance

/-! ## The whole wire -/

namespace CallOrchestrator

variable {cfg : CallConfig} {σ τ : CallOrchestrator}

/-- Every frame on the wire has a text. -/
structure SoundWire (cfg : CallConfig) (σ : CallOrchestrator) : Prop where
  wire : WireInv cfg σ
  sound : ∀ s ∈ sends σ.log, s.2.Sendable cfg.transport

theorem soundWire_inductive : (callSys cfg).Inductive (SoundWire cfg) where
  init := by
    rintro σ ⟨registry, rfl⟩
    exact ⟨wireInv_init, fun s hs => by cases hs⟩
  step σ a τ hσ hs := by
    have hview : PlaybackView cfg σ τ a := (step_cases hs).playbackView
    refine ⟨wireInv_step hσ.wire hview, ?_⟩
    cases hview with
    | same htasks hsends hspeaks =>
        rw [hsends]
        exact hσ.sound
    | cancelled htasks hsends hspeaks =>
        rw [hsends]
        exact hσ.sound
    | spoke text role htasks hsends hspeaks =>
        rw [hsends]
        exact hσ.sound
    | @resumed k p t w e hp hres htasks hlog =>
        obtain ⟨role, hu⟩ := hσ.wire.utterance k p hp
        have hnew := Utterance.resumes_sound hres
        rw [hu] at hnew
        rw [hlog, sends_append]
        exact List.forall_mem_append.mpr ⟨hσ.sound, hnew⟩

end CallOrchestrator

open CallOrchestrator

namespace Audioop

variable (audioop : Audioop) (streamSid : String) (transport : Transport)

/-- The audio heard in some frames. -/
def bytesHeard (frames : List Frame) : Bytes :=
  frames.flatMap fun frame => (audioop.heardAs streamSid transport frame).bytes

theorem bytesHeard_isPrefix {sent frames : List Frame} (h : sent <+: frames) :
    audioop.bytesHeard streamSid transport sent <+:
      audioop.bytesHeard streamSid transport frames := by
  obtain ⟨rest, rfl⟩ := h
  exact ⟨audioop.bytesHeard streamSid transport rest, List.flatMap_append.symm⟩

/-- A whole utterance is heard as its audio. -/
theorem bytesHeard_frames (u : Utterance) :
    audioop.bytesHeard streamSid transport u.frames =
      audioop.carried transport u.audio.flatten := by
  have hmarks : audioop.bytesHeard streamSid transport u.marks = [] := by
    rw [Utterance.marks]
    cases u.transport <;> rfl
  rw [Utterance.frames, bytesHeard, List.flatMap_append]
  refine (congrArg (_ ++ ·) hmarks).trans ?_
  rw [List.append_nil, List.flatMap_map, ← audioop.flatten_carried, ← List.flatMap_def]
  exact List.flatMap_congr fun p _ => audioop.bytes_heardAs_audio streamSid transport p

/-- The texts of some frames. -/
theorem exists_texts {wire : List (Nat × Frame)} (h : ∀ s ∈ wire, s.2.Sendable transport) :
    ∃ texts : List String,
      wire.map (fun s => audioop.sendText transport streamSid s.2) = texts.map some ∧
      (∀ text ∈ texts, ∀ c ∈ text.toList, Json.Printable c) ∧
      texts.map (Heard.ofText transport) =
        wire.map fun s => some (audioop.heardAs streamSid transport s.2) := by
  induction wire with
  | nil => exact ⟨[], rfl, List.forall_mem_nil _, rfl⟩
  | cons s wire ih =>
      obtain ⟨hs, hwire⟩ := List.forall_mem_cons.mp h
      obtain ⟨text, htext, hprintable, hheard⟩ := audioop.sendText_heard streamSid hs
      obtain ⟨texts, htexts, hall, hheards⟩ := ih hwire
      refine ⟨text :: texts, ?_, List.forall_mem_cons.mpr ⟨hprintable, hall⟩, ?_⟩
      · rw [List.map_cons, List.map_cons, htext, htexts]
      · rw [List.map_cons, List.map_cons, hheard, hheards]

end Audioop

/-- **The wire as heard.** In every run of a call each frame that is sent is one text of
printable ASCII which a JSON reader reads and the receiver takes for that frame, with
the stream's id; and the audio it collects is, in the order of the `_speak` calls, a
beginning of each utterance: of what was synthesized, and on Twilio of that encoded at
once. -/
theorem wire_heard (audioop : Audioop) (streamSid : String) {cfg : CallConfig}
    {registry : ToolRegistry} {tr : List (CallOrchestrator × CallAct)} {σ : CallOrchestrator}
    (h : (callSys cfg).Run { llm := { registry } } tr σ) :
    ∃ (texts : List String) (part : Nat → Bytes),
      (sends σ.log).map (fun s => audioop.sendText cfg.transport streamSid s.2) =
        texts.map some ∧
      (∀ text ∈ texts, ∀ c ∈ text.toList, Json.Printable c) ∧
      texts.map (Heard.ofText cfg.transport) = (sends σ.log).map (fun s =>
        some (audioop.heardAs streamSid cfg.transport s.2)) ∧
      (texts.filterMap (Heard.ofText cfg.transport)).flatMap Heard.bytes =
        (List.range (spokenTexts σ.log).length).flatMap part ∧
      ∀ k text, (spokenTexts σ.log)[k]? = some text →
        part k <+: audioop.carried cfg.transport (cfg.synthesize k text).flatten := by
  obtain ⟨hwire, hsound⟩ := soundWire_inductive.run ⟨registry, rfl⟩ h
  obtain ⟨texts, htexts, hprintable, hheard⟩ :=
    audioop.exists_texts streamSid cfg.transport hsound
  refine ⟨texts, fun k => audioop.bytesHeard streamSid cfg.transport (withKey k (sends σ.log)),
    htexts, hprintable, hheard, ?_, ?_⟩
  · have hlen : (spokenTexts σ.log).length = σ.speakTasks.length := by
      rw [← hwire.spoken, List.length_map]
    have hcollected : texts.filterMap (Heard.ofText cfg.transport) =
        (sends σ.log).map fun s => audioop.heardAs streamSid cfg.transport s.2 := by
      have hpicked := congrArg (List.filterMap id) hheard
      rw [List.filterMap_map, List.filterMap_map] at hpicked
      exact hpicked.trans (congrFun List.filterMap_eq_map _)
    have hall : (texts.filterMap (Heard.ofText cfg.transport)).flatMap Heard.bytes =
        audioop.bytesHeard streamSid cfg.transport ((sends σ.log).map (·.2)) := by
      rw [hcollected, Audioop.bytesHeard, List.flatMap_map, List.flatMap_map]
    rw [hall, hlen, eq_flatMap_of_sorted hwire.sorted hwire.known, Audioop.bytesHeard,
      List.flatMap_assoc]
    rfl
  · intro k text htext
    rw [← hwire.spoken, List.getElem?_map] at htext
    obtain ⟨p, hp, rfl⟩ := Option.map_eq_some_iff.mp htext
    obtain ⟨role, hu⟩ := hwire.utterance k p hp
    have hsent := (hwire.sent k p hp).1
    rw [hu] at hsent
    have hheard := audioop.bytesHeard_isPrefix streamSid cfg.transport hsent
    rw [Audioop.bytesHeard_frames] at hheard
    exact hheard

/-- The caller breaks in on the greeting after its first piece. -/
theorem wire_heard_interrupted :
    let cfg : CallConfig := { transport := .twilio, synthesize := fun _ _ => [[0, 0], [1, 0]] }
    ∃ tr σ, (callSys cfg).Run { llm := { registry := ⟨[]⟩ } } tr σ ∧
      sends σ.log = [(0, .audio [0, 0, 1, 0])] ∧
      ∃ (texts : List String) (part : Nat → Bytes),
        texts.map (Heard.ofText .twilio) = (sends σ.log).map (fun s =>
          some (Audioop.g711.heardAs "MZ1" .twilio s.2)) ∧
        part 0 <+: Audioop.g711.carried .twilio [0, 0, 1, 0] := by
  intro cfg
  let acts : List CallAct :=
    [.starting .returns, .starting .returns, .starting .returns,
     .consumer (.outcome .returns), .playback 0 (.outcome .returns),
     .playback 0 (.outcome .returns), .playback 0 (.outcome .returns),
     .playback 0 (.outcome .returns), .enqueue "wait" false, .take,
     .playback 0 (.thrown false)]
  let start : CallOrchestrator := { llm := { registry := ⟨[]⟩ } }
  have hrun : (callSys cfg).Run start ((callSys cfg).trace start acts) _ :=
    TSys.Run.exec acts (by decide)
  obtain ⟨texts, part, -, -, hheard, -, hpart⟩ := wire_heard .g711 "MZ1" hrun
  exact ⟨_, _, hrun, by decide, texts, part, hheard, hpart 0 greeting (by decide)⟩

end VoiceAgent
