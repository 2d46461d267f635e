import VoiceAgent.Lib.Base64
import VoiceAgent.Lib.Resample
import VoiceAgent.Model.Playback

/-!
# `app.pipeline.audio`, and what a frame of audio is on the wire

The codec helpers over the C module `audioop`, and `_send_audio`, `_send_mark`
and `on_audio_frame` as far as they encode or decode. A sample is a 16-bit word,
little endian in a byte string.
-/

namespace VoiceAgent

open Lib

/-- The C code of `audioop` sample by sample: the two μ-law tables, and what
`ratecv` puts out between two samples at the counter `d`, where `inrate` and
`outrate` are the rates reduced. At `d = 0` that is the later sample itself. -/
structure Audioop where
  ulaw2linSample : UInt8 → BitVec 16
  lin2ulawSample : BitVec 16 → UInt8
  blend (inrate outrate : Nat) (prev cur : BitVec 16) (d : Int) : BitVec 16
  blend_zero : ∀ inrate outrate prev cur, 0 < inrate → 0 < outrate →
    blend inrate outrate prev cur 0 = cur

/-- `audioop` as it is: G.711, and a linear interpolation. -/
def Audioop.g711 : Audioop where
  ulaw2linSample u :=
    let v := 255 - u.toNat
    let t : Int := (v % 16 * 8 + 132) * 2 ^ (v / 16 % 8)
    BitVec.ofInt 16 (if 128 ≤ v then 132 - t else t - 132)
  lin2ulawSample s :=
    let v := s.toInt / 4
    let m := min v.natAbs 8159 + 33
    -- the segment, and the four bits after its leading one
    let uval := match (List.range 8).find? fun seg => m < 64 * 2 ^ seg with
      | some seg => seg * 16 + m / 2 ^ (seg + 1) % 16
      | none => 127
    UInt8.ofNat ((if v < 0 then 127 else 255) - uval)
  blend _ outrate prev cur d :=
    BitVec.ofInt 16 ((prev.toInt * d + cur.toInt * (outrate - d)) / outrate)
  blend_zero _ outrate prev cur _ hout := by
    rw [mul_zero, zero_add, sub_zero, Int.mul_ediv_cancel _ (by omega), BitVec.ofInt_toInt]

/-! ## Byte strings -/

/-- The samples of a byte string; half a sample at its end is not read. -/
def samples : Bytes → List (BitVec 16)
  | [] => []
  | [_] => []
  | lo :: hi :: rest => BitVec.ofNat 16 (lo.toNat + 256 * hi.toNat) :: samples rest

/-- The byte string of some samples. -/
def ofSamples : List (BitVec 16) → Bytes
  | [] => []
  | s :: rest => UInt8.ofNat (s.toNat % 256) :: UInt8.ofNat (s.toNat / 256) :: ofSamples rest

namespace Audioop

variable (audioop : Audioop)

/-- `ulaw2lin(fragment, 2)` -/
def ulaw2lin (fragment : Bytes) : Bytes := ofSamples (fragment.map audioop.ulaw2linSample)

/-- `lin2ulaw(fragment, 2)`, `none` where it raises. -/
def lin2ulaw (fragment : Bytes) : Option Bytes :=
  if fragment.length % 2 = 1 then none
  else some ((samples fragment).map audioop.lin2ulawSample)

/-- `ratecv(fragment, 2, 1, inrate, outrate, state)`, `none` where it raises. -/
def ratecv (fragment : Bytes) (inrate outrate : Nat)
    (state : Option (Resample.Phase (BitVec 16))) :
    Option (Bytes × Resample.Phase (BitVec 16)) :=
  if fragment.length % 2 = 1 then none
  else
    let inrate' := inrate / inrate.gcd outrate
    let outrate' := outrate / inrate.gcd outrate
    let state := state.getD ⟨-(outrate' : Int), 0, 0⟩
    let r := Resample.convert inrate' outrate' (audioop.blend inrate' outrate') state
      (samples fragment)
    some (ofSamples r.1, r.2)

/-- `ULAW_RATE` -/
def ulawRate : Nat := 8000

/-- `PCM_RATE` -/
def pcmRate : Nat := 16000

/-- `ulaw_b64_to_pcm16`, `none` where it raises. -/
def ulawB64ToPcm16 (payloadB64 : String) : Option Bytes := do
  let ulaw ← Base64.decode payloadB64
  let pcm8k := audioop.ulaw2lin ulaw
  let (pcm16k, _) ← audioop.ratecv pcm8k ulawRate pcmRate none
  return pcm16k

/-- `pcm16_to_ulaw_b64`, `none` where it raises. -/
def pcm16ToUlawB64 (pcm16k : Bytes) : Option String := do
  let (pcm8k, _) ← audioop.ratecv pcm16k pcmRate ulawRate none
  let ulaw ← audioop.lin2ulaw pcm8k
  return Base64.encode ulaw

/-- `pcm16_b64_passthrough`, `none` where it raises. -/
def pcm16B64Passthrough (payloadB64 : String) : Option Bytes := Base64.decode payloadB64

/-- `on_audio_frame` up to its await: what goes to `send_pcm`; `none` where the
payload makes it raise first. -/
def onAudioFrame (transport : Transport) (payloadB64 : String) : Option Bytes :=
  match transport with
  | .twilio => audioop.ulawB64ToPcm16 payloadB64
  | .webrtc => pcm16B64Passthrough payloadB64

/-- The message that `_send_audio` sends, `none` where it raises. -/
def audioMessage (transport : Transport) (streamSid : String) (pcm16 : Bytes) :
    Option PyVal :=
  match transport with
  | .twilio => do
      let payload ← audioop.pcm16ToUlawB64 pcm16
      return .dict [("event", .str "media"), ("streamSid", .str streamSid),
        ("media", .dict [("payload", .str payload)])]
  | .webrtc =>
      some (.dict [("type", .str "audio"), ("payload", .str (Base64.encode pcm16))])

/-- The message of a frame: what `_send_audio` or `_send_mark` sends. -/
def message (transport : Transport) (streamSid : String) : Frame → Option PyVal
  | .audio pcm16 => audioop.audioMessage transport streamSid pcm16
  | .mark name =>
      some (.dict [("event", .str "mark"), ("streamSid", .str streamSid),
        ("mark", .dict [("name", .str name)])])

/-- The text of a frame: what `_send_audio` or `_send_mark` hands to `send_text`. -/
def sendText (transport : Transport) (streamSid : String) (frame : Frame) : Option String :=
  (audioop.message transport streamSid frame).bind PyVal.jsonDumps

end Audioop

/-- The audio in a message, as its receiver decodes it. -/
def heard (transport : Transport) (msg : PyVal) : Option Bytes :=
  let payload : Except PyErr (Option PyVal) := do
    let media ← match transport with
      | .twilio => msg.getD "media" .emptyDict
      | .webrtc => pure msg
    media.get "payload"
  match payload with
  | .ok (some (.str text)) => Base64.decode text
  | _ => none

/-! ## Samples and bytes -/

theorem samples_ofSamples (xs : List (BitVec 16)) : samples (ofSamples xs) = xs := by
  induction xs with
  | nil => rfl
  | cons s xs ih =>
      have hs := s.isLt
      have hlo : (UInt8.ofNat (s.toNat % 256)).toNat = s.toNat % 256 :=
        UInt8.toNat_ofNat_of_lt' (by simp only [UInt8.size]; omega)
      have hhi : (UInt8.ofNat (s.toNat / 256)).toNat = s.toNat / 256 :=
        UInt8.toNat_ofNat_of_lt' (by simp only [UInt8.size]; omega)
      rw [ofSamples, samples, ih, hlo, hhi, Nat.mod_add_div, BitVec.ofNat_toNat,
        BitVec.setWidth_eq]

theorem length_ofSamples (xs : List (BitVec 16)) : (ofSamples xs).length = 2 * xs.length := by
  induction xs with
  | nil => rfl
  | cons s xs ih =>
      simp only [ofSamples, List.length_cons, ih]
      omega

theorem ofSamples_append (xs ys : List (BitVec 16)) :
    ofSamples (xs ++ ys) = ofSamples xs ++ ofSamples ys := by
  induction xs with
  | nil => rfl
  | cons s xs ih => simp only [List.cons_append, ofSamples, ih]

theorem length_samples (bs : Bytes) : (samples bs).length = bs.length / 2 := by
  induction bs using samples.induct with
  | case1 => rfl
  | case2 b => simp [samples]
  | case3 lo hi rest ih =>
      simp only [samples, List.length_cons, ih]
      omega

theorem samples_append {bs : Bytes} (h : bs.length % 2 = 0) (bs' : Bytes) :
    samples (bs ++ bs') = samples bs ++ samples bs' := by
  induction bs using samples.induct with
  | case1 => rfl
  | case2 b => cases h
  | case3 lo hi rest ih =>
      have hrest : rest.length % 2 = 0 := by
        simp only [List.length_cons] at h
        omega
      simp only [List.cons_append, samples, ih hrest]

/-! ## What the helpers compute -/

namespace Audioop

variable (audioop : Audioop)

/-- What the state is for: with it handed on, a fragment may be cut anywhere. -/
theorem ratecv_append {xs ys out out' : Bytes} {inrate outrate : Nat}
    {state : Option (Resample.Phase (BitVec 16))} {mid last : Resample.Phase (BitVec 16)}
    (hxs : audioop.ratecv xs inrate outrate state = some (out, mid))
    (hys : audioop.ratecv ys inrate outrate (some mid) = some (out', last)) :
    audioop.ratecv (xs ++ ys) inrate outrate state = some (out ++ out', last) := by
  simp only [ratecv, Option.ite_none_left_eq_some, Option.some.injEq, Prod.mk.injEq] at hxs hys
  obtain ⟨hx, rfl, rfl⟩ := hxs
  obtain ⟨hy, rfl, rfl⟩ := hys
  rw [ratecv, if_neg (by rw [List.length_append]; omega), samples_append (by omega)]
  simp only [Resample.convert_append, ofSamples_append, Option.getD_some]

/-- Two to one: every second sample. -/
theorem ratecv_down {pcm : Bytes} (h : pcm.length % 2 = 0) :
    ∃ state, audioop.ratecv pcm pcmRate ulawRate none =
      some (ofSamples (Resample.everySecond (samples pcm)), state) := by
  have hhalf := @Resample.convert_halving _ (audioop.blend 2 1)
    (fun prev cur => audioop.blend_zero 2 1 prev cur (by omega) (by omega))
    (s := ⟨-1, 0, 0⟩) rfl (samples pcm)
  refine ⟨(Resample.convert 2 1 (audioop.blend 2 1) ⟨-1, 0, 0⟩ (samples pcm)).2, ?_⟩
  rw [← hhalf, ratecv, if_neg (by omega)]
  rfl

theorem pcm16ToUlawB64_eq {pcm : Bytes} (h : pcm.length % 2 = 0) :
    audioop.pcm16ToUlawB64 pcm = some (Base64.encode
      ((Resample.everySecond (samples pcm)).map audioop.lin2ulawSample)) := by
  obtain ⟨state, hcv⟩ := audioop.ratecv_down h
  simp only [pcm16ToUlawB64, hcv, lin2ulaw, length_ofSamples, samples_ofSamples,
    Option.bind_eq_bind, Option.bind_some]
  rw [if_neg (by omega)]
  rfl

/-- What `ulaw_b64_to_pcm16` makes of a μ-law stream. -/
def inbound (ulaw : Bytes) : Bytes :=
  ofSamples (Resample.convert 1 2 (audioop.blend 1 2) ⟨-2, 0, 0⟩
    (ulaw.map audioop.ulaw2linSample)).1

theorem ulawB64ToPcm16_eq (payloadB64 : String) :
    audioop.ulawB64ToPcm16 payloadB64 = (Base64.decode payloadB64).map audioop.inbound := by
  cases hdecode : Base64.decode payloadB64 with
  | none => simp [ulawB64ToPcm16, hdecode]
  | some ulaw =>
      have hlen : ¬ (ofSamples (ulaw.map audioop.ulaw2linSample)).length % 2 = 1 := by
        rw [length_ofSamples]
        omega
      simp only [ulawB64ToPcm16, hdecode, ulaw2lin, ratecv, if_neg hlen, samples_ofSamples,
        Option.bind_eq_bind, Option.bind_some]
      rfl

theorem ulawB64ToPcm16_encode (ulaw : Bytes) :
    audioop.ulawB64ToPcm16 (Base64.encode ulaw) = some (audioop.inbound ulaw) := by
  rw [ulawB64ToPcm16_eq, Base64.decode_encode, Option.map_some]

/-- `on_audio_frame` raises on what the decoder does. -/
theorem onAudioFrame_isSome (transport : Transport) (payloadB64 : String) :
    (audioop.onAudioFrame transport payloadB64).isSome = (Base64.decode payloadB64).isSome := by
  cases transport with
  | twilio => rw [onAudioFrame, ulawB64ToPcm16_eq, Option.isSome_map]
  | webrtc => rfl

theorem length_inbound (ulaw : Bytes) :
    (audioop.inbound ulaw).length = 2 * (2 * ulaw.length - 1) := by
  rw [inbound, length_ofSamples, Resample.length_convert_doubling rfl, List.length_map]

/-- `_send_audio` raises before it sends exactly where half a sample is left. -/
theorem audioMessage_isNone (transport : Transport) (streamSid : String) (pcm16 : Bytes) :
    audioop.audioMessage transport streamSid pcm16 = none ↔
      transport = .twilio ∧ pcm16.length % 2 = 1 := by
  cases transport with
  | webrtc => simp [audioMessage]
  | twilio =>
      by_cases hodd : pcm16.length % 2 = 1
      · simp [audioMessage, pcm16ToUlawB64, ratecv, hodd]
      · have heven : pcm16.length % 2 = 0 := by omega
        simp [audioMessage, audioop.pcm16ToUlawB64_eq heven, hodd]

end Audioop

end VoiceAgent
