import VoiceAgent.Model.Audio

/-!
# Inbound audio and its framing

`ulaw_b64_to_pcm16` drops the state that `ratecv` returns and starts every frame
anew, so every frame that carries audio loses one sample. The frames together
give what the stream as one frame gives only where no more than one of them
carries any.
-/

namespace VoiceAgent

open Lib

namespace Audioop

variable (audioop : Audioop)

@[simp] theorem inbound_nil : audioop.inbound [] = [] := rfl

/-- Every frame that is not empty loses one sample of two bytes. -/
theorem length_flatMap_inbound (frames : List Bytes) :
    (frames.flatMap audioop.inbound).length + 2 * (frames.filter (· ≠ [])).length =
      4 * frames.flatten.length := by
  induction frames with
  | nil => rfl
  | cons f frames ih =>
      rw [List.flatMap_cons, List.length_append, List.flatten_cons, List.length_append,
        audioop.length_inbound]
      by_cases hf : f = []
      · subst hf
        rw [List.filter_cons_of_neg (by simp), List.length_nil]
        omega
      · have hpos := List.length_pos_iff.mpr hf
        rw [List.filter_cons_of_pos (by simpa using hf), List.length_cons]
        omega

/-- Frames none of which carries audio give nothing. -/
theorem inbound_of_empty {frames : List Bytes} (h : ∀ f ∈ frames, f = []) :
    frames.flatten = [] ∧ frames.flatMap audioop.inbound = [] := by
  constructor
  · exact List.flatten_eq_nil_iff.mpr h
  · refine List.flatMap_eq_nil_iff.mpr fun f hf => ?_
    rw [h f hf, inbound_nil]

theorem flatMap_inbound_of_le_one {frames : List Bytes}
    (h : (frames.filter (· ≠ [])).length ≤ 1) :
    frames.flatMap audioop.inbound = audioop.inbound frames.flatten := by
  induction frames with
  | nil => rfl
  | cons f frames ih =>
      rw [List.flatMap_cons, List.flatten_cons]
      by_cases hf : f = []
      · subst hf
        rw [inbound_nil, List.nil_append, List.nil_append]
        exact ih (by simpa using h)
      · -- the one frame that carries audio
        rw [List.filter_cons_of_pos (by simpa using hf), List.length_cons] at h
        have hrest : ∀ g ∈ frames, g = [] := by
          have hnone : frames.filter (· ≠ []) = [] := List.length_eq_zero_iff.mp (by omega)
          simpa [List.filter_eq_nil_iff] using hnone
        obtain ⟨hflat, hnil⟩ := audioop.inbound_of_empty hrest
        rw [hflat, hnil, List.append_nil, List.append_nil]

/-- What `on_audio_frame` hands to the STT client for each frame in turn. -/
def sentToStt (frames : List Bytes) : Option (List Bytes) :=
  frames.mapM fun ulaw => audioop.onAudioFrame .twilio (Base64.encode ulaw)

theorem sentToStt_eq (frames : List Bytes) :
    audioop.sentToStt frames = some (frames.map audioop.inbound) := by
  induction frames with
  | nil => rfl
  | cons f frames ih =>
      unfold sentToStt at ih ⊢
      rw [List.mapM_cons, ih, onAudioFrame, audioop.ulawB64ToPcm16_encode]
      rfl

end Audioop

/-- **Framing.** What the frames of a stream become, put together, is what the
stream becomes as one frame exactly where at most one of them carries audio. -/
theorem inbound_framing_iff (audioop : Audioop) (frames : List Bytes) :
    (audioop.sentToStt frames).map List.flatten =
        (audioop.sentToStt [frames.flatten]).map List.flatten ↔
      (frames.filter (· ≠ [])).length ≤ 1 := by
  have hone : audioop.sentToStt [frames.flatten] = some [audioop.inbound frames.flatten] :=
    audioop.sentToStt_eq _
  rw [hone, audioop.sentToStt_eq, Option.map_some, Option.map_some, Option.some.injEq,
    List.flatten_singleton, ← List.flatMap_def]
  constructor
  · intro heq
    have hlen := audioop.length_flatMap_inbound frames
    rw [heq, audioop.length_inbound] at hlen
    omega
  · exact audioop.flatMap_inbound_of_le_one

/-- Two frames of one byte of silence each: two samples, where one frame of two
bytes gives three. -/
theorem two_frames_lose_sample :
    (Audioop.g711.sentToStt [[0xff], [0xff]]).map List.flatten ≠
      (Audioop.g711.sentToStt [[0xff, 0xff]]).map List.flatten := by
  decide

end VoiceAgent
