import VoiceAgent.Model.Audio

/-!
# μ-law to PCM16 and back

The upsampler interpolates between the samples and the downsampler picks every second
one: these are the samples of the stream itself. G.711 has two codes for zero, and the
encoder knows one of them.
-/

namespace VoiceAgent

open Lib

/-- The two tables are those of G.711; how `ratecv` interpolates is left open. -/
structure Audioop.IsG711 (audioop : Audioop) : Prop where
  ulaw2lin_eq : audioop.ulaw2linSample = Audioop.g711.ulaw2linSample
  lin2ulaw_eq : audioop.lin2ulawSample = Audioop.g711.lin2ulawSample

/-- The code of zero that the encoder knows; any other code as it is. -/
def positiveZero (u : UInt8) : UInt8 := if u = 0x7f then 0xff else u

namespace Audioop

theorem g711_round_trip (u : UInt8) :
    g711.lin2ulawSample (g711.ulaw2linSample u) = positiveZero u := by
  have hall : ∀ n : Fin 256,
      g711.lin2ulawSample (g711.ulaw2linSample (.ofNat n)) = positiveZero (.ofNat n) := by
    decide +kernel
  have hu := hall ⟨u.toNat, u.toNat_lt⟩
  rwa [UInt8.ofNat_toNat] at hu

variable {audioop : Audioop}

theorem IsG711.round_trip (h : audioop.IsG711) (u : UInt8) :
    audioop.lin2ulawSample (audioop.ulaw2linSample u) = positiveZero u := by
  rw [h.ulaw2lin_eq, h.lin2ulaw_eq]
  exact g711_round_trip u

/-- No sample is lost by up- and downsampling. -/
theorem everySecond_inbound (audioop : Audioop) (ulaw : Bytes) :
    Resample.everySecond (samples (audioop.inbound ulaw)) =
      ulaw.map audioop.ulaw2linSample := by
  rw [inbound, samples_ofSamples]
  refine Resample.everySecond_convert_doubling (fun prev cur => ?_) rfl _
  apply audioop.blend_zero
  · omega
  · omega

end Audioop

/-- **Round trip.** Every byte string comes back from `ulaw_b64_to_pcm16` and
`pcm16_to_ulaw_b64` with each negative zero made a positive one and nothing else
changed; between the two, a string that is not empty is two bytes short of four for
each of its own. -/
theorem ulaw_round_trip {audioop : Audioop} (h : audioop.IsG711) (ulaw : Bytes) :
    ∃ pcm16 payload,
      audioop.ulawB64ToPcm16 (Base64.encode ulaw) = some pcm16 ∧
      (ulaw ≠ [] → pcm16.length = 4 * ulaw.length - 2) ∧
      audioop.pcm16ToUlawB64 pcm16 = some payload ∧
      Base64.decode payload =
        some (ulaw.map fun u => if u = 0x7f then 0xff else u) := by
  have hlength := audioop.length_inbound ulaw
  have heven : (audioop.inbound ulaw).length % 2 = 0 := by omega
  refine ⟨_, _, audioop.ulawB64ToPcm16_encode ulaw, ?_, audioop.pcm16ToUlawB64_eq heven, ?_⟩
  · intro _
    omega
  · rw [Base64.decode_encode, audioop.everySecond_inbound, List.map_map]
    refine congrArg some (List.map_congr_left fun u _ => ?_)
    exact h.round_trip u

/-- `audioop` with an interpolation that divides by the input rate. -/
def heldAudioop : Audioop where
  ulaw2linSample := Audioop.g711.ulaw2linSample
  lin2ulawSample := Audioop.g711.lin2ulawSample
  blend inrate _ prev cur d :=
    BitVec.ofInt 16 ((prev.toInt * d + cur.toInt * (inrate - d)) / inrate)
  blend_zero inrate _ prev cur hin _ := by
    rw [mul_zero, zero_add, sub_zero, Int.mul_ediv_cancel _ (by omega), BitVec.ofInt_toInt]

/-- With either interpolation, two zeros and a loud sample. -/
theorem ulaw_round_trip_zeros :
    (∃ pcm16 payload,
      Audioop.g711.ulawB64ToPcm16 (Base64.encode [0x7f, 0xff, 0x00]) = some pcm16 ∧
      ([0x7f, 0xff, 0x00] ≠ ([] : Bytes) → pcm16.length = 10) ∧
      Audioop.g711.pcm16ToUlawB64 pcm16 = some payload ∧
      Base64.decode payload = some [0xff, 0xff, 0x00]) ∧
    ∃ pcm16 payload,
      heldAudioop.ulawB64ToPcm16 (Base64.encode [0x7f, 0xff, 0x00]) = some pcm16 ∧
      ([0x7f, 0xff, 0x00] ≠ ([] : Bytes) → pcm16.length = 10) ∧
      heldAudioop.pcm16ToUlawB64 pcm16 = some payload ∧
      Base64.decode payload = some [0xff, 0xff, 0x00] :=
  ⟨@ulaw_round_trip Audioop.g711 ⟨rfl, rfl⟩ [0x7f, 0xff, 0x00],
    @ulaw_round_trip heldAudioop ⟨rfl, rfl⟩ [0x7f, 0xff, 0x00]⟩

end VoiceAgent
