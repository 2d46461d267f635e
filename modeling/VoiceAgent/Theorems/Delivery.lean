import VoiceAgent.Logic.Wire
import VoiceAgent.Model.Audio

/-!
# A playback delivers its utterance

A playback that nothing cancels and nothing fails (`Utterance.Clean`) goes on to
its end and has then sent the utterance's frames; what they carry, decoded, is
what the whole stream would have been as one frame. The resampler starts anew on
every frame, but a full piece is an even number of samples, so each frame starts
on a sample that is kept.
-/

namespace VoiceAgent

open Lib Resample

namespace Utterance

variable (u : Utterance)

/-- Where a playback can be while no await of it raises: what is still to be cut
is whole samples. -/
def Clean : PlaybackPc → Prop
  | .created => u.audio.flatten.length % 2 = 0
  | .synthesizing buffered rest | .sendingChunk buffered rest =>
      (buffered ++ rest.flatten).length % 2 = 0
  | .sendingTail | .sendingMark => True
  | .persisting raised | .leavingScope raised => raised = false

/-- A bound on the awaits that are left. -/
def left : PlaybackPc → Nat
  | .created => u.audio.flatten.length + u.audio.length + 6
  | .synthesizing buffered rest => (buffered ++ rest.flatten).length + rest.length + 5
  | .sendingChunk buffered rest => (buffered ++ rest.flatten).length + rest.length + 6
  | .sendingTail => 4
  | .sendingMark => 3
  | .persisting _ => 2
  | .leavingScope _ => 1

/-- A step goes on, with less than `n` left, or ends the playback. -/
def Nears (n : Nat) (t : AsyncTask PlaybackPc) : Prop :=
  t = .done .returned ∨ ∃ pc, t = .suspended pc false ∧ u.Clean pc ∧ u.left pc < n

variable {u} {n : Nat}

theorem finish_nears (h : 2 < n) : u.Nears n (u.finish false).1 := by
  unfold finish
  split
  · exact .inr ⟨.persisting false, rfl, rfl, h⟩
  · exact .inl rfl

theorem sendAudio_nears {pcm16 : Bytes} {pc : PlaybackPc} (heven : pcm16.length % 2 = 0)
    (hpc : u.Clean pc) (h : u.left pc < n) : u.Nears n (u.sendAudio pcm16 pc).1 := by
  rw [sendAudio, if_neg (by omega)]
  exact .inr ⟨pc, rfl, hpc, h⟩

theorem sendMark_nears (h : 3 < n) : u.Nears n u.sendMark.1 := by
  unfold sendMark
  split
  · exact .inr ⟨.sendingMark, rfl, trivial, h⟩
  · exact finish_nears (by omega)

theorem drain_nears {buffered : Bytes} {rest : List Bytes}
    (heven : (buffered ++ rest.flatten).length % 2 = 0)
    (h : (buffered ++ rest.flatten).length + rest.length + 5 < n) :
    u.Nears n (u.drain buffered rest).1 := by
  unfold drain
  split
  · rename_i hfull
    simp only [chunkBytes] at hfull
    rw [List.length_append] at heven h
    refine sendAudio_nears ?_ ?_ ?_
    · rw [List.length_take, chunkBytes]
      omega
    · show (buffered.drop chunkBytes ++ rest.flatten).length % 2 = 0
      rw [List.length_append, List.length_drop, chunkBytes]
      omega
    · show (buffered.drop chunkBytes ++ rest.flatten).length + rest.length + 6 < n
      rw [List.length_append, List.length_drop, chunkBytes]
      omega
  · exact .inr ⟨.synthesizing buffered rest, rfl, heven, h⟩

theorem sendTail_nears {buffered : Bytes} (heven : buffered.length % 2 = 0) (h : 4 < n) :
    u.Nears n (u.sendTail buffered).1 := by
  unfold sendTail
  split
  · exact sendMark_nears (by omega)
  · exact sendAudio_nears heven trivial h

/-- One step of a playback whose awaits all return. -/
theorem go_nears {pc : PlaybackPc} (h : u.Clean pc) :
    ∃ t e, u.go pc .returns = some (t, e) ∧ u.Nears (u.left pc) t := by
  cases pc with
  | created =>
      refine ⟨_, _, rfl, .inr ⟨.synthesizing [] u.audio, rfl, h, ?_⟩⟩
      simp only [left, List.nil_append]
      omega
  | synthesizing buffered rest =>
      cases rest with
      | nil =>
          refine ⟨_, _, rfl, sendTail_nears (by simpa [Clean] using h) ?_⟩
          simp only [left]
          omega
      | cons pcm rest =>
          refine ⟨_, _, rfl, drain_nears (by simpa [Clean] using h) ?_⟩
          simp only [left, List.flatten_cons, List.length_append, List.length_cons]
          omega
  | sendingChunk buffered rest =>
      refine ⟨_, _, rfl, drain_nears h ?_⟩
      simp only [left]
      omega
  | sendingTail => exact ⟨_, _, rfl, sendMark_nears (by simp only [left]; omega)⟩
  | sendingMark => exact ⟨_, _, rfl, finish_nears (by simp only [left]; omega)⟩
  | persisting raised =>
      exact ⟨_, _, rfl, .inr ⟨.leavingScope raised, rfl, h, by simp only [left]; omega⟩⟩
  | leavingScope raised =>
      obtain rfl : raised = false := h
      exact ⟨_, _, rfl, .inl rfl⟩

/-! ## Where a playback ends -/

variable {sent : List Frame} {e : List CallEvent}

theorem finish_done {raised : Bool} (h : u.finish raised = (.done .returned, e)) :
    raised = false ∧ e = [] := by
  unfold finish at h
  split at h
  · cases h
  · cases raised with
    | true => cases h
    | false =>
        cases h
        exact ⟨rfl, rfl⟩

theorem sendAudio_not_done {pcm16 : Bytes} {pc : PlaybackPc} :
    u.sendAudio pcm16 pc ≠ (.done .returned, e) := by
  intro h
  unfold sendAudio at h
  split at h
  · cases (finish_done h).1
  · cases h

theorem sendMark_done (h : u.sendMark = (.done .returned, e)) : u.marks = [] ∧ e = [] := by
  unfold sendMark at h
  cases htransport : u.transport with
  | twilio =>
      rw [htransport] at h
      cases h
  | webrtc =>
      rw [htransport] at h
      exact ⟨by rw [marks, htransport], (finish_done h).2⟩

theorem drain_not_done {buffered : Bytes} {rest : List Bytes} :
    u.drain buffered rest ≠ (.done .returned, e) := by
  intro h
  unfold drain at h
  split at h
  · exact sendAudio_not_done h
  · cases h

/-- A playback whose last await returned has sent its frames. -/
theorem go_finishes {pc : PlaybackPc} (h : u.Progress sent pc)
    (hgo : u.go pc .returns = some (.done .returned, e)) : sent = u.frames ∧ e = [] := by
  cases pc with
  | created => cases hgo
  | synthesizing buffered rest =>
      cases rest with
      | nil =>
          have htail : u.sendTail buffered = (.done .returned, e) := Option.some.inj hgo
          unfold sendTail at htail
          split at htail
          · -- nothing was left in the buffer
            rename_i hempty
            obtain rfl : buffered = [] := by simpa using hempty
            obtain ⟨hmarks, he⟩ := sendMark_done htail
            have hsent := h.1
            simp only [List.flatten_nil, List.append_nil, toSend, pieces_nil, List.map_nil,
              hmarks] at hsent
            exact ⟨hsent, he⟩
          · exact absurd htail sendAudio_not_done
      | cons pcm rest => exact absurd (Option.some.inj hgo) drain_not_done
  | sendingChunk buffered rest => exact absurd (Option.some.inj hgo) drain_not_done
  | sendingTail =>
      -- only WebRTC ends here: it has no mark
      obtain ⟨hmarks, he⟩ := sendMark_done (Option.some.inj hgo)
      have hsent : sent ++ u.marks = u.frames := h
      rw [hmarks, List.append_nil] at hsent
      exact ⟨hsent, he⟩
  | sendingMark => exact ⟨h, (finish_done (Option.some.inj hgo)).2⟩
  | persisting raised => cases hgo
  | leavingScope raised =>
      cases raised with
      | true => cases hgo
      | false =>
          cases hgo
          exact ⟨h.2 rfl, rfl⟩

/-- The run of a playback whose awaits all return: from any point of it on, what
is still missing of the frames is sent. -/
theorem completes_sends {t : AsyncTask PlaybackPc} {es : List (List CallEvent)} {exit : Exit}
    (h : u.runPlayback.Completes .returns t es exit) :
    ∀ {pc : PlaybackPc} {sent : List Frame}, t = .suspended pc false → u.Clean pc →
      u.Progress sent pc → exit = .returned ∧
        ∃ new, sends es.flatten = new.map (u.index, ·) ∧ sent ++ new = u.frames := by
  induction h with
  | done =>
      intro pc sent heq
      cases heq
  | @step t t' e es exit hres hrest ih =>
      intro pc sent heq hclean hprog
      subst heq
      cases hres with
      | outcome hgo =>
          obtain ⟨t'', e', hgo', hnears⟩ := go_nears hclean
          obtain ⟨rfl, rfl⟩ : t' = t'' ∧ e = e' := by
            have := Option.some.inj (hgo.symm.trans hgo')
            simpa using this
          -- the step was the last, or the induction takes over at the next await
          rcases hnears with rfl | ⟨pc', rfl, hclean', -⟩
          · obtain ⟨hall, rfl⟩ := go_finishes hprog hgo
            cases hrest with
            | done => exact ⟨rfl, [], by simp, by simpa using hall⟩
            | step hres' _ => cases hres'
          · obtain ⟨new, hnew, hsent⟩ := go_continues hprog hgo
            obtain ⟨hexit, new', hnew', hall⟩ := ih rfl hclean' (hsent.2 pc' rfl)
            refine ⟨hexit, new ++ new', ?_, by rw [← List.append_assoc, hall]⟩
            rw [List.flatten_cons, sends_append, hnew', List.map_append]
            exact congrArg (· ++ _) hnew

end Utterance

/-! ## What the frames carry -/

namespace Audioop

variable (audioop : Audioop)

/-- The audio that a frame carries once it is decoded. -/
def carried : Transport → Bytes → Bytes
  | .twilio, pcm16 => (everySecond (samples pcm16)).map audioop.lin2ulawSample
  | .webrtc, pcm16 => pcm16

theorem heard_audioMessage (transport : Transport) (streamSid : String) {pcm16 : Bytes}
    (heven : pcm16.length % 2 = 0) :
    (audioop.audioMessage transport streamSid pcm16).bind (heard transport) =
      some (audioop.carried transport pcm16) := by
  cases transport with
  | webrtc => exact Base64.decode_encode pcm16
  | twilio =>
      rw [audioMessage, audioop.pcm16ToUlawB64_eq heven]
      exact Base64.decode_encode _

/-- Full pieces are whole samples, an even number of them. -/
theorem carried_append (transport : Transport) {xs : Bytes}
    (hlen : xs.length = Utterance.chunkBytes) (ys : Bytes) :
    audioop.carried transport (xs ++ ys) =
      audioop.carried transport xs ++ audioop.carried transport ys := by
  cases transport with
  | webrtc => rfl
  | twilio =>
      rw [Utterance.chunkBytes] at hlen
      -- the resampler drops every second sample, so a cut must not shift them
      have heven : (samples xs).length % 2 = 0 := by
        rw [length_samples]
        omega
      rw [carried, samples_append (by omega), everySecond_append heven, List.map_append]
      rfl

theorem flatten_carried (transport : Transport) (pcm16 : Bytes) :
    ((pieces Utterance.chunkBytes pcm16).map (audioop.carried transport)).flatten =
      audioop.carried transport pcm16 := by
  rw [← List.flatMap_def]
  refine flatMap_pieces ?_ (fun xs ys hlen => audioop.carried_append transport hlen ys) pcm16
  cases transport <;> rfl

end Audioop

theorem even_of_mem_pieces {pcm16 : Bytes} (heven : pcm16.length % 2 = 0) :
    ∀ p ∈ pieces Utterance.chunkBytes pcm16, p.length % 2 = 0 := by
  fun_induction pieces Utterance.chunkBytes pcm16 with
  | case1 xs h ih =>
      simp only [Utterance.chunkBytes] at h ih ⊢
      rw [List.forall_mem_cons]
      refine ⟨by rw [List.length_take]; omega, ih ?_⟩
      rw [List.length_drop]
      omega
  | case2 xs h hempty => simp
  | case3 xs h hempty => simpa using heven

/-- **Delivery.** A playback whose awaits all return comes to its end; it sends
pieces of 3200 bytes, then at most one shorter piece, then the mark, and what its
frames carry is the whole stream on WebRTC, and on Twilio the whole stream encoded
at once. -/
theorem playback_delivers (audioop : Audioop) (streamSid : String) (u : Utterance)
    (heven : u.audio.flatten.length % 2 = 0) :
    (∃ es, u.runPlayback.Completes .returns (.suspended .created false) es .returned) ∧
    ∀ es exit, u.runPlayback.Completes .returns (.suspended .created false) es exit →
      exit = .returned ∧
      ∃ full last decoded : List Bytes,
        sends es.flatten =
          ((full ++ last).map Frame.audio ++ u.marks).map (u.index, ·) ∧
        (∀ p ∈ full, p.length = 3200) ∧
        last.length ≤ 1 ∧ (∀ p ∈ last, 0 < p.length ∧ p.length < 3200) ∧
        (full ++ last).map (fun p =>
          (audioop.audioMessage u.transport streamSid p).bind (heard u.transport)) =
            decoded.map some ∧
        match u.transport with
        | .webrtc => decoded.flatten = u.audio.flatten
        | .twilio =>
            ∃ payload, audioop.pcm16ToUlawB64 u.audio.flatten = some payload ∧
              Base64.decode payload = some decoded.flatten := by
  have hclean : u.Clean .created := heven
  refine ⟨Coroutine.exists_completes u.left (fun pc (h : u.Clean pc) => Utterance.go_nears h)
    hclean, ?_⟩
  intro es exit h
  obtain ⟨rfl, new, hsends, hnew⟩ :=
    @Utterance.completes_sends _ _ _ _ h _ [] rfl hclean rfl
  obtain ⟨full, last, hpieces, hfull, hone, hlast⟩ :=
    pieces_shape (show 0 < Utterance.chunkBytes by decide) u.audio.flatten
  refine ⟨rfl, full, last,
    (full ++ last).map (audioop.carried u.transport), ?_, hfull, hone, hlast, ?_, ?_⟩
  · rw [hsends, ← hpieces]
    exact congrArg _ hnew
  · rw [List.map_map, ← hpieces]
    refine List.map_congr_left fun p hp => ?_
    exact audioop.heard_audioMessage u.transport streamSid (even_of_mem_pieces heven p hp)
  · rw [← hpieces, audioop.flatten_carried]
    cases u.transport with
    | webrtc => rfl
    | twilio => exact ⟨_, audioop.pcm16ToUlawB64_eq heven, Base64.decode_encode _⟩

/-- Two chunks of odd lengths: one full piece, and the rest. -/
theorem playback_delivers_odd_chunks :
    let u : Utterance :=
      ⟨0, .webrtc, "Hi", none, [List.replicate 1601 2, List.replicate 1603 7]⟩
    ∃ (es : List _) (sent : List Bytes),
      u.runPlayback.Completes .returns (.suspended .created false) es .returned ∧
      sends es.flatten = (sent.map Frame.audio ++ u.marks).map (u.index, ·) ∧
      sent.map List.length = [3200, 4] ∧ sent.flatten = u.audio.flatten := by
  intro u
  have hlength : u.audio.flatten.length = 3204 := by
    simp only [u, List.flatten_cons, List.flatten_nil, List.length_append, List.length_replicate,
      List.length_nil]
  obtain ⟨⟨es, hes⟩, hdelivers⟩ := playback_delivers .g711 "MZ1" u (by rw [hlength])
  obtain ⟨-, full, last, decoded, hsends, hfull, hone, hlast, hdecoded, hflat⟩ :=
    hdelivers es _ hes
  -- on WebRTC a frame carries its piece as it is
  have hheard : ∀ p, (Audioop.g711.audioMessage .webrtc "MZ1" p).bind (heard .webrtc) = some p :=
    fun p => Base64.decode_encode p
  have hsame : full ++ last = decoded := by
    refine (List.map_injective_iff.mpr fun _ _ h => Option.some.inj h) ?_
    rw [← hdecoded]
    exact List.map_congr_left fun p _ => (hheard p).symm
  have hflat : (full ++ last).flatten = u.audio.flatten := hsame ▸ hflat
  have hfullLength : full.flatten.length = full.length * 3200 := by
    rw [List.length_flatten, List.eq_replicate_of_mem (l := full.map List.length) (a := 3200)]
    · simp
    · simpa using hfull
  have htotal := congrArg List.length hflat
  rw [List.flatten_append, List.length_append, hfullLength, hlength] at htotal
  refine ⟨es, full ++ last, hes, hsends, ?_, hflat⟩
  clear_value u
  rcases Nat.le_one_iff_eq_zero_or_eq_one.mp hone with hnone | hsome
  · rw [List.length_eq_zero_iff.mp hnone, List.flatten_nil, List.length_nil] at htotal
    omega
  · obtain ⟨p, rfl⟩ := List.length_eq_one_iff.mp hsome
    have hp := hlast p (List.mem_singleton_self p)
    rw [List.flatten_cons, List.flatten_nil, List.append_nil] at htotal
    obtain ⟨q, rfl⟩ := List.length_eq_one_iff.mp (show full.length = 1 by omega)
    have hq := hfull q (List.mem_singleton_self q)
    simp only [List.length_singleton] at htotal
    show [q.length, p.length] = _
    rw [hq, show p.length = 4 by omega]

end VoiceAgent
