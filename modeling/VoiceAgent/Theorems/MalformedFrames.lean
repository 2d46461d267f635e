import VoiceAgent.Logic.Frames

/-!
# Malformed frames

The connections on which the malformed frames make no difference: those where no harmful
one comes before the first stop frame. Where one does, the handler ends by an exception
or has made more calls than it would have made without the malformed frames.
-/

namespace VoiceAgent

open Lib

namespace HandlerState

open Transport

variable {audioop : Audioop} {t : Transport} {env : List OrchestratorCall → Outcome}
  {s : HandlerState} {f : TextFrame}

theorem await_next {s' : HandlerState} (h : await env s = .next s') : s' = s := by
  unfold await at h
  split at h
  · exact (Loop.next.inj h).symm
  · cases h

/-- Where the loop goes on, `isStart` says whether a call was started. -/
theorem onFrame_next {s' : HandlerState} (h : onFrame audioop t env s f = .next s') :
    t.isStop f = false ∧ s'.created = (s.created || t.isStart f) := by
  cases onFrame_cases audioop t env s f with
  | ignores _ hstart hstop _ hf =>
      obtain rfl := Loop.next.inj (hf.symm.trans h)
      exact ⟨hstop, by simp [hstart]⟩
  | raises _ _ hf => cases hf.symm.trans h
  | starts frame _ hstart hstop hf =>
      obtain rfl := await_next (hf.symm.trans h)
      exact ⟨hstop, by simp [hstart]⟩
  | audio text hcreated _ _ hstart hstop _ hf =>
      have haudio := hf.symm.trans h
      simp only [HandlerState.audio] at haudio
      split at haudio
      · cases haudio
      · obtain rfl := await_next haudio
        exact ⟨hstop, by simp [hcreated]⟩
  | stops _ _ _ hf => cases hf.symm.trans h

/-! ## Connections without harmful frames -/

/-- No harmful frame comes before the first stop frame. -/
def Harmless (t : Transport) (created : Bool) (frames : List TextFrame) : Prop :=
  ∀ pre f post, frames = pre ++ f :: post → pre.any t.isStop = false →
    t.harmful (created || pre.any t.isStart) f = false

theorem harmless_cons {created : Bool} {frames : List TextFrame} :
    Harmless t created (f :: frames) ↔ t.harmful created f = false ∧
      (t.isStop f = false → Harmless t (created || t.isStart f) frames) := by
  constructor
  · intro h
    refine ⟨by simpa using h [] f frames rfl rfl, ?_⟩
    intro hstop pre g post heq hpre
    have hg := h (f :: pre) g post (by rw [heq]; rfl) (by simp [hstop, hpre])
    simpa [Bool.or_assoc] using hg
  · rintro ⟨hf, hrest⟩ pre g post heq hpre
    -- the frame is the first one, or comes after it
    cases pre with
    | nil =>
        obtain ⟨rfl, rfl⟩ := List.cons.inj heq
        simpa using hf
    | cons f' pre =>
        obtain ⟨rfl, rfl⟩ := List.cons.inj heq
        rw [List.any_cons, Bool.or_eq_false_iff] at hpre
        have hg := hrest hpre.1 pre g post rfl hpre.2
        simpa [Bool.or_assoc] using hg

theorem Harmless.next {s' : HandlerState} {frames : List TextFrame}
    (h : Harmless t s.created (f :: frames)) (hf : onFrame audioop t env s f = .next s') :
    Harmless t s'.created frames := by
  obtain ⟨hstop, hcreated⟩ := onFrame_next hf
  rw [hcreated]
  exact (harmless_cons.mp h).2 hstop

/-- A malformed frame that is not harmful is ignored. -/
theorem onFrame_ignored (hbad : t.wellFormed f = false) (hf : t.harmful s.created f = false) :
    onFrame audioop t env s f = .next s := by
  cases onFrame_cases audioop t env s f with
  | ignores _ _ _ _ h => exact h
  | raises _ hharmful _ => simp [hf] at hharmful
  | starts _ hharmful _ _ _ => simp [hf, hbad] at hharmful
  | audio _ _ _ hharmful _ _ _ _ => simp [hf, hbad] at hharmful
  | stops hok _ _ _ => simp [hbad] at hok

theorem run_of_harmless {frames : List TextFrame} (h : Harmless t false frames) :
    runHandler audioop t env (frames.filter t.wellFormed) = runHandler audioop t env frames := by
  refine Loop.run_filter_rel
    (P := fun (s s' : HandlerState) as => s = s' ∧ Harmless t s.created as) (Q := Eq)
    ?_ ?_ ?_ frames {} {} ⟨rfl, h⟩
  · rintro s _ ⟨rfl, _⟩
    rfl
  · rintro s _ f as hbad ⟨rfl, hs⟩
    have hf : onFrame audioop t env s f = .next s :=
      onFrame_ignored hbad (harmless_cons.mp hs).1
    exact .inl ⟨s, hf, rfl, hs.next hf⟩
  · rintro s _ f as _ ⟨rfl, hs⟩
    cases hf : onFrame audioop t env s f with
    | next s' => exact .inl ⟨s', s', rfl, rfl, rfl, hs.next hf⟩
    | done r => exact .inr ⟨r, r, rfl, rfl, rfl⟩

/-! ## A harmful frame -/

/-- Every await returns. -/
def allReturn (_ : List OrchestratorCall) : Outcome := .returns

/-- The handler ends by an exception that is no disconnect. -/
def endsBadly (r : List OrchestratorCall × HandlerEnd) : Prop := r.2 = .raised ∨ r.2 = .failed

/-- `s'` has made more calls than `s`, and has an orchestrator where `s` has one. -/
def Ahead (s s' : HandlerState) : Prop :=
  (s.created = true → s'.created = true) ∧ s.calls.length < s'.calls.length

theorem finallyBlock_end (s : HandlerState) (ending : HandlerEnd) :
    (s.finallyBlock allReturn ending).2 = ending := by
  unfold finallyBlock
  split <;> rfl

theorem Ahead.finallyBlock {s s' : HandlerState} (h : Ahead s s') (e e' : HandlerEnd) :
    (s.finallyBlock allReturn e).1.length < (s'.finallyBlock allReturn e').1.length := by
  obtain ⟨hcreated, hlen⟩ := h
  unfold HandlerState.finallyBlock
  cases hs : s.created with
  | false =>
      cases s'.created with
      | false => exact hlen
      | true =>
          simp only [allReturn, if_true, List.length_append, Bool.false_eq_true, if_false]
          omega
  | true =>
      rw [hcreated hs]
      simpa [allReturn] using hlen

/-- One more call and it goes on, or `on_audio_frame` raises on the payload. -/
theorem audio_cases (audioop : Audioop) (t : Transport) (s : HandlerState) (text : String) :
    s.audio audioop t allReturn text =
        .next { s with calls := s.calls ++ [.onAudioFrame text] } ∨
      (audioop.onAudioFrame t text = none ∧
        ∃ r, s.audio audioop t allReturn text = .done r ∧ endsBadly r) := by
  unfold HandlerState.audio
  cases hdecode : audioop.onAudioFrame t text with
  | none => exact .inr ⟨rfl, _, rfl, .inr (finallyBlock_end _ _)⟩
  | some pcm => exact .inl rfl

/-- A malformed frame is ignored, or it makes one call more, or it ends the handler. -/
theorem malformed_cases (hbad : t.wellFormed f = false) :
    (t.harmful s.created f = false ∧ onFrame audioop t allReturn s f = .next s) ∨
      (∃ s', onFrame audioop t allReturn s f = .next s' ∧ Ahead s s') ∨
        ∃ r, onFrame audioop t allReturn s f = .done r ∧ endsBadly r := by
  cases onFrame_cases audioop t allReturn s f with
  | ignores hharmful _ _ _ h => exact .inl ⟨hharmful, h⟩
  | raises _ _ h => exact .inr (.inr ⟨_, h, .inl (finallyBlock_end _ _)⟩)
  | starts frame _ _ _ h => exact .inr (.inl ⟨_, h, fun _ => rfl, by simp⟩)
  | audio text _ _ _ _ _ _ h =>
      rcases audio_cases audioop t s text with haudio | ⟨-, r, haudio, hr⟩
      · exact .inr (.inl ⟨_, h.trans haudio, id, by simp⟩)
      · exact .inr (.inr ⟨r, h.trans haudio, hr⟩)
  | stops hok _ _ _ => simp [hbad] at hok

/-- A well-formed audio event makes its call. -/
theorem audio_of_valid {text : String} (h : Base64.valid text.toList = true) (s : HandlerState) :
    s.audio audioop t allReturn text =
      .next { s with calls := s.calls ++ [.onAudioFrame text] } := by
  rcases audio_cases audioop t s text with haudio | ⟨hdecode, -⟩
  · exact haudio
  · have hsome := audioop.onAudioFrame_isSome t text
    rw [hdecode, Base64.decode_isSome_of_valid h] at hsome
    cases hsome

/-- On a well-formed frame the loop goes on, or is left by a stop event. -/
theorem wellFormed_cases (audioop : Audioop) (s : HandlerState)
    (hok : t.wellFormed f = true) :
    t.harmful s.created f = false ∧
      ((∃ s', onFrame audioop t allReturn s f = .next s') ∨
        t.isStop f = true ∧
          ∃ r, onFrame audioop t allReturn s f = .done r ∧ ¬ endsBadly r) := by
  cases onFrame_cases audioop t allReturn s f with
  | ignores hharmful _ _ _ hs => exact ⟨hharmful, .inl ⟨s, hs⟩⟩
  | raises hbad _ _ => simp [hok] at hbad
  | starts frame hharmful _ _ hs => exact ⟨by simp [hharmful, hok], .inl ⟨_, hs⟩⟩
  | audio text _ hvalid hharmful _ _ _ hs =>
      rw [audio_of_valid (hvalid.symm.trans hok)] at hs
      exact ⟨by simp [hharmful, hok], .inl ⟨_, hs⟩⟩
  | stops _ hharmful hstop hs =>
      exact ⟨hharmful, .inr ⟨hstop, _, hs, by simp [endsBadly, finallyBlock_end]⟩⟩

/-- On a well-formed frame the handler that is ahead stays ahead. -/
theorem wellFormed_ahead {s' : HandlerState} (hok : t.wellFormed f = true) (h : Ahead s s') :
    (∃ r r', onFrame audioop t allReturn s f = .next r ∧
        onFrame audioop t allReturn s' f = .next r' ∧ Ahead r r') ∨
      ∃ r r', onFrame audioop t allReturn s f = .done r ∧
        onFrame audioop t allReturn s' f = .done r' ∧ r.1.length < r'.1.length := by
  obtain ⟨hcreated, hlen⟩ := h
  cases onFrame_cases audioop t allReturn s f with
  | ignores _ hstart hstop hspeech hs =>
      cases onFrame_cases audioop t allReturn s' f with
      | ignores _ _ _ _ hs' => exact .inl ⟨s, s', hs, hs', hcreated, hlen⟩
      | audio text hcreated' hvalid _ _ _ _ hs' =>
          -- only the one that is ahead has an orchestrator: its lead grows
          rw [audio_of_valid (hvalid.symm.trans hok)] at hs'
          refine .inl ⟨s, _, hs, hs', hcreated, ?_⟩
          simp only [List.length_append]
          omega
      | raises hbad _ _ => simp [hok] at hbad
      | starts _ _ hstart' _ _ => simp [hstart] at hstart'
      | stops _ _ hstop' _ => simp [hstop] at hstop'
  | starts frame _ hstart hstop hs =>
      cases onFrame_cases audioop t allReturn s' f with
      | starts frame' _ _ _ hs' =>
          exact .inl ⟨_, _, hs, hs', fun _ => rfl, by simpa using hlen⟩
      | ignores _ hstart' _ _ _ => simp [hstart] at hstart'
      | raises hbad _ _ => simp [hok] at hbad
      | audio _ _ _ _ hstart' _ _ _ => simp [hstart] at hstart'
      | stops _ _ hstop' _ => simp [hstop] at hstop'
  | audio text hcreatedS hvalid _ hstart hstop hspeech hs =>
      rw [audio_of_valid (hvalid.symm.trans hok)] at hs
      cases onFrame_cases audioop t allReturn s' f with
      | audio text' _ hvalid' _ _ _ _ hs' =>
          rw [audio_of_valid (hvalid'.symm.trans hok)] at hs'
          exact .inl ⟨_, _, hs, hs', hcreated, by simpa using hlen⟩
      | ignores _ _ _ hspeech' _ => simp [hspeech, hcreated hcreatedS] at hspeech'
      | raises hbad _ _ => simp [hok] at hbad
      | starts _ _ hstart' _ _ => simp [hstart] at hstart'
      | stops _ _ hstop' _ => simp [hstop] at hstop'
  | raises hbad _ _ => simp [hok] at hbad
  | stops _ _ hstop hs =>
      cases onFrame_cases audioop t allReturn s' f with
      | stops _ _ _ hs' =>
          exact .inr ⟨_, _, hs, hs', Ahead.finallyBlock ⟨hcreated, hlen⟩ _ _⟩
      | ignores _ _ hstop' _ _ => simp [hstop] at hstop'
      | raises hbad _ _ => simp [hok] at hbad
      | starts _ _ _ hstop' _ => simp [hstop] at hstop'
      | audio _ _ _ _ _ hstop' _ _ => simp [hstop] at hstop'

/-- A harmful frame makes the handler end badly or with more calls. -/
theorem run_of_harmful (audioop : Audioop) {frames : List TextFrame}
    (h : ¬ Harmless t false frames) :
    endsBadly (runHandler audioop t allReturn frames) ∨
      (runHandler audioop t allReturn (frames.filter t.wellFormed)).1.length <
        (runHandler audioop t allReturn frames).1.length := by
  refine Loop.run_filter_rel
    (P := fun (s s' : HandlerState) as => s = s' ∧ ¬ Harmless t s.created as ∨ Ahead s s')
    (Q := fun r r' => endsBadly r' ∨ r.1.length < r'.1.length)
    ?_ ?_ ?_ frames {} {} (.inl ⟨rfl, h⟩)
  · rintro s s' (⟨-, hs⟩ | hahead)
    · -- no frame is left to be harmful
      exact absurd (fun pre f post heq => by simp at heq) hs
    · exact .inr (hahead.finallyBlock _ _)
  · rintro s s' f as hbad (⟨rfl, hs⟩ | hahead)
    · -- the first harmful frame parts the two handlers
      rcases malformed_cases hbad with ⟨hf, hnext⟩ | ⟨s', hnext, hahead⟩ | ⟨r, hdone, hr⟩
      · refine .inl ⟨s, hnext, .inl ⟨rfl, fun hrest => hs ?_⟩⟩
        obtain ⟨hstop, hcreated⟩ := onFrame_next hnext
        exact harmless_cons.mpr ⟨hf, fun _ => hcreated ▸ hrest⟩
      · exact .inl ⟨s', hnext, .inr hahead⟩
      · exact .inr ⟨r, hdone, fun _ => .inl hr⟩
    · rcases malformed_cases hbad with ⟨-, hnext⟩ | ⟨r, hnext, hmore⟩ | ⟨r, hdone, hr⟩
      · exact .inl ⟨s', hnext, .inr hahead⟩
      · exact .inl ⟨r, hnext, .inr ⟨fun hc => hmore.1 (hahead.1 hc), hahead.2.trans hmore.2⟩⟩
      · exact .inr ⟨r, hdone, fun _ => .inl hr⟩
  · rintro s s' f as hok (⟨rfl, hs⟩ | hahead)
    · obtain ⟨hf, ⟨s', hnext⟩ | ⟨hstop, -⟩⟩ := wellFormed_cases audioop s hok
      · refine .inl ⟨s', s', hnext, hnext, .inl ⟨rfl, fun hrest => hs ?_⟩⟩
        obtain ⟨-, hcreated⟩ := onFrame_next hnext
        exact harmless_cons.mpr ⟨hf, fun _ => hcreated ▸ hrest⟩
      · -- nothing after a stop frame is read
        refine absurd (harmless_cons.mpr ⟨hf, fun hgo => ?_⟩) hs
        rw [hstop] at hgo
        cases hgo
    · rcases wellFormed_ahead hok hahead with ⟨r, r', hr, hr', hmore⟩ | ⟨r, r', hr, hr', hlen⟩
      · exact .inl ⟨r, r', hr, hr', .inr hmore⟩
      · exact .inr ⟨r', r, hr, hr', .inr hlen⟩

/-- Without malformed frames the handler does not end badly. -/
theorem run_wellFormed {frames : List TextFrame} (h : ∀ f ∈ frames, t.wellFormed f = true) :
    ¬ endsBadly (runHandler audioop t allReturn frames) := by
  refine Loop.run_all (P := fun r => ¬ endsBadly r) (fun s => ?_) ?_ frames _ h
  · simp [endsBadly, finallyBlock_end]
  · intro s f r hok hdone
    obtain ⟨-, ⟨s', hnext⟩ | ⟨-, r', hdone', hr'⟩⟩ :=
      wellFormed_cases audioop s hok
    · cases hnext.symm.trans hdone
    · obtain rfl := Loop.done.inj (hdone'.symm.trans hdone)
      exact hr'

end HandlerState

open HandlerState

/-- **Malformed frames.** Deleting the malformed frames of a connection changes neither
the calls on the orchestrator nor the end of the handler, whatever the calls come to, if
and only if none of them that is harmful comes before the first stop frame. -/
theorem malformed_ignored_iff (audioop : Audioop) (t : Transport) (frames : List TextFrame) :
    (∀ env, runHandler audioop t env frames =
      runHandler audioop t env (frames.filter t.wellFormed)) ↔
    ∀ pre f post, frames = pre ++ f :: post → pre.any t.isStop = false →
      t.harmful (pre.any t.isStart) f = false := by
  constructor
  · intro hsame
    by_contra hno
    have hsame := hsame allReturn
    rcases run_of_harmful audioop hno with hbad | hlen
    · rw [hsame] at hbad
      exact run_wellFormed (fun f hf => (List.mem_filter.mp hf).2) hbad
    · rw [hsame] at hlen
      exact absurd hlen (Nat.lt_irrefl _)
  · intro h env
    exact (run_of_harmless h).symm

/-- A frame that is no object drops a live call: what is spoken after it is not heard. -/
theorem array_frame_ends_call :
    ∃ frames, runHandler .g711 .twilio allReturn frames =
        ([.start ⟨"MZ1", "CA1", "unknown"⟩, .stop], .raised) ∧
      runHandler .g711 .twilio allReturn (frames.filter (Transport.wellFormed .twilio)) =
        ([.start ⟨"MZ1", "CA1", "unknown"⟩, .onAudioFrame "/w==", .stop], .returned) := by
  refine ⟨[.json (.dict [("event", .str "start"), ("start", .dict [("streamSid", .str "MZ1"),
      ("customParameters", .dict [("callSid", .str "CA1")])])]),
    .json (.list []),
    .json (.dict [("event", .str "media"), ("media", .dict [("payload", .str "/w==")])]),
    .json (.dict [("event", .str "stop")])], ?_, ?_⟩
  · decide +kernel
  · decide +kernel

end VoiceAgent
