import VoiceAgent.Model.Deepgram

/-!
# The steps of a stream from Deepgram
-/

namespace VoiceAgent

namespace DeepgramStream

variable {σ τ : DeepgramStream}

inductive Step (σ : DeepgramStream) : DeepgramAct → DeepgramStream → Prop
  | skips {raw : RawMessage} (hread : σ.reading = true) (hraw : raw.read = some none) :
      Step σ (.message raw) σ
  | puts {raw : RawMessage} {item : String × Bool} (hread : σ.reading = true)
      (hraw : raw.read = some (some item)) : Step σ (.message raw) (σ.put item)
  | readerRaises {raw : RawMessage} (hread : σ.reading = true) (hraw : raw.read = none) :
      Step σ (.message raw) σ.finish
  | closes (hread : σ.reading = true) : Step σ .remoteClose σ.finish
  | nextEnds (hpc : σ.pc = .yielded) (hclosed : σ.closed = true) :
      Step σ .next { σ with pc := .ended }
  | nextGets (hpc : σ.pc = .yielded) (hopen : σ.closed = false) : Step σ .next σ.get
  | timesOut {woken : Bool} (hpc : σ.pc = .getting woken false) :
      Step σ .timeout { σ with pc := .getting woken true }
  | timeoutEnds {woken : Bool} (hpc : σ.pc = .getting woken true)
      (hclosed : σ.closed = true) : Step σ .resume { σ with pc := .ended }
  | timeoutGets {woken : Bool} (hpc : σ.pc = .getting woken true)
      (hopen : σ.closed = false) : Step σ .resume σ.get
  | resumes (hpc : σ.pc = .getting true false) : Step σ .resume σ.get

theorem step_cases {a : DeepgramAct} (h : σ.step a = some τ) : σ.Step a τ := by
  cases a with
  | message raw =>
      simp only [step, Option.ite_none_right_eq_some] at h
      obtain ⟨hread, h⟩ := h
      split at h
      · obtain rfl := Option.some.inj h
        exact .readerRaises hread ‹_›
      · obtain rfl := Option.some.inj h
        exact .skips hread ‹_›
      · obtain rfl := Option.some.inj h
        exact .puts hread ‹_›
  | remoteClose =>
      simp only [step, Option.ite_none_right_eq_some] at h
      obtain ⟨hread, h⟩ := h
      obtain rfl := Option.some.inj h
      exact .closes hread
  | next =>
      simp only [step] at h
      split at h
      · rename_i hpc
        obtain rfl := Option.some.inj h
        cases hclosed : σ.closed with
        | true =>
            rw [loop, if_pos hclosed]
            exact .nextEnds hpc hclosed
        | false =>
            rw [loop, if_neg (by simp [hclosed])]
            exact .nextGets hpc hclosed
      · cases h
  | timeout =>
      simp only [step] at h
      split at h
      · rename_i hpc
        obtain rfl := Option.some.inj h
        exact .timesOut hpc
      · cases h
  | resume =>
      simp only [step] at h
      split at h
      · rename_i hpc
        obtain rfl := Option.some.inj h
        cases hclosed : σ.closed with
        | true =>
            rw [onTimeout, if_pos hclosed]
            exact .timeoutEnds hpc hclosed
        | false =>
            rw [onTimeout, loop, if_neg (by simp [hclosed]), if_neg (by simp [hclosed])]
            exact .timeoutGets hpc hclosed
      · rename_i hpc
        obtain rfl := Option.some.inj h
        exact .resumes hpc
      · cases h

end DeepgramStream

end VoiceAgent
