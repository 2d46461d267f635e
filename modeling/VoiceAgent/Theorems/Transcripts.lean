import VoiceAgent.Logic.DeepgramSteps

/-!
# Transcripts at the end of the stream

What `_reader` enqueues is yielded in order and at most once. Whether all of it is
depends on what is still queued when the reader ends: the loop of `transcripts()`
asks whether the stream is closed before it looks at the queue.
-/

namespace VoiceAgent

open Lib Lib.TSys

namespace DeepgramStream

variable {σ τ : DeepgramStream}

/-! ## The queue -/

/-- Every enqueued transcript has been yielded or is queued, the older ones first. -/
structure Accounted (σ : DeepgramStream) : Prop where
  items : σ.output ++ σ.queue = σ.enqueued
  reader : σ.reading = !σ.closed
  ended : σ.pc = .ended → σ.closed = true

theorem get_nil (hq : σ.queue = []) : σ.get = { σ with pc := .getting false false } := by
  simp [get, hq]

theorem get_cons {item : String × Bool} {rest : List (String × Bool)}
    (hq : σ.queue = item :: rest) :
    σ.get = { σ with queue := rest, output := σ.output ++ [item], pc := .yielded } := by
  simp [get, hq]

theorem Accounted.get (hσ : σ.Accounted) : σ.get.Accounted := by
  rcases hq : σ.queue with _ | ⟨item, rest⟩
  · rw [get_nil hq]
    exact ⟨hσ.items, hσ.reader, nofun⟩
  · rw [get_cons hq]
    refine ⟨?_, hσ.reader, nofun⟩
    have := hσ.items
    simpa [hq] using this

theorem Accounted.put (hσ : σ.Accounted) (item : String × Bool) : (σ.put item).Accounted := by
  refine ⟨?_, hσ.reader, ?_⟩
  · show σ.output ++ (σ.queue ++ [item]) = σ.enqueued ++ [item]
    rw [← List.append_assoc, hσ.items]
  · intro hended
    apply hσ.ended
    simp only [DeepgramStream.put] at hended
    split at hended
    · cases hended
    · exact hended

theorem accounted_step {a : DeepgramAct} (hσ : σ.Accounted) (h : σ.Step a τ) :
    τ.Accounted := by
  cases h with
  | skips _ _ => exact hσ
  | puts _ _ => exact hσ.put _
  | readerRaises _ _ => exact ⟨hσ.items, rfl, fun _ => rfl⟩
  | closes _ => exact ⟨hσ.items, rfl, fun _ => rfl⟩
  | nextEnds _ hclosed => exact ⟨hσ.items, hσ.reader, fun _ => hclosed⟩
  | nextGets _ _ => exact hσ.get
  | timesOut _ => exact ⟨hσ.items, hσ.reader, nofun⟩
  | timeoutEnds _ hclosed => exact ⟨hσ.items, hσ.reader, fun _ => hclosed⟩
  | timeoutGets _ _ => exact hσ.get
  | resumes _ => exact hσ.get

theorem accounted_inductive : deepgramSys.Inductive Accounted where
  init _ h := by
    subst h
    exact ⟨rfl, rfl, nofun⟩
  step _ _ _ hσ h := accounted_step hσ (step_cases h)

/-! ## The end of the stream -/

/-- How many transcripts the consumer still takes once the reader has ended: the one
it has been woken for. -/
def owed (σ : DeepgramStream) : Nat :=
  match σ.pc with
  | .getting true false => 1
  | _ => 0

/-- In the step the reader ends, or the timeout takes back the consumer's wake-up
after the reader's end, while more is queued than the consumer still takes. -/
def cutsOff (σ : DeepgramStream) : DeepgramAct → Bool
  | .message raw => raw.read.isNone && decide (σ.owed < σ.queue.length)
  | .remoteClose => decide (σ.owed < σ.queue.length)
  | .timeout => σ.closed && !σ.queue.isEmpty
  | _ => false

/-- Nothing queued will be left over. -/
def Complete (σ : DeepgramStream) : Prop :=
  σ.Accounted ∧ (σ.closed = true → σ.queue.length ≤ σ.owed)

/-- Something queued will be left over. -/
def CutOff (σ : DeepgramStream) : Prop :=
  σ.Accounted ∧ σ.closed = true ∧ σ.owed < σ.queue.length

theorem owed_le (σ : DeepgramStream) : σ.owed ≤ 1 := by
  unfold owed
  split <;> omega

/-- A consumer whose timeout has expired takes nothing more. -/
theorem owed_timedOut (σ : DeepgramStream) (woken : Bool) :
    DeepgramStream.owed { σ with pc := .getting woken true } = 0 := by
  cases woken <;> rfl

/-- One item less is queued after `get`, and nothing more is owed. -/
theorem get_queue (σ : DeepgramStream) : σ.get.queue.length = σ.queue.length - 1 ∧
    σ.get.owed = 0 ∧ σ.get.closed = σ.closed := by
  rcases hq : σ.queue with _ | ⟨item, rest⟩
  · rw [get_nil hq]
    exact ⟨by simp [hq], rfl, rfl⟩
  · rw [get_cons hq]
    exact ⟨by simp, rfl, rfl⟩

theorem Accounted.open_of_reading (hσ : σ.Accounted) (hread : σ.reading = true) :
    σ.closed = false := by
  simpa [hread] using hσ.reader.symm

theorem complete_step {a : DeepgramAct} (hσ : σ.Complete) (hno : σ.cutsOff a = false)
    (h : σ.Step a τ) : τ.Complete := by
  refine ⟨accounted_step hσ.1 h, ?_⟩
  intro hτ
  cases h with
  | skips _ _ => exact hσ.2 hτ
  | puts hread _ =>
      rw [show (σ.put _).closed = σ.closed from rfl, hσ.1.open_of_reading hread] at hτ
      cases hτ
  | readerRaises _ hraw =>
      have hlen : σ.queue.length ≤ σ.owed := by simpa [cutsOff, hraw] using hno
      exact hlen
  | closes _ =>
      have hlen : σ.queue.length ≤ σ.owed := by simpa [cutsOff] using hno
      exact hlen
  | nextEnds hpc hclosed =>
      have := hσ.2 hclosed
      simpa [owed, hpc] using this
  | nextGets _ hopen =>
      rw [(get_queue σ).2.2, hopen] at hτ
      cases hτ
  | timesOut hpc =>
      -- the wake-up is lost, so the queue must be empty
      have hempty : σ.queue = [] := by simpa [cutsOff, show σ.closed = true from hτ] using hno
      simp [hempty]
  | timeoutEnds hpc hclosed =>
      have := hσ.2 hclosed
      simpa [owed, hpc] using this
  | timeoutGets _ hopen =>
      rw [(get_queue σ).2.2, hopen] at hτ
      cases hτ
  | resumes hpc =>
      -- it takes the one item that may be left
      obtain ⟨hlen, howed, hclosed⟩ := get_queue σ
      have := hσ.2 (hclosed ▸ hτ)
      have := owed_le σ
      omega

theorem cutsOff_step {a : DeepgramAct} (hσ : σ.Accounted) (hcut : σ.cutsOff a = true)
    (h : σ.Step a τ) : τ.CutOff := by
  refine ⟨accounted_step hσ h, ?_⟩
  cases h with
  | skips _ hraw => simp [cutsOff, hraw] at hcut
  | puts _ hraw => simp [cutsOff, hraw] at hcut
  | readerRaises _ hraw =>
      have hlen : σ.owed < σ.queue.length := by simpa [cutsOff, hraw] using hcut
      exact ⟨rfl, hlen⟩
  | closes _ =>
      have hlen : σ.owed < σ.queue.length := by simpa [cutsOff] using hcut
      exact ⟨rfl, hlen⟩
  | timesOut hpc =>
      -- the reader has ended, and the timeout leaves the consumer nothing to take
      simp only [cutsOff, Bool.and_eq_true, Bool.not_eq_true', List.isEmpty_eq_false_iff] at hcut
      refine ⟨hcut.1, ?_⟩
      rw [owed_timedOut]
      exact List.length_pos_iff.mpr hcut.2
  | nextEnds _ _ => cases hcut
  | nextGets _ _ => cases hcut
  | timeoutEnds _ _ => cases hcut
  | timeoutGets _ _ => cases hcut
  | resumes _ => cases hcut

theorem cutOff_step {a : DeepgramAct} (hσ : σ.CutOff) (h : σ.Step a τ) : τ.CutOff := by
  obtain ⟨hacc, hclosed, hlen⟩ := hσ
  have hended : σ.reading = false := by simp [hacc.reader, hclosed]
  refine ⟨accounted_step hacc h, ?_⟩
  cases h with
  | skips hread _ => exact ⟨hclosed, hlen⟩
  | puts hread _ => simp [hended] at hread
  | readerRaises hread _ => simp [hended] at hread
  | closes hread => simp [hended] at hread
  | nextEnds hpc _ => exact ⟨hclosed, Nat.zero_lt_of_lt hlen⟩
  | nextGets _ hopen => simp [hclosed] at hopen
  | timesOut hpc =>
      refine ⟨hclosed, ?_⟩
      rw [owed_timedOut]
      exact Nat.zero_lt_of_lt hlen
  | timeoutEnds hpc _ => exact ⟨hclosed, Nat.zero_lt_of_lt hlen⟩
  | timeoutGets _ hopen => simp [hclosed] at hopen
  | resumes hpc =>
      -- the item it was woken for is not the last
      obtain ⟨hget, howed, hcl⟩ := get_queue σ
      have : σ.owed = 1 := by simp [owed, hpc]
      exact ⟨hcl.trans hclosed, by omega⟩

theorem cutOff_taint :
    deepgramSys.Taint (fun _ _ => True) (fun σ a => σ.cutsOff a = true) Complete CutOff where
  clean _ _ _ hσ _ hno h := complete_step hσ (by simpa using hno) (step_cases h)
  taint _ _ _ hσ _ hcut h := cutsOff_step hσ.1 hcut (step_cases h)
  stays _ _ _ hσ _ h := cutOff_step hσ (step_cases h)

theorem Complete.queue_of_ended (hσ : σ.Complete) (hpc : σ.pc = .ended) : σ.queue = [] := by
  have hlen := hσ.2 (hσ.1.ended hpc)
  simpa [owed, hpc] using hlen

theorem CutOff.queue_ne_nil (hσ : σ.CutOff) : σ.queue ≠ [] :=
  List.length_pos_iff.mp (Nat.zero_lt_of_lt hσ.2.2)

end DeepgramStream

open DeepgramStream

/-- **Transcripts at the end of the stream.** In every state of every run the items
yielded, followed by those queued, are the items enqueued. A stream that has ended
has yielded all of them if and only if no step of the run cut it off. -/
theorem transcripts_iff {σ₀ σ : DeepgramStream} {tr : List (DeepgramStream × DeepgramAct)}
    (h0 : deepgramSys.init σ₀) (h : deepgramSys.Run σ₀ tr σ) :
    (∀ ρ ∈ states tr σ, ρ.output ++ ρ.queue = ρ.enqueued) ∧
      (σ.pc = .ended →
        ((σ.queue = [] ∧ σ.output = σ.enqueued) ↔ ∀ p ∈ tr, p.1.cutsOff p.2 = false)) := by
  have hinv {tr τ} (hrun : deepgramSys.Run σ₀ tr τ) : τ.Accounted :=
    accounted_inductive.run h0 hrun
  refine ⟨fun ρ hρ => (accounted_inductive.states h0 h ρ hρ).items, ?_⟩
  intro hpc
  have hclean : σ₀.Complete := ⟨accounted_inductive.init σ₀ h0, by subst h0; simp⟩
  rcases cutOff_taint.run h (fun _ _ => trivial) hclean with ⟨hc, hno⟩ | ⟨ht, p, hp, hcut⟩
  · have hqueue := hc.queue_of_ended hpc
    -- with an empty queue, what was enqueued is what was yielded
    have hitems := hc.1.items
    rw [hqueue, List.append_nil] at hitems
    exact ⟨fun _ p hp => by simpa using hno p hp, fun _ => ⟨hqueue, hitems⟩⟩
  · constructor
    · intro hqueue
      exact absurd hqueue.1 ht.queue_ne_nil
    · intro hno
      rw [hno p hp] at hcut
      cases hcut

/-- A Deepgram result that ends an utterance. -/
def finalResult (text : String) : RawMessage :=
  .text (some (.dict [("type", .str "Results"), ("is_final", .bool true),
    ("channel", .dict [("alternatives", .list [.dict [("transcript", .str text)]])])]))

/-- The caller hangs up while the consumer is still busy with the transcript before. -/
theorem last_final_lost :
    ∃ tr σ, deepgramSys.Run {} tr σ ∧ σ.pc = .ended ∧
      σ.queue = [("Tuesday at two", true)] ∧ σ.output = [("Hello", true)] := by
  let acts : List DeepgramAct :=
    [.next, .message (finalResult "Hello"), .resume, .message (finalResult "Tuesday at two"),
     .remoteClose, .next]
  exact ⟨_, _, TSys.Run.exec acts (by decide), by decide, by decide, by decide⟩

/-- The same words reach a consumer that waits for them. -/
theorem transcripts_iff_waiting :
    ∃ tr σ, deepgramSys.Run {} tr σ ∧ σ.pc = .ended ∧ σ.output = σ.enqueued ∧
      σ.output = [("Hello", true), ("Tuesday at two", true)] := by
  let acts : List DeepgramAct :=
    [.next, .message (finalResult "Hello"), .resume, .next,
     .message (finalResult "Tuesday at two"), .remoteClose, .resume, .next]
  have hrun := TSys.Run.exec (T := deepgramSys) (σ := {}) acts (by decide)
  exact ⟨_, _, hrun, by decide, (((transcripts_iff rfl hrun).2 (by decide)).mpr (by decide)).2,
    by decide⟩

end VoiceAgent
