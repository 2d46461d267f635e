import VoiceAgent.Logic.DeepgramSteps
import VoiceAgent.Logic.Frames
import Mathlib.Data.List.TakeWhile

/-!
# The STT reader as a filter

`RawMessage.transcript` is what a message should put on the queue, and
`RawMessage.breaks` the messages on which the loop body raises, both read off the
message alone. Nothing in the loop but a closed connection is caught, so the reader
is the filter it is meant to be as long as no message breaks it.
-/

namespace VoiceAgent

open Lib Lib.TSys

/-! ## Blank texts -/

theorem dropWhile_reverse_dropWhile_eq_nil {α : Type} (p : α → Bool) (l : List α) :
    (l.dropWhile p).reverse.dropWhile p = [] ↔ l.all p = true := by
  have hnil : ∀ xs : List α, xs.dropWhile p = [] ↔ ∀ x ∈ xs, p x = true := by
    intro xs
    induction xs with
    | nil => simp
    | cons x xs ih => by_cases hx : p x = true <;> simp [hx, ih]
  rw [hnil, List.all_eq_true]
  constructor
  · intro h x hx
    rw [← List.takeWhile_append_dropWhile (p := p) (l := l)] at hx
    rcases List.mem_append.mp hx with hx | hx
    · exact List.mem_takeWhile_imp hx
    · exact h x (List.mem_reverse.mpr hx)
  · intro h x hx
    exact h x ((List.dropWhile_sublist p).subset (List.mem_reverse.mp hx))

theorem strip_eq_empty_iff (s : String) : strip s = "" ↔ blank s = true := by
  rw [strip, ← String.toList_inj, String.toList_ofList, String.toList_empty,
    List.reverse_eq_nil_iff, blank]
  exact dropWhile_reverse_dropWhile_eq_nil pyIsSpace s.toList

/-! ## What a message should do -/

/-- The first alternative of a result, where there is one. -/
def firstAlternative (msg : PyVal) : Option PyVal :=
  match (msg.part "channel").bind fun channel => channel.part "alternatives" with
  | some (.list (alt :: _)) => some alt
  | _ => none

/-- A `Results` message whose first alternative has a non-blank transcript: the
stripped transcript with the message's `is_final`. -/
def RawMessage.transcript : RawMessage → Option (String × Bool)
  | .text (some msg) =>
      if PyVal.isStr (msg.part "type") "Results" then
        match (firstAlternative msg).bind fun alt => alt.part "transcript" with
        | some (.str said) =>
            if blank said then none
            else some (strip said, ((msg.part "is_final").map PyVal.truthy).getD false)
        | _ => none
      else none
  | _ => none

/-- An alternative that is no object, or whose transcript is neither a string nor
false. -/
def breaksAlternative (alt : PyVal) : Bool :=
  !alt.isDict ||
    match alt.part "transcript" with
    | none => false
    | some (.str _) => false
    | some v => v.truthy

/-- A channel that is no object, or has alternatives that are no list with a proper
first one. -/
def breaksChannel (channel : PyVal) : Bool :=
  !channel.isDict ||
    match channel.part "alternatives" with
    | none => false
    | some (.list (alt :: _)) => breaksAlternative alt
    | some _ => true

/-- A text that is no JSON, JSON that is no object, or a result whose channel breaks. -/
def RawMessage.breaks : RawMessage → Bool
  | .bytes => false
  | .text none => true
  | .text (some msg) =>
      !msg.isDict ||
        (PyVal.isStr (msg.part "type") "Results" && (msg.part "channel").any breaksChannel)

/-! ## What the loop body does -/

@[simp] theorem toOption_ok {α : Type} (a : α) :
    (Except.ok a : Except PyErr α).toOption = some a := rfl

@[simp] theorem toOption_error {α : Type} (e : PyErr) :
    (Except.error e : Except PyErr α).toOption = none := rfl

theorem getOr_of_not_dict {v : PyVal} (h : v.isDict = false) (key : String) (other : PyVal) :
    v.getOr key other = .error .attributeError := by
  rw [PyVal.getOr, PyVal.get_of_not_dict h]
  rfl

theorem getD_of_not_dict {v : PyVal} (h : v.isDict = false) (key : String) (default : PyVal) :
    v.getD key default = .error .attributeError := by
  rw [PyVal.getD, PyVal.get_of_not_dict h]
  rfl

/-- The text of the alternative that the loop body takes. -/
def takeText (alt : PyVal) : Option String :=
  (alt.getOr "transcript" (.str "")).toOption.bind PyVal.strip

/-- The text that there should be in an alternative. -/
def textOf (alt : PyVal) : String :=
  match alt.part "transcript" with
  | some (.str text) => strip text
  | _ => ""

theorem strip_empty : strip "" = "" := (strip_eq_empty_iff "").mpr rfl

theorem takeText_eq (alt : PyVal) :
    takeText alt = if breaksAlternative alt then none else some (textOf alt) := by
  rw [takeText, breaksAlternative, textOf]
  cases hdict : alt.isDict with
  | false =>
      rw [getOr_of_not_dict hdict]
      rfl
  | true =>
      rw [PyVal.getOr_of_dict hdict, PyVal.partOr, toOption_ok, Option.bind_some]
      cases hpart : alt.part "transcript" with
      | none => simp [PyVal.strip, strip_empty]
      | some v =>
          cases v with
          | str text =>
              by_cases htext : text = "" <;> simp [PyVal.truthy, PyVal.strip, htext, strip_empty]
          -- what passes for true and is no string has no `strip`
          | _ =>
              simp only []
              split <;> simp_all [PyVal.strip, strip_empty]

/-- The text of the first of some alternatives that the loop body takes. -/
theorem takeText_item0 (alternatives : PyVal) :
    alternatives.item0.bind takeText =
      match alternatives with
      | .list (alt :: _) => takeText alt
      | _ => none := by
  cases alternatives with
  | list items => cases items <;> rfl
  | str s =>
      rw [PyVal.item0]
      cases s.toList with
      | nil => rfl
      | cons c cs => rfl
  | _ => rfl

/-- The text of a channel's first alternative that the loop body takes. -/
theorem takeText_channel (channel : PyVal) :
    ((channel.getD "alternatives" (.list [.emptyDict])).toOption.bind fun alternatives =>
      alternatives.item0.bind takeText) =
    if breaksChannel channel then none
    else some (match channel.part "alternatives" with
      | some (.list (alt :: _)) => textOf alt
      | _ => "") := by
  rw [breaksChannel]
  cases hdict : channel.isDict with
  | false =>
      rw [getD_of_not_dict hdict]
      rfl
  | true =>
      rw [PyVal.getD_of_dict hdict, toOption_ok, Option.bind_some, takeText_item0]
      cases halts : channel.part "alternatives" with
      | none => simp [takeText_eq, breaksAlternative, textOf, PyVal.emptyDict, PyVal.isDict,
          PyVal.part, PyVal.get]
      | some alts =>
          cases alts with
          | list items =>
              cases items with
              | nil => simp
              | cons alt rest => simp [takeText_eq]
          | _ => simp

/-- The text that there should be in a message. -/
def resultText (msg : PyVal) : String := ((firstAlternative msg).map textOf).getD ""

theorem resultText_channel {msg channel : PyVal} (h : msg.part "channel" = some channel) :
    resultText msg = match channel.part "alternatives" with
      | some (.list (alt :: _)) => textOf alt
      | _ => "" := by
  rw [resultText, firstAlternative, h, Option.bind_some]
  split <;> rfl

/-- The text of a result that the loop body takes. -/
theorem takeText_result {msg : PyVal} (hdict : msg.isDict = true) :
    ((msg.getD "channel" .emptyDict).toOption.bind fun channel =>
      (channel.getD "alternatives" (.list [.emptyDict])).toOption.bind fun alternatives =>
        alternatives.item0.bind takeText) =
    if (msg.part "channel").any breaksChannel then none else some (resultText msg) := by
  rw [PyVal.getD_of_dict hdict, toOption_ok, Option.bind_some, takeText_channel]
  cases hchannel : msg.part "channel" with
  | none =>
      rw [resultText, firstAlternative, hchannel]
      simp [breaksChannel, PyVal.emptyDict, PyVal.isDict, PyVal.part, PyVal.get]
  | some channel =>
      rw [resultText_channel hchannel]
      rfl

/-- The transcript of a message is its text, where that is not empty. -/
theorem transcript_eq (msg : PyVal) :
    (RawMessage.text (some msg)).transcript =
      if PyVal.isStr (msg.part "type") "Results" then
        if resultText msg = "" then none
        else some (resultText msg, ((msg.part "is_final").map PyVal.truthy).getD false)
      else none := by
  rw [RawMessage.transcript, resultText]
  congr 1
  cases halt : firstAlternative msg with
  | none => rfl
  | some alt =>
      rw [Option.bind_some, Option.map_some, Option.getD_some, textOf]
      split
      · rename_i said heq
        simp only [strip_eq_empty_iff]
      · rfl

/-- The loop body raises on the messages that break it, and on no other; from the
others it takes the transcript, if there is one. -/
theorem RawMessage.read_eq (raw : RawMessage) :
    raw.read = if raw.breaks then none else some raw.transcript := by
  cases raw with
  | bytes => rfl
  | text json =>
      cases json with
      | none => rfl
      | some msg =>
          rw [transcript_eq, RawMessage.breaks]
          show readMessage msg = _
          cases hdict : msg.isDict with
          | false =>
              rw [readMessage, PyVal.get_of_not_dict hdict]
              rfl
          | true =>
              unfold readMessage
              rw [PyVal.get_of_dict hdict, PyVal.get_of_dict hdict]
              by_cases hkind : PyVal.isStr (msg.part "type") "Results" = true
              · -- the text first, then what is made of it
                have htext := congrArg (fun o => o.bind fun text =>
                  some (if text = "" then none else
                    some (text, ((msg.part "is_final").map PyVal.truthy).getD false)))
                  (takeText_result hdict)
                unfold takeText at htext
                simp only [Option.bind_assoc] at htext
                show (if PyVal.isStr (msg.part "type") "Results" = true then _ else _) = _
                rw [if_pos hkind]
                apply Eq.trans htext
                rw [Bool.not_true, Bool.false_or, hkind, Bool.true_and, if_pos rfl]
                split <;> rfl
              · simp [hkind]

theorem textOf_of_breaks {alt : PyVal} (h : breaksAlternative alt = true) : textOf alt = "" := by
  rw [textOf]
  split
  · rename_i text hpart
    cases hdict : alt.isDict with
    | false =>
        rw [PyVal.part_of_not_dict hdict] at hpart
        cases hpart
    | true => simp [breaksAlternative, hdict, hpart] at h
  · rfl

theorem resultText_of_breaks {msg channel : PyVal} (hchannel : msg.part "channel" = some channel)
    (h : breaksChannel channel = true) : resultText msg = "" := by
  rw [resultText_channel hchannel]
  split
  · rename_i alt rest halts
    cases hdict : channel.isDict with
    | false =>
        rw [PyVal.part_of_not_dict hdict] at halts
        cases halts
    | true => exact textOf_of_breaks (by simpa [breaksChannel, hdict, halts] using h)
  · rfl

/-- There is no transcript in a message that breaks the reader. -/
theorem RawMessage.transcript_of_breaks {raw : RawMessage} (h : raw.breaks = true) :
    raw.transcript = none := by
  cases raw with
  | bytes => rfl
  | text json =>
      cases json with
      | none => rfl
      | some msg =>
          rw [transcript_eq]
          cases hdict : msg.isDict with
          | false => simp [PyVal.part_of_not_dict hdict, PyVal.isStr]
          | true =>
              simp only [RawMessage.breaks, hdict, Bool.not_true, Bool.false_or,
                Bool.and_eq_true, Option.any_eq_true] at h
              obtain ⟨-, channel, hchannel, hbreaks⟩ := h
              rw [resultText_of_breaks hchannel hbreaks]
              simp

/-- What the loop body takes from a message. -/
theorem RawMessage.transcript_of_read {raw : RawMessage} {item : Option (String × Bool)}
    (h : raw.read = some item) : raw.transcript = item := by
  rw [RawMessage.read_eq] at h
  split at h
  · cases h
  · exact Option.some.inj h

/-- A message on which it raises has no transcript. -/
theorem RawMessage.transcript_of_read_none {raw : RawMessage} (h : raw.read = none) :
    raw.transcript = none := by
  rw [RawMessage.read_eq] at h
  split at h
  · exact RawMessage.transcript_of_breaks ‹_›
  · cases h

/-! ## The loop -/

namespace DeepgramStream

/-- The reader takes the messages one after the other, as long as it is in its loop. -/
def deliver (σ : DeepgramStream) (raws : List RawMessage) : DeepgramStream :=
  raws.foldl (fun σ raw => (σ.step (.message raw)).getD σ) σ

variable {σ τ : DeepgramStream}

theorem step_of_breaks (hread : σ.reading = true) {raw : RawMessage} (h : raw.breaks = true) :
    σ.step (.message raw) = some σ.finish := by
  simp only [step, hread, if_true, RawMessage.read_eq, h]

theorem step_of_not_breaks (hread : σ.reading = true) {raw : RawMessage}
    (h : raw.breaks = false) :
    ∃ τ, σ.step (.message raw) = some τ ∧ τ.reading = true ∧
      τ.enqueued = σ.enqueued ++ raw.transcript.toList := by
  simp only [step, hread, if_true, RawMessage.read_eq, h]
  cases raw.transcript with
  | none => exact ⟨σ, rfl, hread, (List.append_nil _).symm⟩
  | some item => exact ⟨σ.put item, rfl, hread, rfl⟩

/-- A reader that has ended takes no message. -/
theorem deliver_of_ended (raws : List RawMessage) :
    ∀ {σ : DeepgramStream}, σ.reading = false → σ.deliver raws = σ := by
  induction raws with
  | nil => exact fun _ => rfl
  | cons raw raws ih =>
      intro σ hread
      have hstep : σ.step (.message raw) = none := by simp [step, hread]
      rw [deliver, List.foldl_cons, hstep]
      exact ih hread

theorem deliver_cons {raw : RawMessage} {τ : DeepgramStream}
    (h : σ.step (.message raw) = some τ) (raws : List RawMessage) :
    σ.deliver (raw :: raws) = τ.deliver raws := by
  rw [deliver, List.foldl_cons, h]
  rfl

/-- Messages that do not break the reader are filtered. -/
theorem deliver_of_not_breaks (raws : List RawMessage) :
    ∀ {σ : DeepgramStream}, σ.reading = true → (∀ raw ∈ raws, raw.breaks = false) →
      (σ.deliver raws).enqueued = σ.enqueued ++ raws.filterMap RawMessage.transcript ∧
        (σ.deliver raws).reading = true := by
  induction raws with
  | nil => exact fun hread _ => ⟨(List.append_nil _).symm, hread⟩
  | cons raw raws ih =>
      intro σ hread hall
      rw [List.forall_mem_cons] at hall
      obtain ⟨τ, hstep, hτ, henqueued⟩ := step_of_not_breaks hread hall.1
      obtain ⟨hrest, hreading⟩ := ih hτ hall.2
      rw [deliver_cons hstep]
      refine ⟨?_, hreading⟩
      rw [hrest, henqueued, List.append_assoc]
      cases htext : raw.transcript <;> simp [htext]

/-- A message that breaks the reader ends it. -/
theorem deliver_of_breaks (raws : List RawMessage) :
    ∀ {σ : DeepgramStream}, σ.reading = true → (∃ raw ∈ raws, raw.breaks = true) →
      (σ.deliver raws).reading = false := by
  induction raws with
  | nil => simp
  | cons raw raws ih =>
      intro σ hread hbreaks
      cases hraw : raw.breaks with
      | true =>
          rw [deliver_cons (step_of_breaks hread hraw), deliver_of_ended raws rfl]
          rfl
      | false =>
          obtain ⟨τ, hstep, hτ, -⟩ := step_of_not_breaks hread hraw
          rw [deliver_cons hstep]
          apply ih hτ
          simpa [hraw] using hbreaks

/-- The messages that the reader took in a run. -/
def messagesOf (tr : List (DeepgramStream × DeepgramAct)) : List RawMessage :=
  tr.filterMap fun p =>
    match p.2 with
    | .message raw => some raw
    | _ => none

/-- Only the reader enqueues. -/
theorem enqueued_get : σ.get.enqueued = σ.enqueued := by
  unfold DeepgramStream.get
  split <;> rfl

/-- A step enqueues the transcript of the message that the reader takes. -/
theorem enqueued_step {a : DeepgramAct} (h : σ.Step a τ) :
    τ.enqueued = σ.enqueued ++ (messagesOf [(σ, a)]).filterMap RawMessage.transcript := by
  have hmessage (raw : RawMessage) :
      (messagesOf [(σ, .message raw)]).filterMap RawMessage.transcript =
        raw.transcript.toList := by
    cases htext : raw.transcript <;> simp [messagesOf, htext]
  have hother : ∀ b : DeepgramAct, messagesOf [(σ, b)] = [] → τ.enqueued = σ.enqueued →
      τ.enqueued = σ.enqueued ++ (messagesOf [(σ, b)]).filterMap RawMessage.transcript := by
    intro b hb heq
    rw [hb, heq, List.filterMap_nil, List.append_nil]
  cases h with
  | @skips raw hread hraw =>
      rw [hmessage, RawMessage.transcript_of_read hraw]
      exact (List.append_nil _).symm
  | @puts raw item hread hraw =>
      rw [hmessage, RawMessage.transcript_of_read hraw]
      rfl
  | @readerRaises raw hread hraw =>
      rw [hmessage, RawMessage.transcript_of_read_none hraw]
      exact (List.append_nil _).symm
  | closes hread => exact hother _ rfl rfl
  | nextEnds hpc hclosed => exact hother _ rfl rfl
  | nextGets hpc hopen => exact hother _ rfl enqueued_get
  | timesOut hpc => exact hother _ rfl rfl
  | timeoutEnds hpc hclosed => exact hother _ rfl rfl
  | timeoutGets hpc hopen => exact hother _ rfl enqueued_get
  | resumes hpc => exact hother _ rfl enqueued_get

/-- Whatever the consumer and the connection do in between, what the reader has enqueued
is what it takes from its messages. -/
theorem enqueued_run {tr : List (DeepgramStream × DeepgramAct)}
    (h : deepgramSys.Run {} tr σ) :
    σ.enqueued = (messagesOf tr).filterMap RawMessage.transcript := by
  induction h with
  | nil => rfl
  | @snoc tr ρ τ a hrun hs ih =>
      have hstep := enqueued_step (step_cases hs)
      rw [hstep, ih, messagesOf, messagesOf, messagesOf, List.filterMap_append,
        List.filterMap_append]

/-- **The STT reader.** For every sequence of messages, the reader is still in its loop
after them and has enqueued exactly the transcripts in them, in order, if and only if
none of them is a text that is no JSON, JSON that is no object, or a result of a wrong
shape. -/
theorem reader_filters_iff (raws : List RawMessage) :
    ((deliver {} raws).enqueued = raws.filterMap RawMessage.transcript ∧
      (deliver {} raws).reading = true) ↔ ∀ raw ∈ raws, raw.breaks = false := by
  constructor
  · rintro ⟨-, hreading⟩ raw hraw
    cases hbreaks : raw.breaks with
    | false => rfl
    | true =>
        rw [deliver_of_breaks raws rfl ⟨raw, hraw, hbreaks⟩] at hreading
        cases hreading
  · exact deliver_of_not_breaks raws rfl

/-- A result without any alternative, then a final transcript. -/
def emptyAlternatives : List RawMessage :=
  [.text (some (.dict [("type", .str "Results"),
      ("channel", .dict [("alternatives", .list [])])])),
    .text (some (.dict [("type", .str "Results"), ("is_final", .bool true),
      ("channel", .dict [("alternatives", .list [.dict [("transcript", .str "Hello")]])])]))]

/-- The reader ends on the first, and never takes the second. -/
theorem empty_alternatives_end_reader :
    ¬ ((deliver {} emptyAlternatives).enqueued =
        emptyAlternatives.filterMap RawMessage.transcript ∧
      (deliver {} emptyAlternatives).reading = true) := by
  rintro ⟨-, hreading⟩
  exact Bool.false_ne_true hreading

end DeepgramStream

end VoiceAgent
