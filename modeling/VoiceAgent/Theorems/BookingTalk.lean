import VoiceAgent.Model.Server
import VoiceAgent.Theorems.Booking
import VoiceAgent.Theorems.ModelContext

/-!
# Booking what was offered

The default tools as the model meets them: it reads the slots of one answer as JSON,
copies one of them into its next tool use, and reads the booking's answer. All that
crosses is text.
-/

namespace VoiceAgent

open Lib Lib.Calendar

/-! ## The answers as JSON -/

/-- An answer of `check_availability` is an error or a list of strings. -/
theorem availability_shape {args : AvailabilityArgs} {output : PyVal}
    (h : checkAvailability args = .ok output) :
    (∃ message, output = .dict [("error", .str message)]) ∨
    ∃ slots : List String, output = .dict [("duration_minutes",
      .int (args.durationMinutes.getD 30)), ("slots", .list (slots.map .str))] := by
  unfold checkAvailability at h
  cases hfrom : dateFromIsoformat args.fromDate with
  | error e =>
      rw [hfrom] at h
      cases h
  | ok fromDate =>
      cases hto : dateFromIsoformat args.toDate with
      | error e =>
          rw [hfrom, hto] at h
          cases h
      | ok toDate =>
          simp only [hfrom, hto, bind, Except.bind] at h
          split at h
          · cases h
            exact .inl ⟨_, rfl⟩
          · split at h
            · cases h
              exact .inl ⟨_, rfl⟩
            · cases hloop : slotLoop fromDate toDate (args.durationMinutes.getD 30) [] with
              | error e =>
                  rw [hloop] at h
                  cases h
              | ok slots =>
                  rw [hloop] at h
                  cases h
                  exact .inr ⟨slots, rfl⟩

theorem toJsonItems_strs (slots : List String) :
    PyVal.toJsonItems (slots.map .str) = some (slots.map Json.str) := by
  induction slots with
  | nil => rfl
  | cons slot slots ih =>
      rw [List.map_cons, PyVal.toJsonItems, ih]
      rfl

theorem availability_toJson (duration : Int) (slots : List String) :
    PyVal.toJson? (.dict [("duration_minutes", .int duration),
        ("slots", .list (slots.map .str))]) =
      some (.obj [("duration_minutes", .number (.ofInt duration)),
        ("slots", .arr (slots.map .str))]) := by
  simp [PyVal.toJson?, PyVal.toJsonPairs, toJsonItems_strs]

section

variable {twilioConfigured : Bool} {use : ToolUse} {handler : HandlerOutcome}

theorem isJson_bookSlot (hex : String) (args : BookingArgs) :
    (HandlerOutcome.returns (bookSlot hex args)).isJson = true := by
  unfold bookSlot
  split
  · rfl
  · rfl

theorem isJson_sendConfirmation (sendSync : Except String String) (args : ConfirmationArgs) :
    (sendConfirmation twilioConfigured sendSync args).isJson = true := by
  unfold sendConfirmation
  split
  · rfl
  · cases sendSync with
    | ok sid => rfl
    | error message => rfl

/-- The default tools return JSON, so none of them makes a turn fail. -/
theorem DefaultHandler.isJson (h : DefaultHandler twilioConfigured use handler) :
    handler.isJson = true := by
  cases h with
  | availability hargs hrun =>
      rcases availability_shape hrun with ⟨message, rfl⟩ | ⟨slots, rfl⟩
      · rfl
      · rw [HandlerOutcome.isJson, availability_toJson]
        rfl
  | availabilityRaises message hargs hrun => rfl
  | booking hex hargs => exact isJson_bookSlot hex _
  | confirmation sendSync hargs => exact isJson_sendConfirmation sendSync _
  | other havailability hbooking hconfirmation hjson => exact hjson

end

/-! ## The talk -/

namespace DefaultReply

variable {twilioConfigured : Bool}

end DefaultReply

end VoiceAgent
