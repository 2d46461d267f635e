import VoiceAgent.Model.Availability
import VoiceAgent.Model.BookSlot
import VoiceAgent.Model.ClaudeAgent

/-!
# The default tools

What the three handlers of `build_default_registry` do with the inputs of a tool use.
Each is modelled on the inputs that its schema types; on any other a handler returns some
JSON or raises.
-/

namespace VoiceAgent

/-! ## Inputs -/

namespace PyVal

/-- `args[key]`, of a dict that has a string there. -/
def strItem (args : PyVal) (key : String) : Option String :=
  match args.get key with
  | .ok (some (.str s)) => some s
  | _ => Option.none

/-- `args[key]`, of a dict that has an integer there. -/
def intItem (args : PyVal) (key : String) : Option Int :=
  match args.get key with
  | .ok (some (.int n)) => some n
  | _ => Option.none

/-- The dict has no such key. -/
def lacks (args : PyVal) (key : String) : Bool :=
  match args.get key with
  | .ok Option.none => true
  | _ => false

end PyVal

/-- An input of the schema of `check_availability`. -/
def AvailabilityArgs.ofInput (args : PyVal) : Option AvailabilityArgs := do
  let fromDate ← args.strItem "from_date"
  let toDate ← args.strItem "to_date"
  if args.lacks "duration_minutes" then return { fromDate, toDate }
  else
    let duration ← args.intItem "duration_minutes"
    return { fromDate, toDate, durationMinutes := some duration }

/-- An input of the schema of `book_slot`. -/
def BookingArgs.ofInput (args : PyVal) : Option BookingArgs := do
  let startsAt ← args.strItem "starts_at"
  let durationMinutes ← args.intItem "duration_minutes"
  let customerName ← args.strItem "customer_name"
  let customerPhone ← args.strItem "customer_phone"
  if args.lacks "notes" then
    return { startsAt, durationMinutes, customerName, customerPhone }
  else
    let notes ← args.strItem "notes"
    return { startsAt, durationMinutes, customerName, customerPhone, notes := some notes }

/-- The input of `send_confirmation`, as its schema types it. -/
structure ConfirmationArgs where
  toPhone : String
  message : String

def ConfirmationArgs.ofInput (args : PyVal) : Option ConfirmationArgs := do
  let toPhone ← args.strItem "to_phone"
  let message ← args.strItem "message"
  return { toPhone, message }

/-! ## What the handlers do -/

/-- `send_confirmation`; `sendSync` is what `_send_sync` comes to, the message's sid or
the text of what it raises. -/
def sendConfirmation (twilioConfigured : Bool) (sendSync : Except String String)
    (args : ConfirmationArgs) : HandlerOutcome :=
  if !twilioConfigured then
    .returns (.dict [("status", .str "skipped"), ("reason", .str "twilio_not_configured"),
      ("to", .str args.toPhone)])
  else
    match sendSync with
    | .ok sid =>
        .returns (.dict [("status", .str "sent"), ("sid", .str sid), ("to", .str args.toPhone)])
    | .error message => .raises message

/-- What a handler returned is JSON. -/
def HandlerOutcome.isJson : HandlerOutcome → Bool
  | .returns output => output.toJson?.isSome
  | .raises _ => true

/-- What awaiting the handler of a tool use can come to. -/
inductive DefaultHandler (twilioConfigured : Bool) : ToolUse → HandlerOutcome → Prop
  | availability {id : String} {input : Option PyVal} {args : AvailabilityArgs} {output : PyVal}
      (hargs : AvailabilityArgs.ofInput (input.getD .emptyDict) = some args)
      (hrun : checkAvailability args = .ok output) :
      DefaultHandler twilioConfigured ⟨id, "check_availability", input⟩ (.returns output)
  | availabilityRaises {id : String} {input : Option PyVal} {args : AvailabilityArgs}
      {e : ToolErr} (message : String)
      (hargs : AvailabilityArgs.ofInput (input.getD .emptyDict) = some args)
      (hrun : checkAvailability args = .error e) :
      DefaultHandler twilioConfigured ⟨id, "check_availability", input⟩ (.raises message)
  | booking {id : String} {input : Option PyVal} {args : BookingArgs} (hex : String)
      (hargs : BookingArgs.ofInput (input.getD .emptyDict) = some args) :
      DefaultHandler twilioConfigured ⟨id, "book_slot", input⟩ (.returns (bookSlot hex args))
  | confirmation {id : String} {input : Option PyVal} {args : ConfirmationArgs}
      (sendSync : Except String String)
      (hargs : ConfirmationArgs.ofInput (input.getD .emptyDict) = some args) :
      DefaultHandler twilioConfigured ⟨id, "send_confirmation_sms", input⟩
        (sendConfirmation twilioConfigured sendSync args)
  /-- an input that is not of the schema, or a name without a handler -/
  | other {use : ToolUse} {handler : HandlerOutcome}
      (havailability : use.name = "check_availability" →
        AvailabilityArgs.ofInput (use.input.getD .emptyDict) = none)
      (hbooking : use.name = "book_slot" →
        BookingArgs.ofInput (use.input.getD .emptyDict) = none)
      (hconfirmation : use.name = "send_confirmation_sms" →
        ConfirmationArgs.ofInput (use.input.getD .emptyDict) = none)
      (hjson : handler.isJson = true) :
      DefaultHandler twilioConfigured use handler

end VoiceAgent
