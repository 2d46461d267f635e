import VoiceAgent.Lib.Calendar
import VoiceAgent.Model.PyVal

/-!
# `check_availability`

The tool that lists the open slots of a window of days. Its schema types the input: two
strings and an integer that may be left out.
-/

namespace VoiceAgent

open Lib.Calendar

/-- The input, as the schema types it. -/
structure AvailabilityArgs where
  fromDate : String
  toDate : String
  durationMinutes : Option Int := none

/-- The exceptions that the tool raises. -/
inductive ToolErr where
  | valueError
  | overflowError
  deriving DecidableEq, Repr

/-- `datetime.time`, to the minute. -/
structure TimeOfDay where
  hour : Nat
  minute : Nat
  deriving DecidableEq, Repr

/-- Minutes since midnight. -/
def TimeOfDay.minutes (t : TimeOfDay) : Nat := t.hour * 60 + t.minute

/-- `datetime.combine(d, t).isoformat(timespec="minutes") + "+07:00"` -/
def slotString (d : Date) (t : TimeOfDay) : String :=
  String.ofList (d.isoChars ++ 'T' :: (pad 2 t.hour ++ ':' :: (pad 2 t.minute ++
    "+07:00".toList)))

/-- `times` -/
def slotTimes : List TimeOfDay := [⟨9, 0⟩, ⟨11, 0⟩, ⟨14, 0⟩, ⟨16, 0⟩]

/-- `_fake_slots` -/
def fakeSlots (d : Date) (duration : Int) : List String :=
  if d.weekday ≥ 5 then []
  else
    (slotTimes.filter fun t => t.minutes + duration ≤ 18 * 60).map fun t => slotString d t

/-- The loop over the days; `cur += timedelta(days=1)` raises after the last date. -/
def slotLoop (cur toDate : Date) (duration : Int) (slots : List String) :
    Except ToolErr (List String) :=
  if _ : cur ≤ toDate then
    match _ : cur.addDay with
    | none => .error .overflowError
    | some next => slotLoop next toDate duration (slots ++ fakeSlots cur duration)
  else .ok slots
termination_by toDate.ordinal + 1 - cur.ordinal
decreasing_by
  have hordinal := Date.ordinal_addDay ‹cur.addDay = some next›
  have hcur := Date.ordinal_le_iff.mpr ‹cur ≤ toDate›
  omega

/-- `date.fromisoformat` -/
def dateFromIsoformat (s : String) : Except ToolErr Date :=
  match Date.fromIsoformat s with
  | none => .error .valueError
  | some d => .ok d

/-- `check_availability` -/
def checkAvailability (args : AvailabilityArgs) : Except ToolErr PyVal := do
  let fromDate ← dateFromIsoformat args.fromDate
  let toDate ← dateFromIsoformat args.toDate
  let duration := args.durationMinutes.getD 30
  if toDate < fromDate then
    return .dict [("error", .str "to_date must be on or after from_date")]
  else if (toDate.ordinal : Int) - fromDate.ordinal > 14 then
    return .dict [("error", .str "window cannot exceed 14 days")]
  else
    let slots ← slotLoop fromDate toDate duration []
    return .dict [("duration_minutes", .int duration), ("slots", .list (slots.map .str))]

end VoiceAgent
