import VoiceAgent.Lib.DateTime
import VoiceAgent.Model.PyVal

/-!
# `book_slot`

The tool that reserves a slot. Its schema types the input: strings, an integer and a
string that may be left out. The characters of `uuid.uuid4().hex` are a parameter.
-/

namespace VoiceAgent

open Lib.Calendar

/-- The input, as the schema types it. -/
structure BookingArgs where
  startsAt : String
  durationMinutes : Int
  customerName : String
  customerPhone : String
  notes : Option String := none

/-- `book_slot` -/
def bookSlot (hex : String) (args : BookingArgs) : PyVal :=
  match DateTime.fromIsoformat args.startsAt with
  | none => .dict [("error", .str "starts_at is not a valid ISO 8601 timestamp")]
  | some startsAt =>
    let bookingId := "bk_" ++ String.ofList (hex.toList.take 10)
    .dict [("booking_id", .str bookingId),
      ("status", .str "confirmed"),
      ("starts_at", .str startsAt.isoformat),
      ("duration_minutes", .int args.durationMinutes),
      ("customer_name", .str args.customerName),
      ("customer_phone", .str args.customerPhone),
      ("notes", .str (args.notes.getD ""))]

end VoiceAgent
