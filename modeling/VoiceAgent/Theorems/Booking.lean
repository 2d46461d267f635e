import VoiceAgent.Model.BookSlot
import VoiceAgent.Theorems.Availability

/-!
# Booking a slot

The two tools share no code: one writes a start to the minute and appends `+07:00`, the
other reads any ISO 8601 string and does not look at the schedule. They agree on the
strings that are no timestamps and on those whose instant is the start of a slot.
-/

namespace VoiceAgent

open Lib.Calendar

/-- The instant that a string is read as; a string without an offset is no instant. -/
def Denotes (s : String) (instant : Int) : Prop :=
  (DateTime.fromIsoformat s).bind DateTime.instant = some instant

/-- The answer of `check_availability` lists the slot. -/
def Lists (answer : PyVal) (slot : String) : Prop :=
  ∃ items, answer.get "slots" = .ok (some (.list items)) ∧ .str slot ∈ items

/-- The slot is returned for the date and the duration. -/
def Offered (d : Date) (duration : Int) (slot : String) : Prop :=
  ∃ answer, checkAvailability ⟨d.isoformat, d.isoformat, some duration⟩ = .ok answer ∧
    Lists answer slot

/-- The instant of a slot that is returned for its date and the duration. -/
def OfferedAt (duration instant : Int) : Prop :=
  ∃ d slot, Offered d duration slot ∧ Denotes slot instant

def Confirmed (answer : PyVal) : Prop := answer.get "status" = .ok (some (.str "confirmed"))

/-- What a booking should be answered with. -/
structure BookingAgrees (hex : String) (args : BookingArgs) : Prop where
  confirmed_iff : Confirmed (bookSlot hex args) ↔
    ∃ instant, Denotes args.startsAt instant ∧ OfferedAt args.durationMinutes instant
  echo : Confirmed (bookSlot hex args) → ∃ echo instant,
    (bookSlot hex args).get "starts_at" = .ok (some (.str echo)) ∧
    Denotes args.startsAt instant ∧ Denotes echo instant

/-! ## The schedule as instants -/

/-- The microseconds of a minute. -/
def minuteMicros : Int := 60 * secondMicros

/-- The instant on the clock of the schedule, seven hours ahead of UTC. -/
def localMicros (instant : Int) : Int := instant + 7 * 60 * minuteMicros

/-- The number of the date that the clock of the schedule shows. -/
def localDay (instant : Int) : Int := localMicros instant / dayMicros

/-- The microseconds since midnight that it shows. -/
def localClock (instant : Int) : Int := localMicros instant % dayMicros

/-- The schedule: a day from Monday to Friday that is not the last date, at 9, 11, 14 or
16 o'clock, and over by 18:00. -/
structure OnSchedule (instant duration : Int) : Prop where
  date : 1 ≤ localDay instant ∧ localDay instant < Date.max.ordinal
  weekday : (localDay instant + 6) % 7 < 5
  time : localClock instant ∈ [9, 11, 14, 16].map fun hour => hour * 60 * minuteMicros
  closes : localClock instant + duration * minuteMicros ≤ 18 * 60 * minuteMicros

/-- The start of a slot in microseconds of UTC. -/
def slotInstant (d : Date) (t : TimeOfDay) : Int :=
  d.ordinal * dayMicros + t.minutes * minuteMicros - 7 * 60 * minuteMicros

/-- `+07:00` -/
def slotOffset : Offset := ⟨7 * 60 * minuteMicros, by decide⟩

theorem parseIsoformatTime_slot {t : TimeOfDay} (ht : t ∈ slotTimes) :
    parseIsoformatTime (pad 2 t.hour ++ ':' :: (pad 2 t.minute ++ "+07:00".toList)) =
      some (⟨[t.hour, t.minute], 0, []⟩, some slotOffset.micros) := by
  obtain ⟨hhour, hminute⟩ := hour_minute_lt ht
  have hclock := @parseClock_minutes t.hour t.minute (by omega) (by omega)
  have hzone := @parseClock_minutes 7 0 (by omega) (by omega)
  have hchars : pad 2 t.hour ++ ':' :: (pad 2 t.minute ++ "+07:00".toList) =
      (pad 2 t.hour ++ ':' :: pad 2 t.minute) ++ '+' :: (pad 2 7 ++ ':' :: pad 2 0) := by
    rw [List.append_assoc, List.cons_append]
    rfl
  rw [hchars]
  exact parseIsoformatTime_zone (isClockChar_minutes t.hour t.minute) hclock rfl
    (fun h => absurd h (by decide)) hzone rfl

/-- The string of a slot is read as its start. -/
theorem slotString_denotes (d : Date) {t : TimeOfDay} (ht : t ∈ slotTimes) :
    Denotes (slotString d t) (slotInstant d t) := by
  obtain ⟨hhour, hminute⟩ := hour_minute_lt ht
  let time : Time := ⟨t.hour, t.minute, 0, 0, hhour, hminute, by decide, by decide⟩
  have hstart := @DateTime.ofParts_eq d time (some slotOffset) ⟨[t.hour, t.minute], 0, []⟩
    time.ofHmsf_self
  unfold Denotes slotString
  rw [DateTime.fromIsoformat_chars d 'T' (parseIsoformatTime_slot ht)]
  rw [Option.map_some] at hstart
  rw [hstart, Option.bind_some]
  show some (_ - _) = some _
  have hmicros : ((t.hour * 60 + t.minute) * 60 + 0) * secondMicros + 0 =
      t.minutes * (60 * secondMicros) := by
    rw [Nat.add_zero, Nat.add_zero, Nat.mul_assoc]
    rfl
  unfold slotInstant Time.micros minuteMicros
  rw [hmicros, Int.natCast_add, Int.natCast_mul, Int.natCast_mul, Int.natCast_mul]
  rfl

/-! ## What is offered -/

section

variable {d : Date} {t : TimeOfDay} {duration instant : Int} {slot : String}

theorem checkAvailability_day (hmax : d ≠ Date.max) :
    checkAvailability ⟨d.isoformat, d.isoformat, some duration⟩ =
      .ok (.dict [("duration_minutes", .int duration),
        ("slots", .list ((fakeSlots d duration).map .str))]) := by
  rw [checkAvailability_window (le_refl d) (Nat.le_add_right _ _)]
  cases hnext : d.addDay with
  | none => exact absurd (Date.addDay_eq_none_iff.mp hnext) hmax
  | some e =>
      have hordinal := Date.ordinal_addDay hnext
      have hdone : ¬ e ≤ d := by
        rw [← Date.ordinal_le_iff]
        omega
      rw [slotLoop_next (le_refl d) hnext, slotLoop_done hdone]
      rfl

theorem lists_iff {slots : List String} :
    Lists (.dict [("duration_minutes", .int duration), ("slots", .list (slots.map .str))]) slot ↔
      slot ∈ slots := by
  constructor
  · rintro ⟨items, hitems, hslot⟩
    cases hitems
    obtain ⟨s, hs, heq⟩ := List.mem_map.mp hslot
    cases heq
    exact hs
  · intro hslot
    exact ⟨_, rfl, List.mem_map_of_mem hslot⟩

/-- The last date raises, so it has no slots. -/
theorem offered_iff : Offered d duration slot ↔ d ≠ Date.max ∧ slot ∈ fakeSlots d duration := by
  constructor
  · rintro ⟨answer, hanswer, hslot⟩
    have hmax : d ≠ Date.max := by
      rintro rfl
      rw [checkAvailability_max (Nat.le_add_right _ _)] at hanswer
      cases hanswer
    rw [checkAvailability_day hmax] at hanswer
    cases hanswer
    exact ⟨hmax, lists_iff.mp hslot⟩
  · rintro ⟨hmax, hslot⟩
    exact ⟨_, checkAvailability_day hmax, lists_iff.mpr hslot⟩

theorem mem_fakeSlots : slot ∈ fakeSlots d duration ↔
    ∃ t, (d, t) ∈ daySlots duration d ∧ slotString d t = slot := by
  rw [fakeSlots_eq, List.mem_map]
  constructor
  · rintro ⟨⟨e, t⟩, hmem, heq⟩
    obtain ⟨rfl, -⟩ := mem_daySlots.mp hmem
    exact ⟨t, hmem, heq⟩
  · rintro ⟨t, hmem, heq⟩
    exact ⟨(d, t), hmem, heq⟩

theorem offeredAt_iff_slot : OfferedAt duration instant ↔
    ∃ d t, d ≠ Date.max ∧ (d, t) ∈ daySlots duration d ∧ slotInstant d t = instant := by
  constructor
  · rintro ⟨d, slot, hoffered, hinstant⟩
    obtain ⟨hmax, hslot⟩ := offered_iff.mp hoffered
    obtain ⟨t, ht, rfl⟩ := mem_fakeSlots.mp hslot
    have hstart := slotString_denotes d (mem_daySlots.mp ht).2.2.1
    exact ⟨d, t, hmax, ht, Option.some.inj (hstart.symm.trans hinstant)⟩
  · rintro ⟨d, t, hmax, ht, rfl⟩
    have hoffered := offered_iff.mpr ⟨hmax, mem_fakeSlots.mpr ⟨t, ht, rfl⟩⟩
    exact ⟨d, _, hoffered, slotString_denotes d (mem_daySlots.mp ht).2.2.1⟩

end

/-! ## The clock of the schedule -/

theorem localMicros_slotInstant (d : Date) (t : TimeOfDay) :
    localMicros (slotInstant d t) = t.minutes * minuteMicros + d.ordinal * dayMicros := by
  unfold localMicros slotInstant
  omega

theorem clock_mem {t : TimeOfDay} (ht : t ∈ slotTimes) :
    0 ≤ t.minutes * minuteMicros ∧ t.minutes * minuteMicros < dayMicros := by
  have hminutes := minutes_lt ht
  unfold minuteMicros dayMicros secondMicros
  omega

theorem localDay_slotInstant (d : Date) {t : TimeOfDay} (ht : t ∈ slotTimes) :
    localDay (slotInstant d t) = d.ordinal := by
  obtain ⟨hzero, hlt⟩ := clock_mem ht
  have hday : (dayMicros : Int) ≠ 0 := by decide
  rw [localDay, localMicros_slotInstant, Int.add_mul_ediv_right _ _ hday,
    Int.ediv_eq_zero_of_lt hzero hlt, Int.zero_add]

theorem localClock_slotInstant (d : Date) {t : TimeOfDay} (ht : t ∈ slotTimes) :
    localClock (slotInstant d t) = t.minutes * minuteMicros := by
  obtain ⟨hzero, hlt⟩ := clock_mem ht
  rw [localClock, localMicros_slotInstant, Int.add_mul_emod_self_right,
    Int.emod_eq_of_lt hzero hlt]

/-- The start of a slot from what the clock shows. -/
theorem slotInstant_eq {d : Date} {t : TimeOfDay} {instant : Int}
    (hday : localDay instant = d.ordinal) (hclock : localClock instant = t.minutes * minuteMicros) :
    slotInstant d t = instant := by
  have hmicros := Int.mul_ediv_add_emod (localMicros instant) dayMicros
  unfold localDay at hday
  unfold localClock at hclock
  rw [hday, hclock, Int.mul_comm] at hmicros
  unfold slotInstant
  rw [hmicros, localMicros]
  omega

/-- The clock at the start of a slot. -/
theorem slotClock_iff {clock : Int} :
    clock ∈ ([9, 11, 14, 16].map fun hour => hour * 60 * minuteMicros) ↔
      ∃ t ∈ slotTimes, t.minutes * minuteMicros = clock := by
  have htimes : ([9, 11, 14, 16].map fun hour => hour * 60 * minuteMicros) =
      slotTimes.map fun t => t.minutes * minuteMicros := rfl
  rw [htimes, List.mem_map]

/-- A slot of the duration at the time is over by 18:00. -/
theorem closes_iff (t : TimeOfDay) (duration : Int) :
    t.minutes * minuteMicros + duration * minuteMicros ≤ 18 * 60 * minuteMicros ↔
      t.minutes + duration ≤ 18 * 60 := by
  rw [← Int.add_mul]
  exact Int.mul_le_mul_right (by decide)

/-- The instants of the offered slots are those of the schedule. -/
theorem offeredAt_iff {duration instant : Int} :
    OfferedAt duration instant ↔ OnSchedule instant duration := by
  rw [offeredAt_iff_slot]
  constructor
  · rintro ⟨d, t, hmax, hslot, rfl⟩
    obtain ⟨-, hweekday, ht, hcloses⟩ := mem_daySlots.mp hslot
    have hday := localDay_slotInstant d ht
    have hclock := localClock_slotInstant d ht
    have hlast := Date.ordinal_lt_iff.mpr (lt_of_le_of_ne (Date.le_max d) hmax)
    have hfirst := d.lt_ordinal
    refine ⟨?_, ?_, ?_, ?_⟩
    · rw [hday]
      omega
    · rw [hday]
      unfold Date.weekday at hweekday
      omega
    · rw [hclock]
      exact slotClock_iff.mpr ⟨t, ht, rfl⟩
    · rw [hclock]
      exact (closes_iff t duration).mpr hcloses
  · rintro ⟨⟨hfirst, hlast⟩, hweekday, htime, hcloses⟩
    obtain ⟨t, ht, hclock⟩ := slotClock_iff.mp htime
    obtain ⟨d, hd⟩ := Date.exists_ordinal ((localDay instant).toNat - 1) (by omega)
    have hday : localDay instant = d.ordinal := by omega
    have hmax : d ≠ Date.max := by
      rintro rfl
      omega
    rw [← hclock] at hcloses
    refine ⟨d, t, hmax, mem_daySlots.mpr ⟨rfl, ?_, ht, (closes_iff t duration).mp hcloses⟩,
      slotInstant_eq hday hclock.symm⟩
    unfold Date.weekday
    omega

/-! ## The tool -/

section

variable {hex : String} {args : BookingArgs} {start : DateTime}

theorem bookSlot_error (h : DateTime.fromIsoformat args.startsAt = none) :
    ¬ Confirmed (bookSlot hex args) := by
  unfold bookSlot Confirmed
  rw [h]
  intro hconfirmed
  cases hconfirmed

theorem bookSlot_confirmed (h : DateTime.fromIsoformat args.startsAt = some start) :
    Confirmed (bookSlot hex args) := by
  unfold bookSlot Confirmed
  rw [h]
  rfl

/-- The start that is echoed. -/
theorem bookSlot_echo (h : DateTime.fromIsoformat args.startsAt = some start) :
    (bookSlot hex args).get "starts_at" = .ok (some (.str start.isoformat)) := by
  unfold bookSlot
  rw [h]
  rfl

theorem denotes_iff (h : DateTime.fromIsoformat args.startsAt = some start) {instant : Int} :
    Denotes args.startsAt instant ↔ start.instant = some instant := by
  unfold Denotes
  rw [h]
  rfl

theorem echo_denotes (h : DateTime.fromIsoformat args.startsAt = some start) {instant : Int}
    (hinstant : Denotes args.startsAt instant) : Denotes start.isoformat instant := by
  unfold Denotes
  rw [DateTime.fromIsoformat_reread h]
  exact (denotes_iff h).mp hinstant

end

/-- **Booking.** For every string as the start and every integer as the duration: a
booking is confirmed exactly where the start is an instant of an offered slot, and echoes
that instant, if and only if the string is no timestamp or is one with an offset whose
instant is on the schedule. -/
theorem booking_agrees_iff (hex : String) (args : BookingArgs) :
    BookingAgrees hex args ↔ ∀ start, DateTime.fromIsoformat args.startsAt = some start →
      ∃ instant, start.instant = some instant ∧ OnSchedule instant args.durationMinutes := by
  constructor
  · intro hagrees start hstart
    obtain ⟨instant, hinstant, hoffered⟩ := hagrees.confirmed_iff.mp (bookSlot_confirmed hstart)
    exact ⟨instant, (denotes_iff hstart).mp hinstant, offeredAt_iff.mp hoffered⟩
  · intro hstarts
    cases hstart : DateTime.fromIsoformat args.startsAt with
    | none =>
        have hnot := @bookSlot_error hex args hstart
        refine ⟨iff_of_false hnot ?_, fun hconfirmed => absurd hconfirmed hnot⟩
        rintro ⟨instant, hinstant, -⟩
        unfold Denotes at hinstant
        rw [hstart] at hinstant
        cases hinstant
    | some start =>
        obtain ⟨instant, hinstant, hschedule⟩ := hstarts start hstart
        have hdenotes := (denotes_iff hstart).mpr hinstant
        refine ⟨iff_of_true (bookSlot_confirmed hstart) ?_, fun _ => ?_⟩
        · exact ⟨instant, hdenotes, offeredAt_iff.mpr hschedule⟩
        · exact ⟨_, instant, bookSlot_echo hstart, hdenotes, echo_denotes hstart hdenotes⟩

/-- Three o'clock in the night of a Saturday. -/
theorem saturday_night_confirmed : ¬ BookingAgrees "0123456789abcdef0123456789abcdef"
    ⟨"2026-04-25T03:00:00+07:00", 30, "Test User", "+66812345678", none⟩ := by
  have hread : (DateTime.fromIsoformat "2026-04-25T03:00:00+07:00").bind DateTime.instant =
      some 63912744000000000 := by
    decide +kernel
  obtain ⟨start, hstart, hinstant⟩ := Option.bind_eq_some_iff.mp hread
  intro hagrees
  obtain ⟨instant, hdenotes, hoffered⟩ := hagrees.confirmed_iff.mp (bookSlot_confirmed hstart)
  obtain rfl := Option.some.inj (hread.symm.trans hdenotes)
  have hweekday := (offeredAt_iff.mp hoffered).weekday
  revert hweekday
  decide

end VoiceAgent
