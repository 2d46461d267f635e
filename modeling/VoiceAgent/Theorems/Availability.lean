import Mathlib.Data.List.Nodup
import VoiceAgent.Model.Availability

/-!
# The slots of a window

The loop over the days stops when it has passed the last one, and there is no date after
9999-12-31: a window that ends on it raises.
-/

namespace VoiceAgent

open Lib.Calendar

/-- The slots of the window: a day in it, Monday to Friday, at one of the four times, and
over by 18:00. -/
structure Bookable (fromDate toDate : Date) (duration : Int) (d : Date) (t : TimeOfDay) :
    Prop where
  first : fromDate ≤ d
  last : d ≤ toDate
  weekday : d.weekday < 5
  time : t ∈ [TimeOfDay.mk 9 0, ⟨11, 0⟩, ⟨14, 0⟩, ⟨16, 0⟩]
  closes : t.hour * 60 + t.minute + duration ≤ 18 * 60

/-- The start of a slot in minutes. -/
def startMinutes (p : Date × TimeOfDay) : Nat := p.1.ordinal * 1440 + p.2.minutes

/-- The strings of all the bookable slots and of no others, each once and in the order of
their starts. -/
structure ExactSlots (fromDate toDate : Date) (duration : Int) (slots : List String) :
    Prop where
  once : slots.Nodup
  inOrder : ∃ starts : List (Date × TimeOfDay),
    slots = starts.map (fun p => slotString p.1 p.2) ∧
    starts.Pairwise (fun p q => startMinutes p < startMinutes q) ∧
    ∀ d t, (d, t) ∈ starts ↔ Bookable fromDate toDate duration d t

/-- What a request for a window should be answered with. -/
def AnswersExactly (fromDate toDate : Date) (duration : Option Int) : Prop :=
  let answer := checkAvailability ⟨fromDate.isoformat, toDate.isoformat, duration⟩
  if fromDate ≤ toDate ∧ toDate.ordinal ≤ fromDate.ordinal + 14 then
    ∃ slots, answer = .ok (.dict [("duration_minutes", .int (duration.getD 30)),
        ("slots", .list (slots.map .str))]) ∧
      ExactSlots fromDate toDate (duration.getD 30) slots
  else ∃ message, answer = .ok (.dict [("error", .str message)])

/-! ## The slots of a day -/

theorem minutes_lt {t : TimeOfDay} (h : t ∈ slotTimes) : t.minutes < 1440 := by
  have hall : ∀ t ∈ slotTimes, t.minutes < 1440 := by decide
  exact hall t h

theorem hour_minute_lt {t : TimeOfDay} (h : t ∈ slotTimes) : t.hour < 24 ∧ t.minute < 60 := by
  have hall : ∀ t ∈ slotTimes, t.hour < 24 ∧ t.minute < 60 := by decide
  exact hall t h

theorem slotTimes_pairwise : slotTimes.Pairwise fun t u => t.minutes < u.minutes := by decide

/-- The start of every slot of a day. -/
def daySlots (duration : Int) (d : Date) : List (Date × TimeOfDay) :=
  if d.weekday ≥ 5 then []
  else (slotTimes.filter fun t => t.minutes + duration ≤ 18 * 60).map fun t => (d, t)

theorem fakeSlots_eq (d : Date) (duration : Int) :
    fakeSlots d duration = (daySlots duration d).map fun p => slotString p.1 p.2 := by
  unfold fakeSlots daySlots
  split
  · rfl
  · rw [List.map_map]
    rfl

theorem mem_daySlots {d e : Date} {t : TimeOfDay} {duration : Int} :
    (d, t) ∈ daySlots duration e ↔ d = e ∧ d.weekday < 5 ∧ t ∈ slotTimes ∧
      t.minutes + duration ≤ 18 * 60 := by
  unfold daySlots
  split
  · rename_i hweekend
    simp only [List.not_mem_nil, false_iff]
    rintro ⟨rfl, hweekday, -⟩
    omega
  · rename_i hweekday
    simp only [List.mem_map, List.mem_filter, decide_eq_true_eq, Prod.mk.injEq]
    constructor
    · rintro ⟨u, ⟨hu, hcloses⟩, rfl, rfl⟩
      exact ⟨rfl, by omega, hu, hcloses⟩
    · rintro ⟨rfl, -, ht, hcloses⟩
      exact ⟨t, ⟨ht, hcloses⟩, rfl, rfl⟩

theorem daySlots_pairwise (duration : Int) (d : Date) :
    (daySlots duration d).Pairwise fun p q => startMinutes p < startMinutes q := by
  unfold daySlots
  split
  · exact List.Pairwise.nil
  · rw [List.pairwise_map]
    refine (slotTimes_pairwise.filter _).imp ?_
    intro t u h
    show d.ordinal * 1440 + t.minutes < d.ordinal * 1440 + u.minutes
    omega

/-- The slots of a day are over before the next day begins. -/
theorem startMinutes_lt {d e : Date} (h : d < e) {duration : Int} {p q : Date × TimeOfDay}
    (hp : p ∈ daySlots duration d) (hq : q ∈ daySlots duration e) :
    startMinutes p < startMinutes q := by
  obtain ⟨rfl, -, ht, -⟩ := mem_daySlots.mp hp
  obtain ⟨rfl, -⟩ := mem_daySlots.mp hq
  have hordinal := Date.ordinal_lt_iff.mpr h
  have hminutes := minutes_lt ht
  unfold startMinutes
  omega

theorem slotString_inj {d e : Date} {t u : TimeOfDay} (ht : t ∈ slotTimes)
    (hu : u ∈ slotTimes) (h : slotString d t = slotString e u) : d = e ∧ t = u := by
  obtain ⟨hth, htm⟩ := hour_minute_lt ht
  obtain ⟨huh, hum⟩ := hour_minute_lt hu
  unfold slotString at h
  obtain ⟨hd, h⟩ := List.append_inj (String.ofList_injective h) (by simp)
  obtain ⟨hhour, h⟩ := List.append_inj (List.cons.inj h).2 (by simp)
  obtain ⟨hminute, -⟩ := List.append_inj (List.cons.inj h).2 (by simp)
  have hhours : t.hour = u.hour := pad_inj (by omega) (by omega) hhour
  have hminutes : t.minute = u.minute := pad_inj (by omega) (by omega) hminute
  refine ⟨Date.isoChars_injective hd, ?_⟩
  obtain ⟨hour, minute⟩ := t
  obtain ⟨hour', minute'⟩ := u
  obtain rfl : hour = hour' := hhours
  obtain rfl : minute = minute' := hminutes
  rfl

/-! ## The slots of several days -/

section

variable {days : List Date} {duration : Int}

def windowSlots (duration : Int) (days : List Date) : List (Date × TimeOfDay) :=
  days.flatMap (daySlots duration)

theorem mem_windowSlots {d : Date} {t : TimeOfDay} :
    (d, t) ∈ windowSlots duration days ↔
      d ∈ days ∧ d.weekday < 5 ∧ t ∈ slotTimes ∧ t.minutes + duration ≤ 18 * 60 := by
  rw [windowSlots, List.mem_flatMap]
  constructor
  · rintro ⟨e, he, hslot⟩
    obtain ⟨rfl, hday⟩ := mem_daySlots.mp hslot
    exact ⟨he, hday⟩
  · rintro ⟨hd, hday⟩
    exact ⟨d, hd, mem_daySlots.mpr ⟨rfl, hday⟩⟩

theorem windowSlots_pairwise (h : days.Pairwise (· < ·)) :
    (windowSlots duration days).Pairwise fun p q => startMinutes p < startMinutes q := by
  rw [windowSlots, List.pairwise_flatMap]
  refine ⟨fun d _ => daySlots_pairwise duration d, h.imp ?_⟩
  intro d e hlt p hp q hq
  exact startMinutes_lt hlt hp hq

/-- Different slots have different strings. -/
theorem windowSlots_nodup (h : days.Pairwise (· < ·)) :
    ((windowSlots duration days).map fun p => slotString p.1 p.2).Nodup := by
  refine List.Nodup.map_on ?_ ((windowSlots_pairwise h).imp fun hlt heq => ?_)
  · rintro ⟨d, t⟩ hp ⟨e, u⟩ hq heq
    obtain ⟨rfl, rfl⟩ := slotString_inj (mem_windowSlots.mp hp).2.2.1
      (mem_windowSlots.mp hq).2.2.1 heq
    rfl
  · rw [heq] at hlt
    exact Nat.lt_irrefl _ hlt

end

/-! ## The loop -/

section

variable {cur toDate next : Date} {duration : Int} {slots : List String}

theorem slotLoop_done (h : ¬ cur ≤ toDate) : slotLoop cur toDate duration slots = .ok slots := by
  rw [slotLoop, dif_neg h]

theorem slotLoop_next (h : cur ≤ toDate) (hnext : cur.addDay = some next) :
    slotLoop cur toDate duration slots =
      slotLoop next toDate duration (slots ++ fakeSlots cur duration) := by
  rw [slotLoop, dif_pos h]
  split
  · rename_i hnone
    rw [hnone] at hnext
    cases hnext
  · rename_i e he
    rw [he] at hnext
    rw [Option.some.inj hnext]

theorem slotLoop_last (h : cur ≤ toDate) (hnone : cur.addDay = none) :
    slotLoop cur toDate duration slots = .error .overflowError := by
  rw [slotLoop, dif_pos h]
  split
  · rfl
  · rename_i e he
    rw [he] at hnone
    cases hnone

/-- A day is reached from the next one on or is the day itself. -/
theorem le_iff_of_addDay {d : Date} (hnext : cur.addDay = some next) :
    cur ≤ d ↔ d = cur ∨ next ≤ d := by
  have hordinal := Date.ordinal_addDay hnext
  rw [le_iff_eq_or_lt, ← Date.ordinal_lt_iff, ← Date.ordinal_le_iff, hordinal]
  exact or_congr eq_comm Iff.rfl

/-- The loop goes over the days of the window, each once and in order. -/
theorem slotLoop_days (hmax : toDate ≠ Date.max) : ∀ (n : Nat) (cur : Date)
    (slots : List String), toDate.ordinal + 1 - cur.ordinal ≤ n → ∃ days : List Date,
      slotLoop cur toDate duration slots =
        .ok (slots ++ days.flatMap fun d => fakeSlots d duration) ∧
      days.Pairwise (· < ·) ∧ ∀ d, d ∈ days ↔ cur ≤ d ∧ d ≤ toDate := by
  intro n
  induction n with
  | zero =>
      intro cur slots hn
      have hdone : ¬ cur ≤ toDate := by
        rw [← Date.ordinal_le_iff]
        omega
      refine ⟨[], by simpa using slotLoop_done hdone, List.Pairwise.nil, fun d => ?_⟩
      simp only [List.not_mem_nil, false_iff]
      rintro ⟨hfirst, hlast⟩
      exact hdone (hfirst.trans hlast)
  | succ n ih =>
      intro cur slots hn
      by_cases hle : cur ≤ toDate
      · cases hnext : cur.addDay with
        | none =>
            -- no day is later than the last date
            rw [Date.addDay_eq_none_iff] at hnext
            subst hnext
            exact absurd (le_antisymm (Date.le_max toDate) hle) hmax
        | some next =>
            have hordinal := Date.ordinal_addDay hnext
            obtain ⟨days, hloop, hpairwise, hmem⟩ :=
              ih next (slots ++ fakeSlots cur duration) (by omega)
            refine ⟨cur :: days, ?_, ?_, fun d => ?_⟩
            · rw [slotLoop_next hle hnext, hloop, List.flatMap_cons, List.append_assoc]
            · refine List.pairwise_cons.mpr ⟨fun d hd => ?_, hpairwise⟩
              rw [← Date.ordinal_lt_iff]
              have hfirst := Date.ordinal_le_iff.mpr ((hmem d).mp hd).1
              omega
            · rw [List.mem_cons, hmem, le_iff_of_addDay hnext]
              constructor
              · rintro (rfl | ⟨hfirst, hlast⟩)
                · exact ⟨.inl rfl, hle⟩
                · exact ⟨.inr hfirst, hlast⟩
              · rintro ⟨rfl | hfirst, hlast⟩
                · exact .inl rfl
                · exact .inr ⟨hfirst, hlast⟩
      · refine ⟨[], by simpa using slotLoop_done hle, List.Pairwise.nil, fun d => ?_⟩
        simp only [List.not_mem_nil, false_iff]
        rintro ⟨hfirst, hlast⟩
        exact hle (hfirst.trans hlast)

/-- The loop of a window that ends with the last date raises after it. -/
theorem slotLoop_max : ∀ (n : Nat) (cur : Date) (slots : List String),
    Date.max.ordinal + 1 - cur.ordinal ≤ n →
      slotLoop cur Date.max duration slots = .error .overflowError := by
  intro n
  induction n with
  | zero =>
      intro cur slots hn
      have hle := Date.ordinal_le_iff.mpr (Date.le_max cur)
      omega
  | succ n ih =>
      intro cur slots hn
      cases hnext : cur.addDay with
      | none => exact slotLoop_last (Date.le_max cur) hnext
      | some next =>
          have hordinal := Date.ordinal_addDay hnext
          rw [slotLoop_next (Date.le_max cur) hnext]
          exact ih next _ (by omega)

/-- The slots of the days of a window are those of the window. -/
theorem exactSlots_of_days {fromDate : Date} {days : List Date} (hpairwise : days.Pairwise (· < ·))
    (hmem : ∀ d, d ∈ days ↔ fromDate ≤ d ∧ d ≤ toDate) :
    ExactSlots fromDate toDate duration (days.flatMap fun d => fakeSlots d duration) := by
  have hslots : (days.flatMap fun d => fakeSlots d duration) =
      (windowSlots duration days).map fun p => slotString p.1 p.2 := by
    rw [windowSlots, List.map_flatMap]
    simp only [fakeSlots_eq]
  refine ⟨?_, _, hslots, windowSlots_pairwise hpairwise, fun d t => ?_⟩
  · rw [hslots]
    exact windowSlots_nodup hpairwise
  · rw [mem_windowSlots, hmem]
    constructor
    · rintro ⟨⟨hfirst, hlast⟩, hweekday, htime, hcloses⟩
      exact ⟨hfirst, hlast, hweekday, htime, hcloses⟩
    · rintro ⟨hfirst, hlast, hweekday, htime, hcloses⟩
      exact ⟨⟨hfirst, hlast⟩, hweekday, htime, hcloses⟩

end

/-! ## The tool -/

section

variable {fromDate toDate : Date} {duration : Option Int}

theorem dateFromIsoformat_isoformat (d : Date) : dateFromIsoformat d.isoformat = .ok d := by
  rw [dateFromIsoformat, Date.fromIsoformat_isoformat]

/-- Within the limits of a window the answer is what the loop gives. -/
theorem checkAvailability_window (hle : fromDate ≤ toDate)
    (hwindow : toDate.ordinal ≤ fromDate.ordinal + 14) :
    checkAvailability ⟨fromDate.isoformat, toDate.isoformat, duration⟩ =
      (slotLoop fromDate toDate (duration.getD 30) []).map fun slots =>
        .dict [("duration_minutes", .int (duration.getD 30)),
          ("slots", .list (slots.map .str))] := by
  have hshort : ¬ (toDate.ordinal : Int) - fromDate.ordinal > 14 := by omega
  simp only [checkAvailability, dateFromIsoformat_isoformat, bind, Except.bind,
    if_neg (not_lt.mpr hle), if_neg hshort]
  cases slotLoop fromDate toDate (duration.getD 30) [] <;> rfl

/-- Outside them it is an error. -/
theorem checkAvailability_error
    (h : ¬ (fromDate ≤ toDate ∧ toDate.ordinal ≤ fromDate.ordinal + 14)) :
    ∃ message, checkAvailability ⟨fromDate.isoformat, toDate.isoformat, duration⟩ =
      .ok (.dict [("error", .str message)]) := by
  simp only [checkAvailability, dateFromIsoformat_isoformat, bind, Except.bind]
  by_cases hlt : toDate < fromDate
  · rw [if_pos hlt]
    exact ⟨_, rfl⟩
  · have hlong : (toDate.ordinal : Int) - fromDate.ordinal > 14 := by
      have hnot := mt (And.intro (not_lt.mp hlt)) h
      omega
    rw [if_neg hlt, if_pos hlong]
    exact ⟨_, rfl⟩

/-- The window ends with the last date there is. -/
theorem checkAvailability_max (hwindow : Date.max.ordinal ≤ fromDate.ordinal + 14) :
    checkAvailability ⟨fromDate.isoformat, Date.max.isoformat, duration⟩ =
      .error .overflowError := by
  rw [checkAvailability_window (Date.le_max fromDate) hwindow,
    slotLoop_max _ _ _ (Nat.le_refl _)]
  rfl

end

/-- **Availability.** For every two dates and every duration, given or not: the tool
answers with exactly the slots of the window, and with an error where there is no window
of at most 14 days, if and only if it is not a window that ends on 9999-12-31. -/
theorem availability_exact_iff (fromDate toDate : Date) (duration : Option Int) :
    AnswersExactly fromDate toDate duration ↔
      ¬ (fromDate ≤ toDate ∧ toDate.ordinal ≤ fromDate.ordinal + 14 ∧ toDate = Date.max) := by
  unfold AnswersExactly
  by_cases hwindow : fromDate ≤ toDate ∧ toDate.ordinal ≤ fromDate.ordinal + 14
  · obtain ⟨hle, hshort⟩ := hwindow
    simp only [hle, hshort, true_and]
    constructor
    · rintro ⟨slots, hanswer, -⟩ rfl
      rw [checkAvailability_max hshort] at hanswer
      cases hanswer
    · intro hmax
      obtain ⟨days, hloop, hpairwise, hmem⟩ := @slotLoop_days toDate (duration.getD 30) hmax _
        fromDate [] (Nat.le_refl _)
      rw [checkAvailability_window hle hshort, hloop]
      exact ⟨_, rfl, exactSlots_of_days hpairwise hmem⟩
  · simp only [if_neg hwindow]
    apply iff_of_true (checkAvailability_error hwindow)
    rintro ⟨hle, hshort, -⟩
    exact hwindow ⟨hle, hshort⟩

/-- The last date as a window of one day. -/
theorem last_date_raises : ¬ AnswersExactly Date.max Date.max (some 30) := by
  unfold AnswersExactly
  have hraises := @checkAvailability_max Date.max (some 30) (Nat.le_add_right _ _)
  rw [if_pos ⟨le_rfl, Nat.le_add_right _ _⟩, hraises]
  rintro ⟨slots, hanswer, -⟩
  cases hanswer

/-- A Friday and a Saturday, with a duration that no longer fits at 16:00. -/
example : (checkAvailability ⟨"2026-04-24", "2026-04-25", some 150⟩).toOption.map PyVal.repr =
    some ("\x7b'duration_minutes': 150, 'slots': ['2026-04-24T09:00+07:00', " ++
      "'2026-04-24T11:00+07:00', '2026-04-24T14:00+07:00']\x7d") := by
  decide +kernel

end VoiceAgent
