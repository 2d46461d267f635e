import Mathlib.Data.List.TakeWhile
import VoiceAgent.Lib.Calendar

/-!
# Datetimes and their ISO 8601 strings

A date and a time of day to the microsecond, with or without an offset from UTC, as
Python's `datetime.datetime` has them. `DateTime.fromIsoformat` follows the scanner of
CPython, which reads more than `isoformat()` writes: any separator between the date and
the time, week dates, fields without colons, fractions of more digits than six.

* `parseClock_minutes`, `parseClock_seconds` — what is read of the clocks that are written;
* `Offset.exists_zone` — an offset reads back, unless it is one of less than a second;
* `DateTime.fromIsoformat_isoformat`, `DateTime.fromIsoformat_reread` — a datetime reads
  back from its string, and one that was read always does.
-/

namespace Lib.Calendar

/-- `datetime.time` without its zone -/
structure Time where
  hour : Nat
  minute : Nat
  second : Nat
  microsecond : Nat
  hour_lt : hour < 24
  minute_lt : minute < 60
  second_lt : second < 60
  microsecond_lt : microsecond < 1000000
  deriving DecidableEq

/-- The microseconds of a second and of a day. -/
def secondMicros : Nat := 1000000

def dayMicros : Nat := 86400 * secondMicros

/-- `datetime.timezone`: an offset from UTC in microseconds, less than a day. -/
structure Offset where
  micros : Int
  lt_day : micros.natAbs < dayMicros
  deriving DecidableEq

/-- `datetime.datetime` -/
structure DateTime where
  date : Date
  time : Time
  offset : Option Offset
  deriving DecidableEq

/-- `time(hour, minute, second, microsecond)`, `none` where it raises. -/
def Time.ofHmsf (hour minute second microsecond : Nat) : Option Time :=
  if h : hour < 24 ∧ minute < 60 ∧ second < 60 ∧ microsecond < 1000000 then
    some ⟨hour, minute, second, microsecond, h.1, h.2.1, h.2.2.1, h.2.2.2⟩
  else none

/-- `timezone(timedelta(microseconds=micros))`, `none` where it raises. -/
def Offset.ofMicros (micros : Int) : Option Offset :=
  if h : micros.natAbs < dayMicros then some ⟨micros, h⟩ else none

/-- Microseconds since midnight. -/
def Time.micros (t : Time) : Nat :=
  ((t.hour * 60 + t.minute) * 60 + t.second) * secondMicros + t.microsecond

/-- The instant in microseconds of UTC, counted from the midnight that begins the day
before 0001-01-01. A datetime without an offset is no instant. -/
def DateTime.instant (dt : DateTime) : Option Int :=
  dt.offset.map fun o => (dt.date.ordinal * dayMicros + dt.time.micros : Nat) - o.micros

/-! ## What `isoformat()` writes -/

/-- Where there are microseconds they are written. -/
def fractionChars (microsecond : Nat) : List Char :=
  if microsecond = 0 then [] else '.' :: pad 6 microsecond

def Time.isoChars (t : Time) : List Char :=
  pad 2 t.hour ++ ':' :: (pad 2 t.minute ++ ':' :: (pad 2 t.second ++
    fractionChars t.microsecond))

def Offset.sign (o : Offset) : Char := if o.micros < 0 then '-' else '+'

/-- Seconds are written where there are seconds or microseconds. -/
def Offset.isoChars (o : Offset) : List Char :=
  let seconds := o.micros.natAbs / secondMicros
  let microsecond := o.micros.natAbs % secondMicros
  o.sign :: (pad 2 (seconds / 3600) ++ ':' ::
    (pad 2 (seconds / 60 % 60) ++
      if seconds % 60 = 0 ∧ microsecond = 0 then []
      else ':' :: (pad 2 (seconds % 60) ++ fractionChars microsecond)))

/-- `isoformat()` -/
def DateTime.isoformat (dt : DateTime) : String :=
  String.ofList (dt.date.isoChars ++ 'T' :: (dt.time.isoChars ++
    match dt.offset with
    | none => []
    | some o => o.isoChars))

/-! ## What `fromisoformat()` reads -/

def isDigit (c : Char) : Bool := (digit? c).isSome

/-- `_find_isoformat_datetime_separator`: the length of the date. -/
def findSeparator (cs : List Char) : Option Nat :=
  if cs.length = 7 then some 7
  else if cs[4]? = some '-' then
    if cs[5]? = some 'W' then
      if cs[8]? = some '-' then
        -- a day of the week follows the hyphen, or an hour does
        if cs.length = 9 then none
        else if cs[10]?.any isDigit then some 8
        else some 10
      else some 8
    else some 10
  else if cs[4]? = some 'W' then
    -- the digits of a time come in pairs, so an odd one is the day of the week
    let pos := 7 + ((cs.drop 7).takeWhile isDigit).length
    if pos < 9 then some pos
    else if pos % 2 = 0 then some 7
    else some 8
  else some 8

/-- How the text of a clock goes on after two digits. -/
inductive After where
  | stop (rest : List Char)
  | field (rest : List Char)
  | fraction (rest : List Char)

/-- One byte at the end of the text is left to the caller, whatever it is. -/
def afterDigits (hasSeparator : Bool) : List Char → Option After
  | [] => some (.stop [])
  | c :: cs =>
    if cs = [] ∧ c.utf8Size = 1 then some (.stop [c])
    else if hasSeparator ∧ c = ':' then some (.field cs)
    else if c = '.' ∨ c = ',' then some (.fraction cs)
    else if hasSeparator then none
    else some (.field (c :: cs))

/-- Up to six digits of a fraction in microseconds; the digits after them are skipped. -/
def parseFraction (cs : List Char) : Option (Nat × List Char) :=
  let toParse := min cs.length 6
  (parseDigits toParse 0 cs).map fun (v, cs) => (v * 10 ^ (6 - toParse), cs.dropWhile isDigit)

/-- What a clock is read as: the fields that are there, the microseconds and the rest. -/
structure Clock where
  fields : List Nat
  microsecond : Nat
  rest : List Char

/-- The loop over the fields that may follow. -/
def parseFields (hasSeparator : Bool) : Nat → List Char → Option Clock
  | 0, cs => (parseFraction cs).map fun (microsecond, rest) => ⟨[], microsecond, rest⟩
  | k + 1, cs => do
    let (v, cs) ← parseDigits 2 0 cs
    match ← afterDigits hasSeparator cs with
    | .stop rest => return ⟨[v], 0, rest⟩
    | .fraction cs =>
      let (microsecond, rest) ← parseFraction cs
      return ⟨[v], microsecond, rest⟩
    | .field cs =>
      let clock ← parseFields hasSeparator k cs
      return { clock with fields := v :: clock.fields }

/-- `parse_hh_mm_ss_ff` -/
def parseClock (cs : List Char) : Option Clock :=
  parseFields (decide ((cs.drop 2).head? = some ':')) 3 cs

namespace Clock

def hour (c : Clock) : Nat := c.fields.getD 0 0

def minute (c : Clock) : Nat := c.fields.getD 1 0

def second (c : Clock) : Nat := c.fields.getD 2 0

/-- The whole seconds. -/
def seconds (c : Clock) : Nat := (c.hour * 60 + c.minute) * 60 + c.second

theorem seconds_minutes (h m u : Nat) (rest : List Char) :
    (Clock.mk [h, m] u rest).seconds = (h * 60 + m) * 60 := rfl

theorem seconds_fields (h m s u : Nat) (rest : List Char) :
    (Clock.mk [h, m, s] u rest).seconds = (h * 60 + m) * 60 + s := rfl

end Clock

/-- A NUL ends the text for the scanner, as its end does. -/
def leftOver (cs : List Char) : Bool := cs.headD '\x00' != '\x00'

def isZoneMark (c : Char) : Bool := c == '+' || c == '-' || c == 'Z'

/-- The characters before the zone. -/
def isClockChar (c : Char) : Bool := !isZoneMark c

/-- The offset in microseconds; with no whole second in it, it is UTC. -/
def zoneMicros (negative : Bool) (zone : Clock) : Int :=
  if zone.seconds = 0 then 0
  else
    let micros : Int := (zone.seconds * secondMicros + zone.microsecond : Nat)
    if negative then -micros else micros

/-- `parse_isoformat_time`: the clock, and the offset where there is one. -/
def parseIsoformatTime (cs : List Char) : Option (Clock × Option Int) := do
  let clock ← parseClock (cs.takeWhile isClockChar)
  match cs.dropWhile isClockChar with
  | [] => if leftOver clock.rest then none else return (clock, none)
  | mark :: cs =>
    if mark = 'Z' then
      if leftOver cs then none else return (clock, some 0)
    else
      let zone ← parseClock cs
      if leftOver zone.rest then none
      else return (clock, some (zoneMicros (decide (mark = '-')) zone))

namespace DateTime

/-- What follows the date: nothing, or one character and a time. -/
def parseRest : List Char → Option (Clock × Option Int)
  | [] => some (⟨[], 0, []⟩, none)
  | _ :: cs => parseIsoformatTime cs

/-- The datetime of what was read, `none` where a value is out of range. -/
def ofParts (ymd : Nat × Nat × Nat) (clock : Clock) (offset : Option Int) : Option DateTime := do
  let date ← Date.ofYmd ymd.1 ymd.2.1 ymd.2.2
  let time ← Time.ofHmsf clock.hour clock.minute clock.second clock.microsecond
  match offset with
  | none => return ⟨date, time, none⟩
  | some micros =>
    let offset ← Offset.ofMicros micros
    return ⟨date, time, some offset⟩

/-- `datetime.fromisoformat(s)`, `none` where it raises. -/
def fromIsoformat (s : String) : Option DateTime := do
  let cs := s.toList
  if cs.length < 7 then none
  else
    let separator ← findSeparator cs
    let ymd ← parseIsoformatDate (cs.take separator)
    let (clock, offset) ← parseRest (cs.drop separator)
    ofParts ymd clock offset

end DateTime

/-! ## Reading a clock -/

theorem Time.ofHmsf_self (t : Time) : ofHmsf t.hour t.minute t.second t.microsecond = some t :=
  dif_pos ⟨t.hour_lt, t.minute_lt, t.second_lt, t.microsecond_lt⟩

theorem Offset.ofMicros_self (o : Offset) : ofMicros o.micros = some o := dif_pos o.lt_day

theorem parseFraction_pad {u : Nat} (h : u < 10 ^ 6) : parseFraction (pad 6 u) = some (u, []) := by
  have hdigits := parseDigits_pad_of_lt h []
  rw [List.append_nil] at hdigits
  have hsix : min (pad 6 u).length 6 = 6 := by rw [length_pad]; rfl
  rw [parseFraction, hsix, hdigits]
  show some (u * 10 ^ 0, []) = _
  rw [Nat.pow_zero, Nat.mul_one]

/-- The last field that is written, with its fraction. -/
theorem parseFields_last {v u : Nat} (hv : v < 10 ^ 2) (hu : u < 10 ^ 6) (hasSeparator : Bool)
    (k : Nat) : parseFields hasSeparator (k + 1) (pad 2 v ++ fractionChars u) =
      some ⟨[v], u, []⟩ := by
  rw [parseFields, parseDigits_pad_of_lt hv]
  unfold fractionChars
  split
  · rename_i hzero
    subst hzero
    rfl
  · have hne : ¬ (pad 6 u = [] ∧ Char.utf8Size '.' = 1) := by
      rintro ⟨hnil, -⟩
      exact absurd (congrArg List.length hnil) (by simp)
    have hpoint : ¬ (hasSeparator = true ∧ '.' = ':') := fun h => absurd h.2 (by decide)
    simp only [Option.bind_eq_bind, Option.bind_some, afterDigits, if_neg hne, if_neg hpoint,
      true_or, if_true, parseFraction_pad hu]
    rfl

/-- A field before a colon. -/
theorem parseFields_colon {v : Nat} (hv : v < 10 ^ 2) {cs : List Char} (hne : cs ≠ []) (k : Nat) :
    parseFields true (k + 1) (pad 2 v ++ ':' :: cs) =
      (parseFields true k cs).map fun c => { c with fields := v :: c.fields } := by
  have hmore : ¬ (cs = [] ∧ Char.utf8Size ':' = 1) := fun h => hne h.1
  rw [parseFields, parseDigits_pad_of_lt hv]
  simp only [Option.bind_eq_bind, Option.bind_some, afterDigits, if_neg hmore, true_and, if_true]
  cases parseFields true k cs <;> rfl

theorem parseClock_colon (v : Nat) (cs : List Char) :
    parseClock (pad 2 v ++ ':' :: cs) = parseFields true 3 (pad 2 v ++ ':' :: cs) := rfl

theorem pad_two_append_ne (v : Nat) (cs : List Char) : pad 2 v ++ cs ≠ [] := by
  intro h
  have hlength := congrArg List.length h
  rw [List.length_append, length_pad, List.length_nil] at hlength
  omega

/-- `HH:MM` -/
theorem parseClock_minutes {h m : Nat} (hh : h < 10 ^ 2) (hm : m < 10 ^ 2) :
    parseClock (pad 2 h ++ ':' :: pad 2 m) = some ⟨[h, m], 0, []⟩ := by
  have hlast := parseFields_last hm (Nat.pow_pos (Nat.succ_pos 9) : 0 < 10 ^ 6) true 1
  have hne := pad_two_append_ne m (fractionChars 0)
  rw [show fractionChars 0 = [] from rfl, List.append_nil] at hlast hne
  rw [parseClock_colon, parseFields_colon hh hne, hlast]
  rfl

/-- `HH:MM:SS` with a fraction or without -/
theorem parseClock_seconds {h m s u : Nat} (hh : h < 10 ^ 2) (hm : m < 10 ^ 2) (hs : s < 10 ^ 2)
    (hu : u < 10 ^ 6) :
    parseClock (pad 2 h ++ ':' :: (pad 2 m ++ ':' :: (pad 2 s ++ fractionChars u))) =
      some ⟨[h, m, s], u, []⟩ := by
  rw [parseClock_colon, parseFields_colon hh (pad_two_append_ne m _),
    parseFields_colon hm (pad_two_append_ne s _), parseFields_last hs hu]
  rfl

theorem Time.parseClock_isoChars (t : Time) :
    parseClock t.isoChars = some ⟨[t.hour, t.minute, t.second], t.microsecond, []⟩ := by
  have hh := t.hour_lt
  have hm := t.minute_lt
  have hs := t.second_lt
  exact parseClock_seconds (by omega) (by omega) (by omega) t.microsecond_lt

/-! ## Reading a zone -/

/-- No field holds the mark of a zone. -/
theorem isClockChar_pad (k n : Nat) : ∀ c ∈ pad k n, isClockChar c = true := by
  have hall : ∀ v : Fin 10, isClockChar (digit v) = true := by decide
  induction k with
  | zero =>
      intro c hc
      cases hc
  | succ k ih =>
      intro c hc
      rcases List.mem_cons.mp hc with rfl | hc
      · exact hall ⟨n / 10 ^ k % 10, Nat.mod_lt _ (by omega)⟩
      · exact ih c hc

theorem isClockChar_minutes (h m : Nat) :
    ∀ c ∈ pad 2 h ++ ':' :: pad 2 m, isClockChar c = true := by
  intro c hc
  rcases List.mem_append.mp hc with hc | hc
  · exact isClockChar_pad 2 h c hc
  rcases List.mem_cons.mp hc with rfl | hc
  · rfl
  · exact isClockChar_pad 2 m c hc

theorem isClockChar_fraction (u : Nat) : ∀ c ∈ fractionChars u, isClockChar c = true := by
  intro c hc
  unfold fractionChars at hc
  split at hc
  · cases hc
  rcases List.mem_cons.mp hc with rfl | hc
  · rfl
  · exact isClockChar_pad 6 u c hc

theorem isClockChar_isoChars (t : Time) : ∀ c ∈ t.isoChars, isClockChar c = true := by
  intro c hc
  unfold Time.isoChars at hc
  rcases List.mem_append.mp hc with hc | hc
  · exact isClockChar_pad 2 t.hour c hc
  rcases List.mem_cons.mp hc with rfl | hc
  · rfl
  rcases List.mem_append.mp hc with hc | hc
  · exact isClockChar_pad 2 t.minute c hc
  rcases List.mem_cons.mp hc with rfl | hc
  · rfl
  rcases List.mem_append.mp hc with hc | hc
  · exact isClockChar_pad 2 t.second c hc
  · exact isClockChar_fraction t.microsecond c hc

section

variable {cs zs : List Char} {clock zone : Clock}

/-- A clock that is read to its end, with no zone after it. -/
theorem parseIsoformatTime_naive (hcs : ∀ c ∈ cs, isClockChar c = true)
    (hclock : parseClock cs = some clock) (hrest : clock.rest = []) :
    parseIsoformatTime cs = some (clock, none) := by
  have htake : cs.takeWhile isClockChar = cs := List.takeWhile_eq_self_iff.mpr hcs
  have hdrop : cs.dropWhile isClockChar = [] := List.dropWhile_eq_nil_iff.mpr hcs
  rw [parseIsoformatTime, htake, hdrop, hclock]
  simp only [Option.bind_eq_bind, Option.bind_some, hrest]
  rfl

/-- A clock and the clock of its zone, which is not written `Z`. -/
theorem parseIsoformatTime_zone (hcs : ∀ c ∈ cs, isClockChar c = true)
    (hclock : parseClock cs = some clock) {mark : Char} (hmark : isZoneMark mark = true)
    (hutc : mark ≠ 'Z') (hzone : parseClock zs = some zone) (hrest : zone.rest = []) :
    parseIsoformatTime (cs ++ mark :: zs) =
      some (clock, some (zoneMicros (decide (mark = '-')) zone)) := by
  have hstop : ¬ isClockChar mark = true := by
    rw [isClockChar, hmark]
    exact Bool.false_ne_true
  have htake : (cs ++ mark :: zs).takeWhile isClockChar = cs := by
    rw [List.takeWhile_append_of_pos hcs, List.takeWhile_cons_of_neg hstop, List.append_nil]
  have hdrop : (cs ++ mark :: zs).dropWhile isClockChar = mark :: zs := by
    rw [List.dropWhile_append_of_pos hcs, List.dropWhile_cons_of_neg hstop]
  rw [parseIsoformatTime, htake, hdrop, hclock]
  simp only [Option.bind_eq_bind, Option.bind_some, if_neg hutc, hzone, hrest]
  rfl

end

/-! ## The offset -/

/-- The offsets that are read: of those below a second, UTC alone. -/
def Offset.Readable (o : Offset) : Prop := o.micros = 0 ∨ secondMicros ≤ o.micros.natAbs

theorem zoneMicros_readable (negative : Bool) (zone : Clock) :
    zoneMicros negative zone = 0 ∨ secondMicros ≤ (zoneMicros negative zone).natAbs := by
  unfold zoneMicros
  by_cases hzero : zone.seconds = 0
  · rw [if_pos hzero]
    exact .inl rfl
  · right
    have hone : 1 * secondMicros ≤ zone.seconds * secondMicros :=
      Nat.mul_le_mul_right _ (Nat.pos_of_ne_zero hzero)
    rw [if_neg hzero]
    cases negative <;> simp only [if_true, Bool.false_eq_true, if_false] <;> omega

theorem parseIsoformatTime_readable {cs : List Char} {clock : Clock} {micros : Int}
    (h : parseIsoformatTime cs = some (clock, some micros)) :
    micros = 0 ∨ secondMicros ≤ micros.natAbs := by
  obtain ⟨first, -, h⟩ := Option.bind_eq_some_iff.mp h
  split at h
  · split at h <;> cases h
  split at h
  · -- the mark `Z`
    split at h <;> cases h
    exact .inl rfl
  · obtain ⟨zone, -, h⟩ := Option.bind_eq_some_iff.mp h
    split at h <;> cases h
    exact zoneMicros_readable _ zone

theorem Offset.sign_mark (o : Offset) : isZoneMark o.sign = true ∧ o.sign ≠ 'Z' := by
  unfold sign
  split
  · exact ⟨rfl, fun h => absurd h (by decide)⟩
  · exact ⟨rfl, fun h => absurd h (by decide)⟩

theorem Offset.sign_iff (o : Offset) : o.sign = '-' ↔ o.micros < 0 := by
  unfold sign
  split
  · rename_i hneg
    exact iff_of_true rfl hneg
  · rename_i hneg
    exact iff_of_false (fun h => absurd h (by decide)) hneg

/-- A clock with the seconds and the microseconds of an offset. -/
theorem zoneMicros_eq {o : Offset} (h : o.Readable) {zone : Clock}
    (hseconds : zone.seconds = o.micros.natAbs / secondMicros)
    (hmicros : zone.microsecond = o.micros.natAbs % secondMicros) :
    zoneMicros (decide (o.sign = '-')) zone = o.micros := by
  have hwhole : zone.seconds * secondMicros + zone.microsecond = o.micros.natAbs := by
    rw [hseconds, hmicros, Nat.mul_comm]
    exact Nat.div_add_mod _ _
  unfold zoneMicros
  by_cases hzero : zone.seconds = 0
  · rw [if_pos hzero]
    rcases h with h | h
    · exact h.symm
    · have hpos : 0 < o.micros.natAbs / secondMicros := Nat.div_pos h (by decide)
      omega
  · simp only [if_neg hzero, hwhole, decide_eq_true_eq, o.sign_iff]
    split <;> omega

/-- What is written after the sign reads back as the offset. -/
theorem Offset.exists_zone {o : Offset} (h : o.Readable) : ∃ zs zone,
    o.isoChars = o.sign :: zs ∧ parseClock zs = some zone ∧ zone.rest = [] ∧
    zoneMicros (decide (o.sign = '-')) zone = o.micros := by
  have hday := o.lt_day
  have hmicros : o.micros.natAbs % secondMicros < 10 ^ 6 := Nat.mod_lt _ (Nat.succ_pos 999999)
  have hseconds : o.micros.natAbs / secondMicros < 86400 :=
    Nat.div_lt_of_lt_mul (by rwa [Nat.mul_comm])
  have hh : o.micros.natAbs / secondMicros / 3600 < 10 ^ 2 := by omega
  have hm : o.micros.natAbs / secondMicros / 60 % 60 < 10 ^ 2 := by omega
  have hs : o.micros.natAbs / secondMicros % 60 < 10 ^ 2 := by omega
  unfold isoChars
  by_cases hnone : o.micros.natAbs / secondMicros % 60 = 0 ∧ o.micros.natAbs % secondMicros = 0
  · simp only [if_pos hnone, List.append_nil]
    refine ⟨_, _, rfl, parseClock_minutes hh hm, rfl, zoneMicros_eq h ?_ hnone.2.symm⟩
    rw [Clock.seconds_minutes]
    omega
  · simp only [if_neg hnone]
    refine ⟨_, _, rfl, parseClock_seconds hh hm hs hmicros, rfl, zoneMicros_eq h ?_ rfl⟩
    rw [Clock.seconds_fields]
    omega

/-! ## Reading a datetime back -/

theorem findSeparator_isoChars (d : Date) (cs : List Char) :
    findSeparator (d.isoChars ++ cs) = some 10 := by
  have hlength : ¬ (d.isoChars ++ cs).length = 7 := by
    rw [List.length_append, Date.length_isoChars]
    omega
  have hdash : (d.isoChars ++ cs)[4]? = some '-' := rfl
  have hweek : ¬ (d.isoChars ++ cs)[5]? = some 'W' := d.head?_pad_ne []
  rw [findSeparator, if_neg hlength, if_pos hdash, if_neg hweek]

namespace DateTime

/-- A date, any separator and a time. -/
theorem fromIsoformat_chars (d : Date) (separator : Char) {cs : List Char} {clock : Clock}
    {offset : Option Int} (h : parseIsoformatTime cs = some (clock, offset)) :
    fromIsoformat (String.ofList (d.isoChars ++ separator :: cs)) =
      ofParts (d.year, d.month, d.day) clock offset := by
  have hlength : ¬ (d.isoChars ++ separator :: cs).length < 7 := by
    rw [List.length_append, Date.length_isoChars]
    omega
  have htake : (d.isoChars ++ separator :: cs).take 10 = d.isoChars :=
    List.take_left' d.length_isoChars
  have hdrop : (d.isoChars ++ separator :: cs).drop 10 = separator :: cs :=
    List.drop_left' d.length_isoChars
  rw [fromIsoformat, String.toList_ofList]
  simp only [if_neg hlength, findSeparator_isoChars, Option.bind_eq_bind, Option.bind_some, htake,
    hdrop, Date.parseIsoformatDate_isoChars, parseRest, h]

theorem ofParts_eq (d : Date) {t : Time} (offset : Option Offset) {clock : Clock}
    (h : Time.ofHmsf clock.hour clock.minute clock.second clock.microsecond = some t) :
    ofParts (d.year, d.month, d.day) clock (offset.map Offset.micros) = some ⟨d, t, offset⟩ := by
  cases offset with
  | none => simp only [ofParts, d.ofYmd_self, h, Option.map_none]; rfl
  | some o =>
      simp only [ofParts, d.ofYmd_self, h, Option.map_some, o.ofMicros_self]
      rfl

theorem offset_of_ofParts {ymd : Nat × Nat × Nat} {clock : Clock} {offset : Option Int}
    {dt : DateTime} (h : ofParts ymd clock offset = some dt) :
    dt.offset.map Offset.micros = offset := by
  obtain ⟨d, -, h⟩ := Option.bind_eq_some_iff.mp h
  obtain ⟨t, -, h⟩ := Option.bind_eq_some_iff.mp h
  cases offset with
  | none =>
      cases h
      rfl
  | some micros =>
      obtain ⟨o, ho, h⟩ := Option.bind_eq_some_iff.mp h
      cases h
      unfold Offset.ofMicros at ho
      split at ho <;> cases ho
      rfl

theorem readable_of_fromIsoformat {s : String} {dt : DateTime} (h : fromIsoformat s = some dt) :
    ∀ o, dt.offset = some o → o.Readable := by
  intro o ho
  simp only [fromIsoformat] at h
  split at h
  · cases h
  obtain ⟨separator, -, h⟩ := Option.bind_eq_some_iff.mp h
  obtain ⟨ymd, -, h⟩ := Option.bind_eq_some_iff.mp h
  obtain ⟨⟨clock, offset⟩, hrest, h⟩ := Option.bind_eq_some_iff.mp h
  have hoffset := offset_of_ofParts h
  rw [ho, Option.map_some] at hoffset
  subst hoffset
  cases hcs : s.toList.drop separator with
  | nil =>
      rw [hcs] at hrest
      cases hrest
  | cons c cs =>
      rw [hcs] at hrest
      exact parseIsoformatTime_readable hrest

/-- What `isoformat()` writes reads back as the datetime. -/
theorem fromIsoformat_isoformat (dt : DateTime) (h : ∀ o, dt.offset = some o → o.Readable) :
    fromIsoformat dt.isoformat = some dt := by
  obtain ⟨d, t, offset⟩ := dt
  have hclock := t.parseClock_isoChars
  have hparts := @ofParts_eq d t offset ⟨[t.hour, t.minute, t.second], t.microsecond, []⟩
    t.ofHmsf_self
  unfold isoformat
  cases offset with
  | none =>
      have hread := parseIsoformatTime_naive (isClockChar_isoChars t) hclock rfl
      rw [List.append_nil, fromIsoformat_chars d 'T' hread]
      exact hparts
  | some o =>
      obtain ⟨zs, zone, hchars, hzone, hrest, hmicros⟩ := Offset.exists_zone (h o rfl)
      obtain ⟨hmark, hutc⟩ := o.sign_mark
      have hread := parseIsoformatTime_zone (isClockChar_isoChars t) hclock hmark hutc hzone hrest
      rw [hmicros] at hread
      simp only [hchars]
      rw [fromIsoformat_chars d 'T' hread]
      exact hparts

/-- A datetime that was read is written as a string that is read as the same. -/
theorem fromIsoformat_reread {s : String} {dt : DateTime} (h : fromIsoformat s = some dt) :
    fromIsoformat dt.isoformat = some dt :=
  fromIsoformat_isoformat dt (readable_of_fromIsoformat h)

end DateTime

/-- The hyphen of a week date before an hour: a Monday at eleven. -/
example : (DateTime.fromIsoformat "2026-W17-11").map DateTime.isoformat =
    some "2026-04-20T11:00:00" := by
  decide +kernel

end Lib.Calendar
