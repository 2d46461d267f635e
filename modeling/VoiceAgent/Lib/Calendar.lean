import Mathlib.Data.Prod.Lex
import Mathlib.Data.String.Basic
import Mathlib.Order.Basic
import Mathlib.Tactic.Ring

/-!
# Dates of the Gregorian calendar

The dates from 0001-01-01 to 9999-12-31, as Python's `datetime.date` has them: year,
month and day, in the order of the calendar, with their number (`Date.ordinal`) and
their ISO 8601 string.

* `Date.ordinal_lt_iff` — the order of the dates is that of their numbers;
* `Date.ordinal_addDay`, `Date.addDay_eq_none_iff` — the next day has the next number,
  and every date but the last has one;
* `Date.fromIsoformat_isoformat` — the string of a date reads back as the date.
-/

namespace Lib.Calendar

def isLeap (y : Nat) : Bool := y % 4 == 0 && (y % 100 != 0 || y % 400 == 0)

def daysInMonth (y m : Nat) : Nat :=
  if m = 2 then if isLeap y then 29 else 28
  else if m = 4 ∨ m = 6 ∨ m = 9 ∨ m = 11 then 30
  else 31

/-- The days before January 1st of a year. -/
def daysBeforeYear (y : Nat) : Nat :=
  (y - 1) * 365 + (y - 1) / 4 - (y - 1) / 100 + (y - 1) / 400

/-- The days of a year before the first of a month. -/
def daysBeforeMonth (y : Nat) : Nat → Nat
  | 0 => 0
  | 1 => 0
  | m + 2 => daysBeforeMonth y (m + 1) + daysInMonth y (m + 1)

/-- `datetime.date` -/
structure Date where
  year : Nat
  month : Nat
  day : Nat
  year_mem : 1 ≤ year ∧ year ≤ 9999
  month_mem : 1 ≤ month ∧ month ≤ 12
  day_mem : 1 ≤ day ∧ day ≤ daysInMonth year month
  deriving DecidableEq

namespace Date

/-- `date(year, month, day)`, `none` where it raises. -/
def ofYmd (year month day : Nat) : Option Date :=
  if h : (1 ≤ year ∧ year ≤ 9999) ∧ (1 ≤ month ∧ month ≤ 12) ∧
      (1 ≤ day ∧ day ≤ daysInMonth year month) then
    some ⟨year, month, day, h.1, h.2.1, h.2.2⟩
  else none

/-- `date.max` -/
def max : Date := ⟨9999, 12, 31, by decide, by decide, by decide⟩

/-- `toordinal()`: January 1st of year 1 is day 1. -/
def ordinal (d : Date) : Nat := daysBeforeYear d.year + daysBeforeMonth d.year d.month + d.day

/-- `weekday()`: Monday is 0. -/
def weekday (d : Date) : Nat := (d.ordinal + 6) % 7

/-- `d + timedelta(days=1)`, `none` where it raises. -/
def addDay (d : Date) : Option Date :=
  if hd : d.day < daysInMonth d.year d.month then
    some { d with day := d.day + 1, day_mem := ⟨by omega, hd⟩ }
  else if hm : d.month < 12 then
    some { d with
      month := d.month + 1
      day := 1
      month_mem := ⟨by omega, hm⟩
      day_mem := ⟨Nat.le_refl 1, by unfold daysInMonth; split <;> split <;> omega⟩ }
  else if hy : d.year < 9999 then
    some ⟨d.year + 1, 1, 1, ⟨by omega, hy⟩, by decide,
      ⟨Nat.le_refl 1, by unfold daysInMonth; split <;> split <;> omega⟩⟩
  else none

theorem ofYmd_self (d : Date) : ofYmd d.year d.month d.day = some d :=
  dif_pos ⟨d.year_mem, d.month_mem, d.day_mem⟩

@[ext] theorem ext_ymd {d e : Date} (hy : d.year = e.year) (hm : d.month = e.month)
    (hd : d.day = e.day) : d = e := by
  obtain ⟨y, m, n, _, _, _⟩ := d
  obtain ⟨y', m', n', _, _, _⟩ := e
  obtain rfl : y = y' := hy
  obtain rfl : m = m' := hm
  obtain rfl : n = n' := hd
  rfl

/-! ## The order of the calendar -/

/-- Year, month and day as a tuple that compares lexicographically. -/
def key (d : Date) : Nat ×ₗ Nat ×ₗ Nat := toLex (d.year, toLex (d.month, d.day))

theorem key_injective : Function.Injective key := by
  intro d e h
  have hpair : (d.year, toLex (d.month, d.day)) = (e.year, toLex (e.month, e.day)) :=
    toLex.injective h
  obtain ⟨hy, hmd⟩ := Prod.mk.inj hpair
  obtain ⟨hm, hd⟩ := Prod.mk.inj (toLex.injective hmd)
  exact ext_ymd hy hm hd

instance : LinearOrder Date := LinearOrder.lift' key key_injective

theorem lt_iff {d e : Date} : d < e ↔ d.year < e.year ∨
    d.year = e.year ∧ (d.month < e.month ∨ d.month = e.month ∧ d.day < e.day) := by
  show d.key < e.key ↔ _
  rw [key, key, Prod.Lex.toLex_lt_toLex, Prod.Lex.toLex_lt_toLex]

end Date

/-! ## Counting days -/

theorem daysBeforeMonth_succ {y m : Nat} (h : 1 ≤ m) :
    daysBeforeMonth y (m + 1) = daysBeforeMonth y m + daysInMonth y m := by
  obtain ⟨k, rfl⟩ : ∃ k, m = k + 1 := ⟨m - 1, by omega⟩
  rfl

theorem daysBeforeMonth_thirteen (y : Nat) :
    daysBeforeMonth y 13 = if isLeap y then 366 else 365 := by
  cases h : isLeap y <;> simp [daysBeforeMonth, daysInMonth, h]

theorem daysBeforeYear_succ {y : Nat} (h : 1 ≤ y) :
    daysBeforeYear (y + 1) = daysBeforeYear y + daysBeforeMonth y 13 := by
  obtain ⟨z, rfl⟩ : ∃ z, y = z + 1 := ⟨y - 1, by omega⟩
  -- a century is among the fourth years
  have hcentury : z / 100 ≤ z / 4 := Nat.div_le_div_left (by omega) (by omega)
  have hleap : isLeap (z + 1) = true ↔ 4 ∣ z + 1 ∧ (¬ 100 ∣ z + 1 ∨ 400 ∣ z + 1) := by
    simp [isLeap, Nat.dvd_iff_mod_eq_zero]
  have h100 : 100 ∣ z + 1 → 4 ∣ z + 1 := fun h => Nat.dvd_trans (by decide) h
  have h400 : 400 ∣ z + 1 → 100 ∣ z + 1 := fun h => Nat.dvd_trans (by decide) h
  rw [daysBeforeMonth_thirteen, daysBeforeYear, daysBeforeYear, Nat.add_sub_cancel,
    Nat.add_sub_cancel, @Nat.succ_div z 4, @Nat.succ_div z 100, @Nat.succ_div z 400]
  by_cases hfour : 4 ∣ z + 1
  · by_cases hhundred : 100 ∣ z + 1
    · by_cases hfourhundred : 400 ∣ z + 1 <;> simp [hleap, hfour, hhundred, hfourhundred] <;>
        omega
    · have hnot := mt h400 hhundred
      simp [hleap, hfour, hhundred, hnot]
      omega
  · have hhundred := mt h100 hfour
    have hnot := mt h400 hhundred
    simp [hleap, hfour, hhundred, hnot]
    omega

theorem daysBeforeYear_le {y y' : Nat} (h : y ≤ y') : daysBeforeYear y ≤ daysBeforeYear y' := by
  induction h with
  | refl => exact Nat.le_refl _
  | @step k hle ih =>
      apply Nat.le_trans ih
      cases k with
      | zero => exact Nat.le_refl _
      | succ k =>
          rw [daysBeforeYear_succ (Nat.succ_pos k)]
          exact Nat.le_add_right _ _

/-- A month ends before a later one begins. -/
theorem daysBeforeMonth_add_le {y m m' : Nat} (hm : 1 ≤ m) (h : m < m') :
    daysBeforeMonth y m + daysInMonth y m ≤ daysBeforeMonth y m' := by
  induction m' with
  | zero => omega
  | succ k ih =>
      rw [daysBeforeMonth_succ (by omega)]
      rcases Nat.lt_succ_iff_lt_or_eq.mp h with hlt | rfl
      · have hle := ih hlt
        omega
      · exact Nat.le_refl _

namespace Date

/-- The day of the year is within the year. -/
theorem ordinal_le (d : Date) : d.ordinal ≤ daysBeforeYear (d.year + 1) := by
  have hmonth := @daysBeforeMonth_add_le d.year d.month 13 d.month_mem.1
    (Nat.lt_succ_of_le d.month_mem.2)
  have hday := d.day_mem.2
  rw [ordinal, daysBeforeYear_succ d.year_mem.1]
  omega

theorem lt_ordinal (d : Date) : daysBeforeYear d.year < d.ordinal := by
  have hday := d.day_mem.1
  unfold ordinal
  omega

theorem ordinal_strictMono : StrictMono ordinal := by
  intro d e h
  rcases lt_iff.mp h with hyear | ⟨hyear, hmonth | ⟨hmonth, hday⟩⟩
  · have hbefore := @daysBeforeYear_le (d.year + 1) e.year hyear
    have hd := d.ordinal_le
    have he := e.lt_ordinal
    omega
  · have hbefore := @daysBeforeMonth_add_le d.year d.month e.month d.month_mem.1 hmonth
    have hd := d.day_mem.2
    have he := e.day_mem.1
    unfold ordinal
    rw [← hyear]
    omega
  · unfold ordinal
    rw [← hyear, ← hmonth]
    omega

theorem ordinal_lt_iff {d e : Date} : d.ordinal < e.ordinal ↔ d < e :=
  ordinal_strictMono.lt_iff_lt

theorem ordinal_le_iff {d e : Date} : d.ordinal ≤ e.ordinal ↔ d ≤ e :=
  ordinal_strictMono.le_iff_le

theorem ordinal_addDay {d e : Date} (h : d.addDay = some e) : e.ordinal = d.ordinal + 1 := by
  have hlast := d.day_mem.2
  unfold addDay at h
  split at h
  · cases h
    simp only [ordinal]
    omega
  split at h
  · -- the last day of a month
    rename_i hday _
    cases h
    simp only [ordinal, daysBeforeMonth_succ d.month_mem.1]
    omega
  split at h
  · -- the last day of a year
    rename_i hday hmonth _
    cases h
    have hdecember : d.month = 12 := by
      have hle := d.month_mem.2
      omega
    have hyear : daysBeforeMonth d.year 13 = daysBeforeMonth d.year 12 + daysInMonth d.year 12 :=
      daysBeforeMonth_succ (by omega)
    have hjanuary : daysBeforeMonth (d.year + 1) 1 = 0 := rfl
    rw [hdecember] at hday hlast
    simp only [ordinal, daysBeforeYear_succ d.year_mem.1, hyear, hjanuary, hdecember]
    omega
  · cases h

theorem addDay_eq_none_iff {d : Date} : d.addDay = none ↔ d = max := by
  constructor
  · intro h
    unfold addDay at h
    split at h
    · cases h
    split at h
    · cases h
    split at h
    · cases h
    · rename_i hday hmonth hyear
      have hy : d.year = 9999 := by
        have := d.year_mem.2
        omega
      have hm : d.month = 12 := by
        have := d.month_mem.2
        omega
      have hlast := d.day_mem.2
      rw [hy, hm] at hday hlast
      have hlength : daysInMonth 9999 12 = 31 := by decide
      exact ext_ymd hy hm (show d.day = 31 by omega)
  · rintro rfl
    decide

theorem le_max (d : Date) : d ≤ max := by
  rw [← not_lt, lt_iff]
  have hy := d.year_mem.2
  have hm := d.month_mem.2
  have hd := d.day_mem.2
  rintro (hyear | ⟨hyear, hmonth | ⟨hmonth, hday⟩⟩)
  · exact absurd hyear (by show ¬ 9999 < d.year; omega)
  · exact absurd hmonth (by show ¬ 12 < d.month; omega)
  · rw [← hyear, ← hmonth] at hd
    have hlength : daysInMonth 9999 12 = 31 := by decide
    exact absurd hday (by show ¬ 31 < d.day; exact Nat.not_lt.mpr (hlength ▸ hd))

/-- Every number from 1 to that of the last date is the number of a date. -/
theorem exists_ordinal : ∀ n, n + 1 ≤ max.ordinal → ∃ d : Date, d.ordinal = n + 1 := by
  intro n
  induction n with
  | zero =>
      intro _
      exact ⟨⟨1, 1, 1, by decide, by decide, by decide⟩, rfl⟩
  | succ n ih =>
      intro hn
      obtain ⟨d, hd⟩ := ih (by omega)
      cases hnext : d.addDay with
      | none =>
          rw [addDay_eq_none_iff.mp hnext] at hd
          omega
      | some e => exact ⟨e, by rw [ordinal_addDay hnext, hd]⟩

end Date

/-! ## Digits -/

def digit (v : Nat) : Char := Char.ofNat (48 + v)

def digit? (c : Char) : Option Nat :=
  if 48 ≤ c.toNat ∧ c.toNat ≤ 57 then some (c.toNat - 48) else none

/-- The last `k` digits of a number, with leading zeros. -/
def pad : Nat → Nat → List Char
  | 0, _ => []
  | k + 1, n => digit (n / 10 ^ k % 10) :: pad k n

/-- Read `k` digits, and what follows them. -/
def parseDigits : Nat → Nat → List Char → Option (Nat × List Char)
  | 0, acc, cs => some (acc, cs)
  | _ + 1, _, [] => none
  | k + 1, acc, c :: cs => (digit? c).bind fun v => parseDigits k (acc * 10 + v) cs

theorem digit?_digit {v : Nat} (h : v < 10) : digit? (digit v) = some v := by
  have hall : ∀ v : Fin 10, digit? (digit v) = some v.val := by decide
  exact hall ⟨v, h⟩

@[simp] theorem length_pad (k n : Nat) : (pad k n).length = k := by
  induction k with
  | zero => rfl
  | succ k ih => rw [pad, List.length_cons, ih]

theorem utf8Size_pad (k n : Nat) : ∀ c ∈ pad k n, c.utf8Size = 1 := by
  have hall : ∀ v : Fin 10, (digit v).utf8Size = 1 := by decide
  induction k with
  | zero => exact List.forall_mem_nil _
  | succ k ih =>
      exact List.forall_mem_cons.mpr ⟨hall ⟨n / 10 ^ k % 10, Nat.mod_lt _ (by decide)⟩, ih⟩

/-- A string of ASCII characters has as many bytes. -/
theorem utf8ByteSize_ofList {cs : List Char} (h : ∀ c ∈ cs, c.utf8Size = 1) :
    (String.ofList cs).utf8ByteSize = cs.length := by
  induction cs with
  | nil => rfl
  | cons c cs ih =>
      obtain ⟨hc, hcs⟩ := List.forall_mem_cons.mp h
      rw [String.ofList_cons, String.utf8ByteSize_append, String.utf8ByteSize_singleton, hc,
        ih hcs, List.length_cons, Nat.add_comm]

theorem parseDigits_pad (k n acc : Nat) (rest : List Char) :
    parseDigits k acc (pad k n ++ rest) = some (acc * 10 ^ k + n % 10 ^ k, rest) := by
  induction k generalizing acc with
  | zero => simp [pad, parseDigits, Nat.mod_one]
  | succ k ih =>
      have hdigit : n / 10 ^ k % 10 < 10 := Nat.mod_lt _ (by omega)
      rw [pad, List.cons_append, parseDigits, digit?_digit hdigit, Option.bind_some, ih,
        Nat.mod_pow_succ]
      congr 2
      ring

/-- A number of that many digits reads back. -/
theorem parseDigits_pad_of_lt {k n : Nat} (h : n < 10 ^ k) (rest : List Char) :
    parseDigits k 0 (pad k n ++ rest) = some (n, rest) := by
  rw [parseDigits_pad, Nat.mod_eq_of_lt h, Nat.zero_mul, Nat.zero_add]

/-- Numbers of that many digits are told apart by them. -/
theorem pad_inj {k m n : Nat} (hm : m < 10 ^ k) (hn : n < 10 ^ k) (h : pad k m = pad k n) :
    m = n := by
  have hparse := parseDigits_pad_of_lt hm []
  rw [h, parseDigits_pad_of_lt hn] at hparse
  exact (Prod.mk.inj (Option.some.inj hparse)).1.symm

/-! ## Weeks -/

/-- The year, month and day of a day's number. -/
def ordToYmd (ordinal : Nat) : Nat × Nat × Nat :=
  let n := ordinal - 1
  let n400 := n / 146097
  let n := n % 146097
  let n100 := n / 36524
  let n := n % 36524
  let n4 := n / 1461
  let n := n % 1461
  let n1 := n / 365
  let n := n % 365
  let year := n400 * 400 + 1 + n100 * 100 + n4 * 4 + n1
  if n1 = 4 ∨ n100 = 4 then (year - 1, 12, 31)
  else
    let month := (n + 50) / 32
    let month := if daysBeforeMonth year month > n then month - 1 else month
    (year, month, n - daysBeforeMonth year month + 1)

/-- The year, month and day of an ISO week date, `none` where there is none. -/
def isoToYmd (isoYear isoWeek isoDay : Nat) : Option (Nat × Nat × Nat) :=
  let firstDay := daysBeforeYear isoYear + 1
  let firstWeekday := (firstDay + 6) % 7
  let long := firstWeekday = 3 ∨ firstWeekday = 2 ∧ isLeap isoYear
  if isoYear < 1 ∨ 9999 < isoYear then none
  else if isoWeek < 1 ∨ 53 < isoWeek ∨ isoWeek = 53 ∧ ¬ long then none
  else if isoDay < 1 ∨ 7 < isoDay then none
  else
    let week1Monday := firstDay - firstWeekday + if firstWeekday > 3 then 7 else 0
    some (ordToYmd (week1Monday + (isoWeek - 1) * 7 + (isoDay - 1)))

/-! ## ISO 8601 -/

/-- Where the string has separators, one is skipped. -/
def skipSeparator (usesSeparator : Bool) (cs : List Char) : Option (List Char) :=
  if usesSeparator then if cs.head? = some '-' then some cs.tail else none else some cs

/-- The year, month and day that a string of one of the right lengths names. -/
def parseIsoformatDate (cs : List Char) : Option (Nat × Nat × Nat) := do
  let (year, cs) ← parseDigits 4 0 cs
  let usesSeparator := decide (cs.head? = some '-')
  let cs := if usesSeparator then cs.tail else cs
  if cs.head? = some 'W' then
    let (isoWeek, cs) ← parseDigits 2 0 cs.tail
    if cs = [] then isoToYmd year isoWeek 1
    else
      let cs ← skipSeparator usesSeparator cs
      let (isoDay, _) ← parseDigits 1 0 cs
      isoToYmd year isoWeek isoDay
  else
    let (month, cs) ← parseDigits 2 0 cs
    let cs ← skipSeparator usesSeparator cs
    let (day, _) ← parseDigits 2 0 cs
    return (year, month, day)

namespace Date

/-- The characters of `isoformat()`. -/
def isoChars (d : Date) : List Char :=
  pad 4 d.year ++ '-' :: (pad 2 d.month ++ '-' :: pad 2 d.day)

/-- `isoformat()` -/
def isoformat (d : Date) : String := String.ofList d.isoChars

/-- `date.fromisoformat(s)`, `none` where it raises. The length that is tested is that of
the UTF-8 bytes; what follows the last digit read is not. -/
def fromIsoformat (s : String) : Option Date :=
  if s.utf8ByteSize ∈ [7, 8, 10] then
    (parseIsoformatDate s.toList).bind fun (year, month, day) => ofYmd year month day
  else none

@[simp] theorem length_isoChars (d : Date) : d.isoChars.length = 10 := by
  simp [isoChars]

theorem utf8ByteSize_isoformat (d : Date) : d.isoformat.utf8ByteSize = 10 := by
  have hascii : ∀ c ∈ d.isoChars, c.utf8Size = 1 := by
    have hmark : Char.utf8Size '-' = 1 := rfl
    simp only [isoChars, List.forall_mem_append, List.forall_mem_cons]
    exact ⟨utf8Size_pad 4 _, hmark, utf8Size_pad 2 _, hmark, utf8Size_pad 2 _⟩
  rw [isoformat, utf8ByteSize_ofList hascii, length_isoChars]

theorem day_lt (d : Date) : d.day < 10 ^ 2 := by
  have hle := d.day_mem.2
  unfold daysInMonth at hle
  split at hle
  · split at hle <;> omega
  · split at hle <;> omega

/-- The string of a month does not begin with the mark of a week. -/
theorem head?_pad_ne (d : Date) (rest : List Char) :
    (pad 2 d.month ++ rest).head? ≠ some 'W' := by
  have hall : ∀ v : Fin 10, digit v ≠ 'W' := by decide
  intro h
  exact hall ⟨d.month / 10 % 10, Nat.mod_lt _ (by omega)⟩ (Option.some.inj h)

theorem parseIsoformatDate_isoChars (d : Date) :
    parseIsoformatDate d.isoChars = some (d.year, d.month, d.day) := by
  have hyear := @parseDigits_pad_of_lt 4 d.year (Nat.lt_succ_of_le d.year_mem.2)
  have hmonth := @parseDigits_pad_of_lt 2 d.month (Nat.lt_of_le_of_lt d.month_mem.2 (by decide))
  have hday : parseDigits 2 0 (pad 2 d.day) = some (d.day, []) := by
    have hpad := parseDigits_pad_of_lt d.day_lt []
    rwa [List.append_nil] at hpad
  have hweek := d.head?_pad_ne ('-' :: pad 2 d.day)
  simp only [parseIsoformatDate, isoChars, hyear, Option.bind_eq_bind, Option.bind_some,
    List.head?_cons, decide_true, if_true, List.tail_cons, if_neg hweek, hmonth, skipSeparator,
    hday]
  rfl

/-- The string of a date reads back as the date. -/
theorem fromIsoformat_isoformat (d : Date) : fromIsoformat d.isoformat = some d := by
  rw [fromIsoformat, utf8ByteSize_isoformat, if_pos (by decide), isoformat,
    String.toList_ofList, parseIsoformatDate_isoChars, Option.bind_some]
  exact d.ofYmd_self

theorem isoChars_injective : Function.Injective isoChars := by
  intro d e h
  have hd := parseIsoformatDate_isoChars d
  rw [h, parseIsoformatDate_isoChars] at hd
  obtain ⟨hy, hmd⟩ := Prod.mk.inj (Option.some.inj hd)
  obtain ⟨hm, hday⟩ := Prod.mk.inj hmd
  exact ext_ymd hy.symm hm.symm hday.symm

end Date

/-- A week date and its calendar date: the first Monday's week of 2026. -/
example : (Date.fromIsoformat "2026-W01-1").map Date.isoformat = some "2025-12-29" := by
  decide +kernel

/-- Ten bytes, the last two of which are not read. -/
example : (Date.fromIsoformat "2026W171é").map Date.isoformat = some "2026-04-20" := by
  decide +kernel

end Lib.Calendar
