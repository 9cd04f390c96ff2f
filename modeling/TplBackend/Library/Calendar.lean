import Mathlib.Algebra.Order.Ring.Nat
import Mathlib.Tactic.Tauto

/-! The proleptic Gregorian calendar of the years 1 to 9999 and instants in microseconds. -/

namespace Calendar

def isLeap (year : Nat) : Bool := year % 4 = 0 ∧ (year % 100 ≠ 0 ∨ year % 400 = 0)

def monthLength (leap : Bool) (month : Nat) : Nat :=
  if month = 2 then if leap then 29 else 28
  else if month = 4 ∨ month = 6 ∨ month = 9 ∨ month = 11 then 30
  else 31

def yearLength (leap : Bool) : Nat := if leap then 366 else 365

theorem monthLength_le (leap : Bool) (month : Nat) : monthLength leap month ≤ 31 := by
  unfold monthLength
  split
  · split <;> decide
  · split <;> decide

def daysBeforeYear (year : Nat) : Nat :=
  (year - 1) * 365 + (year - 1) / 4 - (year - 1) / 100 + (year - 1) / 400

def daysBeforeMonth (leap : Bool) (month : Nat) : Nat :=
  [0, 0, 31, 59, 90, 120, 151, 181, 212, 243, 273, 304, 334].getD month 365 +
    if leap ∧ 2 < month then 1 else 0

structure Date where
  year : Nat
  month : Nat
  day : Nat
  year_pos : 1 ≤ year
  year_le : year ≤ 9999
  month_pos : 1 ≤ month
  month_le : month ≤ 12
  day_pos : 1 ≤ day
  day_le : day ≤ monthLength (isLeap year) month

/-- The number of a day; the first of January of the year 1 is day 1. -/
def Date.ordinal (date : Date) : Nat :=
  daysBeforeYear date.year + daysBeforeMonth (isLeap date.year) date.month + date.day

def monthOf (leap : Bool) (n : Nat) : Nat × Nat :=
  let month := (n + 50) / 32
  if n < daysBeforeMonth leap month then (month - 1, n - daysBeforeMonth leap (month - 1) + 1)
  else (month, n - daysBeforeMonth leap month + 1)

def yearOf (n : Nat) : Nat × Nat :=
  let n400 := n / 146097
  let rest400 := n % 146097
  let n100 := rest400 / 36524
  let rest100 := rest400 % 36524
  let n4 := rest100 / 1461
  let rest4 := rest100 % 1461
  let n1 := rest4 / 365
  let year := n400 * 400 + 1 + n100 * 100 + n4 * 4 + n1
  if n1 = 4 ∨ n100 = 4 then (year - 1, 365) else (year, rest4 % 365)

theorem isLeap_iff (year : Nat) :
    isLeap year = true ↔ year % 4 = 0 ∧ (year % 100 ≠ 0 ∨ year % 400 = 0) := by
  simp [isLeap]

section Parts

/- A year in whole cycles of 400 years, centuries, leap periods and years. -/
variable {year a b c d : Nat} (parts : year = 400 * a + 100 * b + 4 * c + d + 1)
  (hb : b < 4) (hc : c < 25) (hd : d < 4)

include parts hb hc hd

theorem daysBeforeYear_parts :
    daysBeforeYear year = 146097 * a + 36524 * b + 1461 * c + 365 * d := by
  have fours : (year - 1) / 4 = 100 * a + 25 * b + c := by omega
  have centuries : (year - 1) / 100 = 4 * a + b := by omega
  have cycles : (year - 1) / 400 = a := by omega
  rw [daysBeforeYear, fours, centuries, cycles]
  omega

theorem isLeap_parts : isLeap year = true ↔ d = 3 ∧ (c ≠ 24 ∨ b = 3) := by
  have fours : year % 4 = 0 ↔ d = 3 := by omega
  have centuries : year % 100 = 0 ↔ c = 24 ∧ d = 3 := by omega
  have cycles : year % 400 = 0 ↔ b = 3 ∧ c = 24 ∧ d = 3 := by omega
  rw [isLeap_iff, fours, ne_eq, centuries, cycles]
  tauto

theorem yearLength_parts :
    yearLength (isLeap year) = if d = 3 ∧ (c ≠ 24 ∨ b = 3) then 366 else 365 := by
  simp only [yearLength, isLeap_parts parts hb hc hd]

end Parts

theorem daysBeforeYear_succ {year : Nat} (pos : 1 ≤ year) :
    daysBeforeYear (year + 1) = daysBeforeYear year + yearLength (isLeap year) := by
  obtain ⟨a, b, c, d, hb, hc, hd, parts⟩ : ∃ a b c d, b < 4 ∧ c < 25 ∧ d < 4 ∧
      year = 400 * a + 100 * b + 4 * c + d + 1 :=
    ⟨(year - 1) / 400, (year - 1) % 400 / 100, (year - 1) % 100 / 4, (year - 1) % 4, by omega⟩
  rw [daysBeforeYear_parts parts hb hc hd, yearLength_parts parts hb hc hd]
  -- the year after the last one of a period is the first of the next period
  by_cases last : d = 3
  · by_cases period : c = 24
    · by_cases century : b = 3
      · have next : daysBeforeYear (year + 1) = _ := daysBeforeYear_parts (a := a + 1) (b := 0)
          (c := 0) (d := 0) (by omega) (by omega) (by omega) (by omega)
        rw [next, if_pos ⟨last, .inr century⟩]
        omega
      · have next : daysBeforeYear (year + 1) = _ := daysBeforeYear_parts (a := a) (b := b + 1)
          (c := 0) (d := 0) (by omega) (by omega) (by omega) (by omega)
        rw [next, if_neg (by omega)]
        omega
    · have next : daysBeforeYear (year + 1) = _ := daysBeforeYear_parts (a := a) (b := b)
        (c := c + 1) (d := 0) (by omega) (by omega) (by omega) (by omega)
      rw [next, if_pos ⟨last, .inl period⟩]
      omega
  · have next : daysBeforeYear (year + 1) = _ := daysBeforeYear_parts (a := a) (b := b)
      (c := c) (d := d + 1) (by omega) (by omega) (by omega) (by omega)
    rw [next, if_neg (by omega)]
    omega

theorem yearOf_spec (n : Nat) :
    1 ≤ (yearOf n).1 ∧ (yearOf n).2 < yearLength (isLeap (yearOf n).1) ∧
      daysBeforeYear (yearOf n).1 + (yearOf n).2 = n := by
  obtain ⟨a, rest400, ha, small400, whole⟩ : ∃ a rest, n / 146097 = a ∧ rest < 146097 ∧
      n % 146097 = rest := ⟨_, _, rfl, Nat.mod_lt _ (by omega), rfl⟩
  obtain ⟨b, rest100, hb, small100, whole100⟩ : ∃ b rest, rest400 / 36524 = b ∧ rest < 36524 ∧
      rest400 % 36524 = rest := ⟨_, _, rfl, Nat.mod_lt _ (by omega), rfl⟩
  obtain ⟨c, rest4, hc, small4, whole4⟩ : ∃ c rest, rest100 / 1461 = c ∧ rest < 1461 ∧
      rest100 % 1461 = rest := ⟨_, _, rfl, Nat.mod_lt _ (by omega), rfl⟩
  obtain ⟨d, rest, hd, small, whole1⟩ : ∃ d rest, rest4 / 365 = d ∧ rest < 365 ∧
      rest4 % 365 = rest := ⟨_, _, rfl, Nat.mod_lt _ (by omega), rfl⟩
  have shape : yearOf n = if d = 4 ∨ b = 4 then (a * 400 + 1 + b * 100 + c * 4 + d - 1, 365)
      else (a * 400 + 1 + b * 100 + c * 4 + d, rest) := by
    simp only [yearOf, ha, whole, hb, whole100, hc, whole4, hd, whole1]
  rw [shape]
  by_cases special : d = 4 ∨ b = 4
  · rw [if_pos special]
    -- the last day of a leap period or of a cycle closes a leap year
    rcases special with period | cycle
    · have parts : a * 400 + 1 + b * 100 + c * 4 + d - 1 = 400 * a + 100 * b + 4 * c + 3 + 1 := by
        omega
      have long : (3 : Nat) = 3 ∧ (c ≠ 24 ∨ b = 3) := by omega
      rw [daysBeforeYear_parts parts (by omega) (by omega) (by omega),
        yearLength_parts parts (by omega) (by omega) (by omega), if_pos long]
      refine ⟨by omega, by omega, by omega⟩
    · have parts : a * 400 + 1 + b * 100 + c * 4 + d - 1 =
          400 * a + 100 * 3 + 4 * 24 + 3 + 1 := by omega
      rw [daysBeforeYear_parts (b := 3) (c := 24) (d := 3) parts (by omega) (by omega) (by omega),
        yearLength_parts (b := 3) (c := 24) (d := 3) parts (by omega) (by omega) (by omega),
        if_pos ⟨rfl, .inr rfl⟩]
      refine ⟨by omega, by omega, by omega⟩
  · rw [if_neg special]
    have parts : a * 400 + 1 + b * 100 + c * 4 + d = 400 * a + 100 * b + 4 * c + d + 1 := by omega
    rw [daysBeforeYear_parts parts (by omega) (by omega) (by omega),
      yearLength_parts parts (by omega) (by omega) (by omega)]
    refine ⟨by omega, ?_, by omega⟩
    split <;> omega

theorem monthOf_spec (leap : Bool) {n : Nat} (small : n < yearLength leap) :
    1 ≤ (monthOf leap n).1 ∧ (monthOf leap n).1 ≤ 12 ∧ 1 ≤ (monthOf leap n).2 ∧
      (monthOf leap n).2 ≤ monthLength leap (monthOf leap n).1 ∧
      daysBeforeMonth leap (monthOf leap n).1 + (monthOf leap n).2 = n + 1 := by
  have table : ∀ (leap : Bool) (n : Fin 366), n.1 < yearLength leap →
      1 ≤ (monthOf leap n).1 ∧ (monthOf leap n).1 ≤ 12 ∧ 1 ≤ (monthOf leap n).2 ∧
        (monthOf leap n).2 ≤ monthLength leap (monthOf leap n).1 ∧
        daysBeforeMonth leap (monthOf leap n).1 + (monthOf leap n).2 = n + 1 := by decide +kernel
  have within : n < 366 := by
    unfold yearLength at small
    split at small <;> omega
  exact table leap ⟨n, within⟩ small

theorem daysBeforeYear_le {year year' : Nat} (pos : 1 ≤ year) (later : year < year') :
    daysBeforeYear year + yearLength (isLeap year) ≤ daysBeforeYear year' := by
  induction later with
  | refl => rw [daysBeforeYear_succ pos]
  | @step next later ih =>
      rw [daysBeforeYear_succ (Nat.le_trans pos (Nat.le_of_succ_le later))]
      exact Nat.le_add_right_of_le ih

theorem daysBeforeMonth_le (leap : Bool) {month month' : Nat} (pos : 1 ≤ month)
    (later : month < month') (last : month' ≤ 13) :
    daysBeforeMonth leap month + monthLength leap month ≤ daysBeforeMonth leap month' := by
  have table : ∀ (leap : Bool) (month month' : Fin 14), 1 ≤ month.1 → month.1 < month'.1 →
      daysBeforeMonth leap month + monthLength leap month ≤ daysBeforeMonth leap month' := by
    decide +kernel
  exact table leap ⟨month, by omega⟩ ⟨month', by omega⟩ pos later

namespace Date

variable (date : Date)

def dayOfYear : Nat := daysBeforeMonth (isLeap date.year) date.month + date.day

theorem ordinal_eq : date.ordinal = daysBeforeYear date.year + date.dayOfYear := by
  rw [ordinal, dayOfYear, Nat.add_assoc]

theorem dayOfYear_pos : 1 ≤ date.dayOfYear := Nat.le_add_left_of_le date.day_pos

theorem dayOfYear_le : date.dayOfYear ≤ yearLength (isLeap date.year) := by
  have whole : daysBeforeMonth (isLeap date.year) 13 = yearLength (isLeap date.year) := by
    generalize isLeap date.year = leap
    cases leap <;> rfl
  have inside : _ ≤ daysBeforeMonth (isLeap date.year) 13 :=
    daysBeforeMonth_le _ date.month_pos (Nat.lt_succ_of_le date.month_le) (Nat.le_refl _)
  have day := date.day_le
  rw [dayOfYear]
  omega

theorem ordinal_lt_of_year {first second : Date} (earlier : first.year < second.year) :
    first.ordinal < second.ordinal := by
  have years := daysBeforeYear_le first.year_pos earlier
  have before := first.dayOfYear_le
  have after := second.dayOfYear_pos
  rw [ordinal_eq, ordinal_eq]
  omega

theorem ordinal_lt_of_month {first second : Date} (year : first.year = second.year)
    (earlier : first.month < second.month) : first.ordinal < second.ordinal := by
  have months := daysBeforeMonth_le (isLeap first.year) first.month_pos earlier
    (Nat.le_succ_of_le second.month_le)
  have before := first.day_le
  have after := second.day_pos
  rw [ordinal, ordinal, ← year]
  omega

theorem ordinal_lt_iff (first second : Date) : first.ordinal < second.ordinal ↔
    first.year < second.year ∨ first.year = second.year ∧
      (first.month < second.month ∨ first.month = second.month ∧ first.day < second.day) := by
  rcases Nat.lt_trichotomy first.year second.year with earlier | year | later
  · exact iff_of_true (ordinal_lt_of_year earlier) (.inl earlier)
  · rcases Nat.lt_trichotomy first.month second.month with earlier | month | later
    · exact iff_of_true (ordinal_lt_of_month year earlier) (.inr ⟨year, .inl earlier⟩)
    · rw [ordinal, ordinal, year, month]
      simp
    · have reverse := ordinal_lt_of_month year.symm later
      omega
  · have reverse := ordinal_lt_of_year later
    omega

@[ext] theorem ext {first second : Date} (year : first.year = second.year)
    (month : first.month = second.month) (day : first.day = second.day) : first = second := by
  cases first
  cases second
  simp_all

theorem ordinal_inj {first second : Date} : first.ordinal = second.ordinal ↔ first = second := by
  refine ⟨fun same => ?_, fun same => by rw [same]⟩
  have before := ordinal_lt_iff first second
  have after := ordinal_lt_iff second first
  ext <;> omega

/-- `date(year, month, day)`; `none` where it raises. -/
def ofFields (year month day : Nat) : Option Date :=
  if range : (1 ≤ year ∧ year ≤ 9999) ∧ (1 ≤ month ∧ month ≤ 12) ∧
      1 ≤ day ∧ day ≤ monthLength (isLeap year) month then
    some ⟨year, month, day, range.1.1, range.1.2, range.2.1.1, range.2.1.2, range.2.2.1, range.2.2.2⟩
  else none

theorem ofFields_self : ofFields date.year date.month date.day = some date :=
  dif_pos ⟨⟨date.year_pos, date.year_le⟩, ⟨date.month_pos, date.month_le⟩, date.day_pos, date.day_le⟩

def limit : Nat := 3652060

theorem ordinal_pos : 1 ≤ date.ordinal := by
  rw [ordinal_eq]
  exact Nat.le_add_left_of_le date.dayOfYear_pos

theorem ordinal_lt_limit : date.ordinal < limit := by
  have years : daysBeforeYear date.year + yearLength (isLeap date.year) ≤ daysBeforeYear 10000 :=
    daysBeforeYear_le date.year_pos (Nat.lt_succ_of_le date.year_le)
  have day := date.dayOfYear_le
  have last : daysBeforeYear 10000 = 3652059 := rfl
  rw [ordinal_eq, limit]
  omega

theorem yearOf_le {n : Nat} (small : n + 1 < limit) : (yearOf n).1 ≤ 9999 := by
  obtain ⟨_, _, whole⟩ := yearOf_spec n
  by_contra late
  have years : daysBeforeYear 9999 + 365 ≤ daysBeforeYear (yearOf n).1 :=
    daysBeforeYear_le (by decide) (Nat.lt_of_not_le late)
  have last : daysBeforeYear 9999 = 3651694 := rfl
  rw [limit] at small
  omega

def ofDay (n : Nat) (small : n + 1 < limit) : Date where
  year := (yearOf n).1
  month := (monthOf (isLeap (yearOf n).1) (yearOf n).2).1
  day := (monthOf (isLeap (yearOf n).1) (yearOf n).2).2
  year_pos := (yearOf_spec n).1
  year_le := yearOf_le small
  month_pos := (monthOf_spec _ (yearOf_spec n).2.1).1
  month_le := (monthOf_spec _ (yearOf_spec n).2.1).2.1
  day_pos := (monthOf_spec _ (yearOf_spec n).2.1).2.2.1
  day_le := (monthOf_spec _ (yearOf_spec n).2.1).2.2.2.1

theorem ordinal_ofDay {n : Nat} (small : n + 1 < limit) : (ofDay n small).ordinal = n + 1 := by
  obtain ⟨_, short, whole⟩ := yearOf_spec n
  obtain ⟨_, _, _, _, day⟩ := monthOf_spec _ short
  rw [ordinal_eq, dayOfYear]
  simp only [ofDay]
  omega

theorem day_lt {n : Int} (range : 1 ≤ n ∧ n < limit) : n.toNat - 1 + 1 < limit := by
  unfold limit at range ⊢
  omega

/-- `date.fromordinal`; `none` where it raises. -/
def fromOrdinal (n : Int) : Option Date :=
  if range : 1 ≤ n ∧ n < limit then some (ofDay (n.toNat - 1) (day_lt range)) else none

theorem fromOrdinal_eq_some {n : Int} {date : Date} :
    fromOrdinal n = some date ↔ date.ordinal = n := by
  have low := date.ordinal_pos
  have high := date.ordinal_lt_limit
  unfold fromOrdinal
  split
  · rename_i range
    rw [Option.some.injEq, ← ordinal_inj, ordinal_ofDay]
    omega
  · rename_i range
    simp only [reduceCtorEq, false_iff]
    omega

end Date

structure Time where
  hour : Nat
  minute : Nat
  second : Nat
  microsecond : Nat
  hour_lt : hour < 24
  minute_lt : minute < 60
  second_lt : second < 60
  microsecond_lt : microsecond < 1000000

namespace Time

def micros (time : Time) : Nat :=
  ((time.hour * 60 + time.minute) * 60 + time.second) * 1000000 + time.microsecond

def microsPerDay : Nat := 86400000000

def ofMicros (n : Nat) (small : n < microsPerDay) : Time where
  hour := n / 3600000000
  minute := n / 60000000 % 60
  second := n / 1000000 % 60
  microsecond := n % 1000000
  hour_lt := Nat.div_lt_of_lt_mul small
  minute_lt := Nat.mod_lt _ (Nat.succ_pos 59)
  second_lt := Nat.mod_lt _ (Nat.succ_pos 59)
  microsecond_lt := Nat.mod_lt _ (Nat.succ_pos 999999)

/-- `time(hour, minute, second, microsecond)`; `none` where it raises. -/
def ofFields (hour minute second microsecond : Nat) : Option Time :=
  if range : hour < 24 ∧ minute < 60 ∧ second < 60 ∧ microsecond < 1000000 then
    some ⟨hour, minute, second, microsecond, range.1, range.2.1, range.2.2.1, range.2.2.2⟩
  else none

theorem ofFields_self (time : Time) :
    ofFields time.hour time.minute time.second time.microsecond = some time :=
  dif_pos ⟨time.hour_lt, time.minute_lt, time.second_lt, time.microsecond_lt⟩

theorem micros_lt (time : Time) : time.micros < microsPerDay := by
  have hour := time.hour_lt
  have minute := time.minute_lt
  have second := time.second_lt
  have microsecond := time.microsecond_lt
  unfold micros microsPerDay
  omega

theorem micros_ofMicros {n : Nat} (small : n < microsPerDay) : (ofMicros n small).micros = n := by
  simp only [micros, ofMicros]
  omega

theorem micros_lt_iff (first second : Time) : first.micros < second.micros ↔
    first.hour < second.hour ∨ first.hour = second.hour ∧
      (first.minute < second.minute ∨ first.minute = second.minute ∧
        (first.second < second.second ∨ first.second = second.second ∧
          first.microsecond < second.microsecond)) := by
  have minute := first.minute_lt
  have minute' := second.minute_lt
  have second_ := first.second_lt
  have second' := second.second_lt
  have microsecond := first.microsecond_lt
  have microsecond' := second.microsecond_lt
  unfold micros
  omega

@[ext] theorem ext {first second : Time} (hour : first.hour = second.hour)
    (minute : first.minute = second.minute) (seconds : first.second = second.second)
    (microsecond : first.microsecond = second.microsecond) : first = second := by
  cases first
  cases second
  simp_all

theorem micros_inj {first second : Time} : first.micros = second.micros ↔ first = second := by
  refine ⟨fun same => ?_, fun same => by rw [same]⟩
  have before := micros_lt_iff first second
  have after := micros_lt_iff second first
  ext <;> omega

end Time

@[ext] structure DateTime where
  date : Date
  time : Time

namespace DateTime

def epoch : Nat := 719163

/-- Microseconds since 1970-01-01T00:00:00 on the same clock. -/
def stamp (d : DateTime) : Int :=
  ((d.date.ordinal : Int) - epoch) * Time.microsPerDay + d.time.micros

theorem mod_lt_day (t : Int) : (t % Time.microsPerDay).toNat < Time.microsPerDay := by
  unfold Time.microsPerDay
  omega

/-- The date and time of a stamp; `none` beyond the years 1 to 9999. -/
def ofStamp (t : Int) : Option DateTime :=
  (Date.fromOrdinal (t / Time.microsPerDay + epoch)).map fun date =>
    ⟨date, Time.ofMicros (t % Time.microsPerDay).toNat (mod_lt_day t)⟩

theorem stamp_lt_iff (first second : DateTime) : first.stamp < second.stamp ↔
    first.date.ordinal < second.date.ordinal ∨ first.date.ordinal = second.date.ordinal ∧
      first.time.micros < second.time.micros := by
  have before := first.time.micros_lt
  have after := second.time.micros_lt
  unfold stamp
  unfold Time.microsPerDay at *
  omega

theorem stamp_inj {first second : DateTime} : first.stamp = second.stamp ↔ first = second := by
  refine ⟨fun same => ?_, fun same => by rw [same]⟩
  have before := stamp_lt_iff first second
  have after := stamp_lt_iff second first
  ext1
  · exact Date.ordinal_inj.mp (by omega)
  · exact Time.micros_inj.mp (by omega)

theorem stamp_div (d : DateTime) : d.stamp / Time.microsPerDay = d.date.ordinal - epoch := by
  have time := d.time.micros_lt
  unfold stamp
  unfold Time.microsPerDay at *
  omega

theorem stamp_mod (d : DateTime) : (d.stamp % Time.microsPerDay).toNat = d.time.micros := by
  have time := d.time.micros_lt
  unfold stamp
  unfold Time.microsPerDay at *
  omega

theorem ofStamp_eq_some {t : Int} {d : DateTime} : ofStamp t = some d ↔ d.stamp = t := by
  unfold ofStamp
  rw [Option.map_eq_some_iff]
  constructor
  · rintro ⟨date, found, rfl⟩
    rw [Date.fromOrdinal_eq_some] at found
    simp only [stamp, Time.micros_ofMicros, found]
    unfold Time.microsPerDay epoch
    omega
  · rintro rfl
    refine ⟨d.date, ?_, ?_⟩
    · rw [Date.fromOrdinal_eq_some, stamp_div]
      omega
    · ext1
      · rfl
      · rw [← Time.micros_inj, Time.micros_ofMicros, stamp_mod]

end DateTime

end Calendar
