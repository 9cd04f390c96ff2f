import TplBackend.Library.Calendar
import TplBackend.Library.Layout
import TplBackend.Outbox.Event

namespace TplBackend

open Calendar Text

/-- A timezone-aware `datetime`: what its clock shows and its `utcoffset()` in microseconds. -/
structure AwareDatetime where
  wall : DateTime
  utcoffset : Int
  utcoffset_lt : utcoffset.natAbs < Time.microsPerDay

namespace AwareDatetime

/-- The instant, in microseconds since 1970-01-01T00:00:00 UTC. -/
def instant (value : AwareDatetime) : Clock := value.wall.stamp - value.utcoffset

def utc (wall : DateTime) : AwareDatetime := ⟨wall, 0, Nat.succ_pos _⟩

/-- What the UTC clock shows in `value.astimezone(UTC)`; `none` where it raises `OverflowError`. -/
def astimezone (value : AwareDatetime) : Option DateTime :=
  DateTime.ofStamp (value.wall.stamp - value.utcoffset)

theorem astimezone_eq_some {value : AwareDatetime} {wall : DateTime} :
    value.astimezone = some wall ↔ wall.stamp = value.instant := DateTime.ofStamp_eq_some

@[simp] theorem instant_utc (wall : DateTime) : (utc wall).instant = wall.stamp := by
  simp [instant, utc]

@[simp] theorem astimezone_utc (wall : DateTime) : (utc wall).astimezone = some wall := by
  rw [astimezone_eq_some, instant_utc]

end AwareDatetime

/-- `YYYY-MM-DDTHH:MM:SS.ffffff+HH:MM`, or with the other sign of the offset. -/
def isoFields (sign : Char) : List Field :=
  [⟨[], 4⟩, ⟨['-'], 2⟩, ⟨['-'], 2⟩, ⟨['T'], 2⟩, ⟨[':'], 2⟩, ⟨[':'], 2⟩, ⟨['.'], 6⟩, ⟨[sign], 2⟩,
    ⟨[':'], 2⟩]

def isoValues (wall : DateTime) : List Nat :=
  [wall.date.year, wall.date.month, wall.date.day, wall.time.hour, wall.time.minute,
    wall.time.second, wall.time.microsecond, 0, 0]

/-- `isoformat(timespec="microseconds")` of a UTC datetime. -/
def isoformat (wall : DateTime) : String := String.ofList (render (isoFields '+') (isoValues wall))

theorem natAbs_offset_lt (west : Bool) (offset : Time) :
    (if west then -(offset.micros : Int) else offset.micros).natAbs < Time.microsPerDay := by
  have small := offset.micros_lt
  split <;> omega

/-- The datetime of a text's numbers, `west` of Greenwich or not. -/
def ofIsoValues (west : Bool) : List Nat → Option AwareDatetime
  | [year, month, day, hour, minute, second, microsecond, hours, minutes] => do
      let date ← Date.ofFields year month day
      let time ← Time.ofFields hour minute second microsecond
      let offset ← Time.ofFields hours minutes 0 0
      some ⟨⟨date, time⟩, if west then -(offset.micros : Int) else offset.micros,
        natAbs_offset_lt west offset⟩
  | _ => none

/-- `datetime.fromisoformat` on the texts of the form that `isoformat` writes. -/
def fromisoformat (text : String) : Option AwareDatetime :=
  ((scan (isoFields '+') text.toList).bind (ofIsoValues false)).or
    ((scan (isoFields '-') text.toList).bind (ofIsoValues true))

theorem isoValues_fit (wall : DateTime) : Fit (isoFields '+') (isoValues wall) := by
  have year := wall.date.year_le
  have month := wall.date.month_le
  have day := Nat.le_trans wall.date.day_le (monthLength_le _ _)
  have hour := wall.time.hour_lt
  have minute := wall.time.minute_lt
  have second := wall.time.second_lt
  have microsecond := wall.time.microsecond_lt
  simp only [Fit, isoFields, isoValues, List.forall₂_cons, List.forall₂_nil_left_iff, Nat.reducePow,
    and_true]
  omega

theorem isoValues_lt_iff (first second : DateTime) :
    isoValues first < isoValues second ↔ first.stamp < second.stamp := by
  rw [DateTime.stamp_lt_iff, Date.ordinal_lt_iff, Date.ordinal_inj, Date.ext_iff,
    Time.micros_lt_iff]
  simp only [isoValues, List.cons_lt_cons_iff, and_false, or_false, lt_irrefl]
  tauto

theorem isoformat_lt_iff (first second : DateTime) :
    isoformat first < isoformat second ↔ first.stamp < second.stamp := by
  rw [String.lt_iff, isoformat, isoformat, String.toList_ofList, String.toList_ofList,
    render_lt_iff (isoValues_fit first) (isoValues_fit second), isoValues_lt_iff]

theorem fromisoformat_isoformat (wall : DateTime) :
    fromisoformat (isoformat wall) = some (.utc wall) := by
  have midnight : Time.ofFields 0 0 0 0 = some ⟨0, 0, 0, 0, by decide, by decide, by decide,
    by decide⟩ := rfl
  have values : ofIsoValues false (isoValues wall) = some (.utc wall) := by
    simp [ofIsoValues, isoValues, Date.ofFields_self, Time.ofFields_self, midnight, Time.micros,
      AwareDatetime.utc]
  rw [fromisoformat, isoformat, String.toList_ofList, scan_render (isoValues_fit wall),
    Option.bind_some, values, Option.some_or]

theorem isoformat_inj {first second : DateTime} :
    isoformat first = isoformat second ↔ first = second := by
  refine ⟨fun same => ?_, fun same => by rw [same]⟩
  have parsed := congrArg fromisoformat same
  rw [fromisoformat_isoformat, fromisoformat_isoformat] at parsed
  exact congrArg AwareDatetime.wall (Option.some.inj parsed)

end TplBackend
