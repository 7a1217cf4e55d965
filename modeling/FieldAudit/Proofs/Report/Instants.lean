import FieldAudit.Proofs.Report.Calendar
import FieldAudit.Proofs.Report.StampForm
import FieldAudit.Report
import Mathlib.Data.String.Basic

/-!
The instant that a stamp denotes. A moment denotes a number of microseconds since the start of year
1 in universal time (`Denotes`), by the day that its date is and the offset that its clock has. What
is written as the stamp is the moment at which a clock of universal time shows the same instant
(`exists_stamp?`), and the stamp reads back as that instant cut to milliseconds
(`readStamp?_stampText`). Stamps are in the order of the instants (`stampText_lt_iff`).
-/

set_option autoImplicit false

namespace FieldAudit

namespace Moment

/-! ## 1. Instants -/

/-- A moment that a clock can show: a date in one of the years 1 to 9999 and a time of day, at any
offset. -/
structure Valid (m : Moment) : Prop where
  date : IsDate m.year m.month m.day
  year : m.year ≤ 9999
  hour : m.hour < 24
  minute : m.minute < 60
  second : m.second < 60
  microsecond : m.microsecond < 1000000

/-- The instant of a moment, in microseconds since the start of year 1. A clock that is ahead of
universal time shows more than has passed. -/
def Denotes (m : Moment) (instant : Int) : Prop :=
  ∃ days, dateAfter days = (m.year, m.month, m.day)
    ∧ instant + m.offset.microseconds
      = (((days * 24 + m.hour) * 60 + m.minute) * 60 + m.second : Nat) * 1000000 + m.microsecond

/-- What a clock of universal time shows at an instant. -/
structure Shows (m : Moment) (instant : Int) : Prop where
  valid : m.Valid
  offset : m.offset.microseconds = 0
  denotes : m.Denotes instant

/-- The instants that have a date in the years 1 to 9999 of universal time. -/
def Universal (instant : Int) : Prop := ∃ m : Moment, m.Shows instant

variable {m u v : Moment} {instant i j : Int}

theorem denotes_iff (h : m.Valid) : m.Denotes instant ↔ instant = m.universalMicroseconds := by
  unfold Denotes universalMicroseconds
  simp only [dateAfter_eq_iff h.date, exists_eq_left]
  omega

theorem Shows.eq (h : u.Shows i) :
    i = (((dayNumber u.year u.month u.day * 24 + u.hour) * 60 + u.minute) * 60 + u.second : Nat)
      * 1000000 + u.microsecond := by
  have hinstant := (denotes_iff h.valid).1 h.denotes
  rw [universalMicroseconds, h.offset, Int.sub_zero] at hinstant
  exact hinstant

/-! ## 2. The moment that is written -/

/-- What the clock shows so many seconds and microseconds after the start of year 1. -/
theorem ofSeconds_shows {seconds microseconds : Nat} (hseconds : seconds < dayLimit * 86400)
    (hmicroseconds : microseconds < 1000000) :
    (ofSeconds seconds microseconds).Shows ((seconds * 1000000 + microseconds : Nat) : Int) := by
  obtain ⟨year, month, day, hfound, hdate, hnumber⟩ := dateOfDay_spec (seconds / 86400)
  have hyear : year ≤ 9999 := by
    rw [← dayNumber_lt_dayLimit_iff hdate, hnumber]
    exact Nat.div_lt_of_lt_mul (Nat.mul_comm dayLimit 86400 ▸ hseconds)
  have hvalid : (ofSeconds seconds microseconds).Valid := by
    unfold ofSeconds
    rw [hfound]
    refine ⟨hdate, hyear, ?_, ?_, ?_, hmicroseconds⟩ <;> dsimp only <;> omega
  refine ⟨hvalid, ?_, ?_⟩
  · unfold ofSeconds
    rw [hfound]
    rfl
  · rw [denotes_iff hvalid]
    unfold ofSeconds universalMicroseconds
    rw [hfound]
    dsimp only
    rw [hnumber]
    have hzero : (0 : Offset).microseconds = 0 := rfl
    omega

theorem ofSeconds_toNat_shows (hnonneg : 0 ≤ instant)
    (hlt : instant < (dayLimit * 86400000000 : Nat)) :
    (ofSeconds (instant.toNat / 1000000) (instant.toNat % 1000000)).Shows instant := by
  generalize hlimit : dayLimit = limit at hlt
  have hshows :=
    @ofSeconds_shows (instant.toNat / 1000000) (instant.toNat % 1000000) (by omega) (by omega)
  have hsplit : ((instant.toNat / 1000000 * 1000000 + instant.toNat % 1000000 : Nat) : Int)
      = instant := by omega
  rw [hsplit] at hshows
  exact hshows

/-- The instants with a date in the years 1 to 9999 are those before the year 10000. -/
theorem universal_iff :
    Universal instant ↔ 0 ≤ instant ∧ instant < (dayLimit * 86400000000 : Nat) := by
  constructor
  · rintro ⟨u, h⟩
    have hday := (dayNumber_lt_dayLimit_iff h.valid.date).2 h.valid.year
    have hhour := h.valid.hour
    have hminute := h.valid.minute
    have hsecond := h.valid.second
    have hmicrosecond := h.valid.microsecond
    have hinstant := h.eq
    generalize dayLimit = limit at hday ⊢
    omega
  · rintro ⟨hnonneg, hlt⟩
    exact ⟨_, ofSeconds_toNat_shows hnonneg hlt⟩

/-- **The stamp of a moment** is the text of what a clock of universal time shows at its instant. -/
theorem exists_stamp? (hvalid : m.Valid) (hdenotes : m.Denotes instant)
    (huniversal : Universal instant) :
    ∃ u : Moment, u.Shows instant ∧ m.stamp? = some (String.ofList (stampText u)) := by
  obtain ⟨hnonneg, hlt⟩ := universal_iff.1 huniversal
  have hinstant := (denotes_iff hvalid).1 hdenotes
  refine ⟨ofSeconds (instant.toNat / 1000000) (instant.toNat % 1000000),
    ofSeconds_toNat_shows hnonneg hlt, ?_⟩
  have hinside : ¬ (instant < 0 ∨ (dayLimit * 86400000000 : Nat) ≤ instant) := by
    rintro (hbefore | hbehind)
    · exact absurd hnonneg (Int.not_le.2 hbefore)
    · exact absurd hlt (Int.not_lt.2 hbehind)
  unfold stamp?
  rw [← hinstant]
  dsimp only
  rw [if_neg hinside]

/-! ## 3. Reading a stamp -/

/-- The moment of universal time that a stamp names. -/
def readStamp? (stamp : String) : Option Moment :=
  match readForm? form stamp.toList with
  | some [year, month, day, hour, minute, second, millisecond] =>
    some ⟨year, month, day, hour, minute, second, millisecond * 1000, .ahead 0⟩
  | _ => none

/-- What a clock shows has room in a stamp. -/
theorem Valid.fits (h : m.Valid) : List.Forall₂ Fits form m.numbers := by
  have hyear := h.year
  have hmonth := h.date.inYear
  have hday := h.date.inMonth
  have hlong : daysInMonth m.year m.month ≤ 31 := by
    unfold daysInMonth
    split_ifs <;> omega
  have hhour := h.hour
  have hminute := h.minute
  have hsecond := h.second
  have hmicrosecond := h.microsecond
  refine .cons ⟨by decide, ?_⟩ (.cons ⟨by decide, ?_⟩ (.cons ⟨by decide, ?_⟩ (.cons ⟨by decide, ?_⟩
    (.cons ⟨by decide, ?_⟩ (.cons ⟨by decide, ?_⟩ (.cons ⟨by decide, ?_⟩ .nil))))))
  all_goals
    dsimp only
    omega

/-- **A stamp reads back** as its instant, cut to milliseconds. -/
theorem readStamp?_stampText (h : u.Shows instant) :
    ∃ read, readStamp? (String.ofList (stampText u)) = some read
      ∧ read.Shows (instant / 1000 * 1000) := by
  have hread : readStamp? (String.ofList (stampText u))
      = some { u with microsecond := u.microsecond / 1000 * 1000, offset := .ahead 0 } := by
    unfold readStamp?
    rw [String.toList_ofList, stampText_eq, readForm?_writeForm h.valid.fits]
    rfl
  have hvalid : ({ u with microsecond := u.microsecond / 1000 * 1000, offset := .ahead 0 } :
      Moment).Valid := by
    have hmicrosecond := h.valid.microsecond
    exact ⟨h.valid.date, h.valid.year, h.valid.hour, h.valid.minute,
      h.valid.second, by dsimp only; omega⟩
  refine ⟨_, hread, hvalid, rfl, (denotes_iff hvalid).2 ?_⟩
  have hinstant := h.eq
  have hzero : (Offset.ahead 0).microseconds = 0 := rfl
  unfold universalMicroseconds
  dsimp only
  omega

theorem length_stampText (h : u.Valid) : (stampText u).length = 24 := by
  rw [stampText_eq, length_writeForm h.fits]
  rfl

/-! ## 4. The order of stamps -/

/-- What a clock shows is in the order of the milliseconds that have passed. -/
theorem numbers_lt_iff (h : u.Shows i) (h' : v.Shows j) :
    u.numbers < v.numbers ↔ i / 1000 < j / 1000 := by
  have hinstant :
      i / 1000
        = (1000 * (60 * (60 * (24 * dayNumber u.year u.month u.day + u.hour) + u.minute) + u.second)
      + u.microsecond / 1000 : Nat) := by
    rw [h.eq]
    omega
  have hinstant' :
      j / 1000
        = (1000 * (60 * (60 * (24 * dayNumber v.year v.month v.day + v.hour) + v.minute) + v.second)
      + v.microsecond / 1000 : Nat) := by
    rw [h'.eq]
    omega
  have hmillisecond : u.microsecond / 1000 < 1000 := Nat.div_lt_of_lt_mul h.valid.microsecond
  have hmillisecond' : v.microsecond / 1000 < 1000 := Nat.div_lt_of_lt_mul h'.valid.microsecond
  -- from the milliseconds up to the day, what lies behind a unit decides only where the units agree
  rw [hinstant, hinstant', Int.ofNat_lt, mul_add_lt_mul_add_iff hmillisecond hmillisecond',
    ← lt_or_eq_and_iff_mul_add h.valid.second h'.valid.second,
    ← lt_or_eq_and_iff_mul_add h.valid.minute h'.valid.minute,
    ← lt_or_eq_and_iff_mul_add h.valid.hour h'.valid.hour,
    dayNumber_lt_iff h.valid.date h'.valid.date, dayNumber_eq_iff h.valid.date h'.valid.date]
  unfold DateBefore numbers
  simp only [List.cons_lt_cons_iff, List.lt_irrefl, and_false, or_false, and_or_left, or_assoc,
    and_assoc]

theorem stampText_lt_iff (h : u.Shows i) (h' : v.Shows j) :
    stampText u < stampText v ↔ i / 1000 < j / 1000 := by
  rw [stampText_eq, stampText_eq, writeForm_lt_iff h.valid.fits h'.valid.fits, numbers_lt_iff h h']

/-- Instants have the same stamp if they are in the same millisecond. -/
theorem stampText_eq_iff (h : u.Shows i) (h' : v.Shows j) :
    stampText u = stampText v ↔ i / 1000 = j / 1000 := by
  have hless := stampText_lt_iff h h'
  have hmore := stampText_lt_iff h' h
  constructor
  · intro heq
    rw [heq] at hless hmore
    have hnotless : ¬ i / 1000 < j / 1000 := fun hlt => List.lt_irrefl _ (hless.2 hlt)
    have hnotmore : ¬ j / 1000 < i / 1000 := fun hlt => List.lt_irrefl _ (hmore.2 hlt)
    omega
  · intro heq
    rw [heq] at hless hmore
    have hnotless : ¬ stampText u < stampText v := fun hlt => Int.lt_irrefl _ (hless.1 hlt)
    have hnotmore : ¬ stampText v < stampText u := fun hlt => Int.lt_irrefl _ (hmore.1 hlt)
    exact List.le_antisymm (List.not_lt.1 hnotmore) (List.not_lt.1 hnotless)

end Moment

/-! ## 5. The stamp of a report -/

namespace Report

open Moment (readStamp? Universal)

/-- **A stamp denotes the instant of its moment.** Whatever the offset of a moment, if its instant
has a date in the years 1 to 9999 of universal time, then the report has a stamp of 24 characters
that reads back as that instant, cut to milliseconds. Under any two offsets the stamps of two
moments are the same when they are in the same millisecond, and one stamp is before the other one,
as a text, when its millisecond is. -/
theorem build?_stamp_denotes {m : Moment} {instant : Int} (hvalid : m.Valid)
    (hdenotes : m.Denotes instant) (huniversal : Universal instant) (endpoint : Json.Value)
    (listing : Entries (List Text)) (usages : UsageMap) :
    ∃ report others read, build? endpoint listing usages m = some report
      ∧ report.value = .object (("generatedAt", .string report.stamp) :: others)
      ∧ report.stamp.length = 24
      ∧ readStamp? report.stamp = some read ∧ read.Shows (instant / 1000 * 1000)
      ∧ ∀ (second : Moment) (instant' : Int), second.Valid → second.Denotes instant' →
        Universal instant' →
        ∀ endpoint' listing' usages', ∃ report',
          build? endpoint' listing' usages' second = some report'
          ∧ (report.stamp = report'.stamp ↔ instant / 1000 = instant' / 1000)
          ∧ (report.stamp < report'.stamp ↔ instant / 1000 < instant' / 1000) := by
  obtain ⟨u, hshows, hstamp⟩ := Moment.exists_stamp? hvalid hdenotes huniversal
  obtain ⟨read, hread, hread'⟩ := Moment.readStamp?_stampText hshows
  refine ⟨⟨String.ofList (Moment.stampText u), endpoint, typesOf listing usages⟩, _, read, ?_, rfl,
    ?_, hread, hread', ?_⟩
  · rw [build?, hstamp, Option.map_some]
  · rw [String.length_ofList, Moment.length_stampText hshows.valid]
  · intro second instant' hvalid' hdenotes' huniversal' endpoint' listing' usages'
    obtain ⟨v, hshows', hstamp'⟩ := Moment.exists_stamp? hvalid' hdenotes' huniversal'
    refine ⟨⟨String.ofList (Moment.stampText v), endpoint', typesOf listing' usages'⟩, ?_, ?_, ?_⟩
    · rw [build?, hstamp', Option.map_some]
    · rw [String.ofList_inj, Moment.stampText_eq_iff hshows hshows']
    · rw [String.lt_iff_toList_lt, String.toList_ofList, String.toList_ofList,
        Moment.stampText_lt_iff hshows hshows']

/-- Half an hour into March in a clock that is one hour ahead, and the next second in one that is
five hours behind. -/
theorem build?_stamp_denotes_leapDay :
    let m : Moment := ⟨2024, 3, 1, 0, 30, 0, 999999, .ahead 3600000000⟩
    let second : Moment := ⟨2024, 2, 29, 18, 30, 1, 0, .ahead (-18000000000)⟩
    m.Valid ∧ m.Denotes 63844846200999999 ∧ Universal 63844846200999999
      ∧ second.Valid ∧ second.Denotes 63844846201000000 ∧ Universal 63844846201000000
      ∧ ∃ report report' read, build? .null [] [] m = some report
        ∧ build? .null [] [] second = some report'
        ∧ report.stamp.length = 24 ∧ readStamp? report.stamp = some read
        ∧ read.Shows 63844846200999000
        ∧ report.stamp < report'.stamp := by
  intro m second
  have hvalid : m.Valid :=
    ⟨⟨by decide, by decide, by decide⟩, by decide, by decide, by decide, by decide, by decide⟩
  have hvalid' : second.Valid :=
    ⟨⟨by decide, by decide, by decide⟩, by decide, by decide, by decide, by decide, by decide⟩
  have hdenotes : m.Denotes 63844846200999999 := (Moment.denotes_iff hvalid).2 (by decide)
  have hdenotes' : second.Denotes 63844846201000000 := (Moment.denotes_iff hvalid').2 (by decide)
  have huniversal : Universal 63844846200999999 := Moment.universal_iff.2 (by decide)
  have huniversal' : Universal 63844846201000000 := Moment.universal_iff.2 (by decide)
  obtain ⟨report, -, read, hbuild, -, hlength, hread, hshows, hsecond⟩ :=
    build?_stamp_denotes hvalid hdenotes huniversal .null [] []
  obtain ⟨report', hbuild', -, horder⟩ :=
    hsecond second 63844846201000000 hvalid' hdenotes' huniversal' .null [] []
  exact ⟨hvalid, hdenotes, huniversal, hvalid', hdenotes', huniversal', report, report', read,
    hbuild, hbuild', hlength, hread, hshows, horder.2 (by decide)⟩

end Report

end FieldAudit
