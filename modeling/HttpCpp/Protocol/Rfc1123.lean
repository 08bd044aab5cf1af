import HttpCpp.Framework.Calendar
import HttpCpp.Protocol.HttpDate

namespace HttpCpp

/-- "static char result[29];" -/
def resultSize : Nat := 29

/-- The fields are those the names of the days and months and a clock allow. -/
def Tm.InRange (tm : Tm) : Prop :=
  (1 ≤ tm.mday ∧ tm.mday ≤ 31) ∧ (0 ≤ tm.hour ∧ tm.hour ≤ 23) ∧ (0 ≤ tm.min ∧ tm.min ≤ 59) ∧
    (0 ≤ tm.sec ∧ tm.sec ≤ 60)

instance (tm : Tm) : Decidable tm.InRange := inferInstanceAs (Decidable (_ ∧ _ ∧ _ ∧ _))

theorem wdayName_length (i : Fin 7) : (wdayName.getD i.val []).length = 3 := by
  revert i
  decide

theorem monName_length (i : Fin 12) : (monName.getD i.val []).length = 3 := by
  revert i
  decide

theorem wdayName_injective (i j : Fin 7) (h : wdayName.getD i.val [] = wdayName.getD j.val []) :
    i = j := by
  revert i j
  decide

theorem monName_injective (i j : Fin 12) (h : monName.getD i.val [] = monName.getD j.val []) :
    i = j := by
  revert i j
  decide

/-- A date with its parts in their places. -/
def dateText (wday mday mon year hour min sec : Bytes) : Bytes :=
  wday ++ (lit ", " ++ (mday ++ (lit " " ++ (mon ++ (lit " " ++ (year ++ SP :: (hour ++ (lit ":" ++
    (min ++ (lit ":" ++ (sec ++ lit " GMT")))))))))))

theorem httptime_eq (tm : Tm) :
    httptime tm = dateText (wdayName.getD tm.wday.val []) (formatInt 2 1 tm.mday)
      (monName.getD tm.mon.val []) (formatInt 0 1 (1900 + tm.year)) (formatInt 0 2 tm.hour)
      (formatInt 0 2 tm.min) (formatInt 0 2 tm.sec) := by
  have hspace : lit " " = [SP] := rfl
  simp only [httptime, dateText, hspace, List.append_assoc, List.cons_append, List.nil_append]

/-- Parts of the same lengths can be read off a date. -/
theorem dateText_injective {wday mday mon year hour min sec wday' mday' mon' year' hour' min'
      sec' : Bytes}
    (hwday : wday.length = wday'.length) (hmday : mday.length = mday'.length)
    (hmon : mon.length = mon'.length) (hyear : SP ∉ year) (hyear' : SP ∉ year')
    (hhour : hour.length = hour'.length) (hmin : min.length = min'.length)
    (h : dateText wday mday mon year hour min sec =
      dateText wday' mday' mon' year' hour' min' sec') :
    wday = wday' ∧ mday = mday' ∧ mon = mon' ∧ year = year' ∧ hour = hour' ∧ min = min' ∧
      sec = sec' := by
  obtain ⟨rfl, h₁⟩ := List.append_inj h hwday
  replace h₁ := List.append_cancel_left h₁
  obtain ⟨rfl, h₂⟩ := List.append_inj h₁ hmday
  replace h₂ := List.append_cancel_left h₂
  obtain ⟨rfl, h₃⟩ := List.append_inj h₂ hmon
  replace h₃ := List.append_cancel_left h₃
  obtain ⟨rfl, h₄⟩ := cut_unique SP hyear hyear' h₃
  obtain ⟨rfl, h₅⟩ := List.append_inj h₄ hhour
  replace h₅ := List.append_cancel_left h₅
  obtain ⟨rfl, h₆⟩ := List.append_inj h₅ hmin
  replace h₆ := List.append_cancel_left h₆
  obtain rfl := List.append_cancel_right h₆
  exact ⟨rfl, rfl, rfl, rfl, rfl, rfl, rfl⟩

theorem formatInt_mday_length (n : Int) (hlow : 0 ≤ n) (hhigh : n < 100) :
    (formatInt 2 1 n).length = 2 := by
  rw [formatInt_spaced n hlow hhigh]
  split_ifs with hn
  · obtain ⟨n, rfl⟩ := Int.eq_ofNat_of_zero_le hlow
    have hone := (decimalText_length_le n 1 (by omega)).mpr (by omega)
    have hlength := (formatInt_inDigits 1 n).1
    rw [max_eq_left hone] at hlength
    rw [List.length_cons, hlength]
  · exact (formatInt_two n hlow hhigh).1

/-- The bytes that `sprintf` writes besides the year are 25, and the terminator is one more. -/
theorem httptime_length (tm : Tm) (h : tm.InRange) :
    (httptime tm).length = 25 + (formatInt 0 1 (1900 + tm.year)).length := by
  obtain ⟨hmday, hhour, hmin, hsec⟩ := h
  have hday := formatInt_mday_length tm.mday (by omega) (by omega)
  have hh := (formatInt_two tm.hour (by omega) (by omega)).1
  have hm := (formatInt_two tm.min (by omega) (by omega)).1
  have hs := (formatInt_two tm.sec (by omega) (by omega)).1
  have hcomma : (lit ", ").length = 2 := by decide
  have hspace : (lit " ").length = 1 := by decide
  have hcolon : (lit ":").length = 1 := by decide
  have hgmt : (lit " GMT").length = 4 := by decide
  simp only [httptime_eq, dateText, List.length_append, List.length_cons, wdayName_length,
    monName_length, hday, hh, hm, hs, hcomma, hspace, hcolon, hgmt]
  omega

theorem formatInt_year_length (n : Int) (hlow : 0 ≤ n) :
    (formatInt 0 1 n).length ≤ 3 ↔ n < 1000 := by
  obtain ⟨n, rfl⟩ := Int.eq_ofNat_of_zero_le hlow
  have hpos := decimalText_length_pos n
  have hlength := (formatInt_inDigits 1 n).1
  have hthree := decimalText_length_le n 3 (by omega)
  omega

/-- A date fits its buffer exactly when the year has fewer than four digits. -/
theorem httptime_fits_iff (tm : Tm) (h : tm.InRange) (hyear : 0 ≤ 1900 + tm.year) :
    (httptime tm).length + 1 ≤ resultSize ↔ 1900 + tm.year < 1000 := by
  rw [httptime_length tm h, ← formatInt_year_length _ hyear]
  simp only [resultSize]
  omega

theorem httptime_fits_999 :
    (httptime ⟨0, 0, 0, 1, 0, -901, 2⟩).length + 1 ≤ resultSize := by
  have h := httptime_fits_iff ⟨0, 0, 0, 1, 0, -901, 2⟩ (by decide) (by decide)
  exact h.mpr (by decide)

theorem httptime_overruns :
    ∃ tm : Tm, tm.InRange ∧ 0 ≤ 1900 + tm.year ∧ 1900 + tm.year ≤ 9999 ∧
      ¬(httptime tm).length + 1 ≤ resultSize :=
  ⟨⟨37, 49, 8, 6, 10, 94, 0⟩, by decide, by decide, by decide, by decide⟩

/-- `gmtime`: a time broken down in UTC. -/
def gmtime (time : Int) : Tm where
  sec := time % 60
  min := time % 3600 / 60
  hour := time % 86400 / 3600
  mday := (Calendar.Date.ofNumber (time / 86400)).day
  mon := ⟨(Calendar.Date.ofNumber (time / 86400)).month,
    (Calendar.Date.ofNumber (time / 86400)).month_lt⟩
  year := (Calendar.Date.ofNumber (time / 86400)).year - 1900
  wday := ⟨Calendar.weekday (time / 86400), Calendar.weekday_lt (time / 86400)⟩

/-- `localtime` of a machine whose clock is `offset` seconds ahead of UTC, which may change over
the year. -/
def localtime (offset : Int → Int) (time : Int) : Tm := gmtime (time + offset time)

/-- `http_constants::http_date`. -/
def httpDate (offset : Int → Int) (time : Int) : Bytes := httptime (localtime offset time)

/-- The fields name a second of the calendar, and `time` is this second. -/
def Tm.IsAt (tm : Tm) (time : Int) : Prop :=
  tm.InRange ∧ tm.sec ≤ 59 ∧ ∃ date : Calendar.Date,
    (1900 + tm.year = date.year ∧ tm.mon.val = date.month ∧ tm.mday = date.day) ∧
      tm.wday.val = Calendar.weekday date.number ∧
      time = 86400 * date.number + 3600 * tm.hour + 60 * tm.min + tm.sec

theorem gmtime_isAt (time : Int) : (gmtime time).IsAt time := by
  have hnumber := Calendar.Date.number_ofNumber (time / 86400)
  have hpos := (Calendar.Date.ofNumber (time / 86400)).day_pos
  have hday := (Calendar.Date.ofNumber (time / 86400)).day_le_31
  refine ⟨?_, ?_, Calendar.Date.ofNumber (time / 86400), ⟨?_, rfl, rfl⟩, ?_, ?_⟩
  · simp only [Tm.InRange, gmtime]
    omega
  · simp only [gmtime]
    omega
  · simp only [gmtime]
    omega
  · simp only [gmtime, hnumber]
  · simp only [gmtime, hnumber]
    omega

/-- Fields name one second at most. -/
theorem isAt_unique (tm : Tm) (time time' : Int) (h : tm.IsAt time) (h' : tm.IsAt time') :
    time = time' := by
  obtain ⟨-, -, ⟨year, month, day, hm, hp, hl⟩, ⟨hyear, hmonth, hday⟩, -, rfl⟩ := h
  obtain ⟨-, -, ⟨year', month', day', hm', hp', hl'⟩, ⟨hyear', hmonth', hday'⟩, -, rfl⟩ := h'
  obtain rfl : year = year' := hyear.symm.trans hyear'
  obtain rfl : month = month' := hmonth.symm.trans hmonth'
  obtain rfl : day = day' := Int.ofNat.inj (hday.symm.trans hday')
  rfl

/-- The form `wkday "," SP 2DIGIT SP month SP 4DIGIT SP 2DIGIT ":" 2DIGIT ":" 2DIGIT SP "GMT"`,
and the fields it is read as. -/
def Rfc1123 (text : Bytes) (tm : Tm) : Prop :=
  ∃ mday year hour min sec : Bytes,
    text = dateText (wdayName.getD tm.wday.val []) mday (monName.getD tm.mon.val []) year hour min
      sec ∧
    InDigits 2 mday tm.mday ∧ InDigits 4 year (1900 + tm.year) ∧ InDigits 2 hour tm.hour ∧
    InDigits 2 min tm.min ∧ InDigits 2 sec tm.sec

/-- Read as a date in GMT, the text denotes the time. -/
def Denotes (text : Bytes) (time : Int) : Prop := ∃ tm, Rfc1123 text tm ∧ tm.IsAt time

theorem formatInt_year (year year' : Int) :
    InDigits 4 (formatInt 0 1 year) year' ↔ 1000 ≤ year ∧ year ≤ 9999 ∧ year' = year := by
  by_cases hneg : year < 0
  · refine iff_of_false ?_ (by omega)
    intro h
    -- a sign is no digit
    have hsign : byteOf '-' ∈ formatInt 0 1 year := by
      have hlit : lit "-" = [byteOf '-'] := rfl
      simp [formatInt, hneg, hlit]
    exact absurd (h.2.1 _ hsign) (by decide)
  · obtain ⟨n, rfl⟩ := Int.eq_ofNat_of_zero_le (Int.not_lt.mp hneg)
    have hpos := decimalText_length_pos n
    have hthree := decimalText_length_le n 3 (by omega)
    have hfour := decimalText_length_le n 4 (by omega)
    rw [inDigits_value _ 4 _ _ _ (formatInt_inDigits 1 n)]
    omega

theorem formatInt_mday (mday mday' : Int) (hlow : 0 ≤ mday) (hhigh : mday < 100) :
    InDigits 2 (formatInt 2 1 mday) mday' ↔ 10 ≤ mday ∧ mday' = mday := by
  rw [formatInt_spaced mday hlow hhigh]
  split_ifs with hten
  · refine iff_of_false ?_ (by omega)
    intro h
    exact absurd (h.2.1 SP (by simp)) (by decide)
  · rw [inDigits_value _ 2 _ _ _ (formatInt_two mday hlow hhigh)]
    omega

theorem digits_no_space (count : Nat) (text : Bytes) (value : Int)
    (h : InDigits count text value) : SP ∉ text := by
  intro hmem
  exact absurd (h.2.1 SP hmem) (by decide)

/-- The text of a time has the form of a date exactly when its day and its year take the digits
that form gives them. -/
theorem rfc1123_httptime (tm tm' : Tm) (h : tm.InRange) :
    Rfc1123 (httptime tm) tm' ↔
      tm' = tm ∧ 10 ≤ tm.mday ∧ 1000 ≤ 1900 + tm.year ∧ 1900 + tm.year ≤ 9999 := by
  obtain ⟨hmday, hhour, hmin, hsec⟩ := h
  have hh := formatInt_two tm.hour (by omega) (by omega)
  have hm := formatInt_two tm.min (by omega) (by omega)
  have hs := formatInt_two tm.sec (by omega) (by omega)
  have hd := formatInt_mday_length tm.mday (by omega) (by omega)
  constructor
  · intro hform
    obtain ⟨mday, year, hour, min, sec, htext, hmday', hyear', hhour', hmin', hsec'⟩ := hform
    rw [httptime_eq] at htext
    obtain ⟨hwday, rfl, hmon, rfl, rfl, rfl, rfl⟩ := dateText_injective
      ((wdayName_length _).trans (wdayName_length _).symm) (hd.trans hmday'.1.symm)
      ((monName_length _).trans (monName_length _).symm) (formatInt_no_space 1 _)
      (digits_no_space 4 _ _ hyear') (hh.1.trans hhour'.1.symm) (hm.1.trans hmin'.1.symm) htext
    have hwday := wdayName_injective _ _ hwday
    have hmon := monName_injective _ _ hmon
    rw [formatInt_mday _ _ (by omega) (by omega)] at hmday'
    rw [formatInt_year] at hyear'
    rw [inDigits_value _ 2 _ _ _ hh] at hhour'
    rw [inDigits_value _ 2 _ _ _ hm] at hmin'
    rw [inDigits_value _ 2 _ _ _ hs] at hsec'
    have hsame : tm'.year = tm.year := by omega
    refine ⟨?_, hmday'.1, hyear'.1, hyear'.2.1⟩
    cases tm
    cases tm'
    simp only [Tm.mk.injEq]
    exact ⟨hsec'.2, hmin'.2, hhour'.2, hmday'.2, hmon.symm, hsame, hwday.symm⟩
  · intro hfields
    obtain ⟨rfl, hten, hyear⟩ := hfields
    refine ⟨_, _, _, _, _, httptime_eq tm', ?_, ?_, hh, hm, hs⟩
    · exact (formatInt_mday _ _ (by omega) (by omega)).mpr ⟨hten, rfl⟩
    · exact (formatInt_year _ _).mpr ⟨hyear.1, hyear.2, rfl⟩

/-- A date denotes its time exactly when the machine keeps UTC and the day of the month has two
digits. -/
theorem httpDate_denotes_iff (offset : Int → Int) (time : Int)
    (hlow : 1000 ≤ 1900 + (gmtime time).year) (hhigh : 1900 + (gmtime time).year ≤ 9999) :
    Denotes (httpDate offset time) time ↔ offset time = 0 ∧ 10 ≤ (gmtime time).mday := by
  have hlocal := gmtime_isAt (time + offset time)
  constructor
  · intro h
    obtain ⟨tm, hform, hat⟩ := h
    obtain ⟨rfl, hten, -⟩ := (rfc1123_httptime _ tm hlocal.1).mp hform
    have hzero : offset time = 0 := by
      have htime := isAt_unique _ _ _ hlocal hat
      omega
    rw [hzero, Int.add_zero] at hten
    exact ⟨hzero, hten⟩
  · intro h
    obtain ⟨hzero, hten⟩ := h
    have hsame : localtime offset time = gmtime time := by rw [localtime, hzero, Int.add_zero]
    refine ⟨gmtime time, ?_, gmtime_isAt time⟩
    rw [httpDate, hsame]
    exact (rfc1123_httptime _ _ (gmtime_isAt time).1).mpr ⟨rfl, hten, hlow, hhigh⟩

theorem httpDate_denotes_november :
    Denotes (httpDate (fun _ => 0) 784887151) 784887151 := by
  have h := httpDate_denotes_iff (fun _ => 0) 784887151 (by decide) (by decide)
  exact h.mpr ⟨rfl, by decide⟩

/-- A single-digit day on a machine that keeps UTC, and a day of two digits one hour east. -/
theorem httpDate_strays :
    (1000 ≤ 1900 + (gmtime 784111777).year ∧ 1900 + (gmtime 784111777).year ≤ 9999 ∧
      httpDate (fun _ => 0) 784111777 = lit "Sun,  6 Nov 1994 08:49:37 GMT" ∧
      ¬Denotes (httpDate (fun _ => 0) 784111777) 784111777) ∧
    (1000 ≤ 1900 + (gmtime 784887151).year ∧ 1900 + (gmtime 784887151).year ≤ 9999 ∧
      httpDate (fun _ => 3600) 784887151 = lit "Tue, 15 Nov 1994 09:12:31 GMT" ∧
      ¬Denotes (httpDate (fun _ => 3600) 784887151) 784887151) := by
  refine ⟨⟨by decide, by decide, by decide, ?_⟩,
    ⟨by decide, by decide, by decide, ?_⟩⟩
  · intro h
    obtain ⟨tm, hform, -⟩ := h
    have hfields := (rfc1123_httptime _ tm (gmtime_isAt (784111777 + 0)).1).mp hform
    exact absurd hfields.2.1 (by decide)
  · intro h
    obtain ⟨tm, hform, hat⟩ := h
    obtain ⟨rfl, -⟩ := (rfc1123_httptime _ tm (gmtime_isAt (784887151 + 3600)).1).mp hform
    have htime := isAt_unique _ _ _ (gmtime_isAt (784887151 + 3600)) hat
    omega

end HttpCpp
