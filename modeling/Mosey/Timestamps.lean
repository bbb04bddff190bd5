import Mathlib.Tactic.IntervalCases
import Mosey.Text

/-!
# Timestamps round trip

The calendar computations invert each other, so that an instant of whole seconds in the years 0 to 9999
is read back from its timestamp. A year of an era is found by a monotone estimate, which is checked at
the first and the last day of each of the 400 years.
-/

namespace Mosey

/-- The days of an era before this year of it. -/
def eraYearStart (year : ℤ) : ℤ := 365 * year + year / 4 - year / 100

/-- The last day of this year of an era. -/
def eraYearEnd (year : ℤ) : ℤ := if year = 399 then 146096 else eraYearStart (year + 1) - 1

/-- The year of an era in which this day of it falls. -/
def eraYear (day : ℤ) : ℤ := (day - day / 1460 + day / 36524 - day / 146096) / 365

/-- Later days of an era are in later years. -/
theorem eraYear_mono {first second : ℤ} (hle : first ≤ second) : eraYear first ≤ eraYear second := by
  have hnext (day : ℤ) : day - day / 1460 + day / 36524 - day / 146096 ≤
      (day + 1) - (day + 1) / 1460 + (day + 1) / 36524 - (day + 1) / 146096 := by
    omega
  have hsum := monotone_int_of_le_succ hnext hle
  exact Int.ediv_le_ediv (by decide) hsum

theorem eraYear_bounds (year : Fin 400) :
    eraYear (eraYearStart year.1) = year.1 ∧ eraYear (eraYearEnd year.1) = year.1 := by
  revert year
  decide +kernel

theorem eraYear_range {day : ℤ} (hnonneg : 0 ≤ day) (hlt : day < 146097) :
    0 ≤ eraYear day ∧ eraYear day < 400 := by
  unfold eraYear
  omega

/-- A day falls between the first and the last day of its year. -/
theorem eraYear_spec {day : ℤ} (hnonneg : 0 ≤ day) (hlt : day < 146097) :
    eraYearStart (eraYear day) ≤ day ∧ day ≤ eraYearEnd (eraYear day) := by
  obtain ⟨hyear, hyear'⟩ := eraYear_range hnonneg hlt
  constructor
  · by_contra hbefore
    -- then the day is at most the last one of the year before
    by_cases hzero : eraYear day = 0
    · rw [hzero] at hbefore
      simp [eraYearStart] at hbefore
      omega
    · have hend := (eraYear_bounds ⟨(eraYear day - 1).toNat, by omega⟩).2
      have hcast : ((eraYear day - 1).toNat : ℤ) = eraYear day - 1 := Int.toNat_of_nonneg (by omega)
      rw [hcast] at hend
      have hle : day ≤ eraYearEnd (eraYear day - 1) := by
        unfold eraYearEnd
        rw [if_neg (by omega), Int.sub_add_cancel]
        omega
      have := eraYear_mono hle
      omega
  · by_contra hafter
    by_cases hlast : eraYear day = 399
    · rw [hlast] at hafter
      simp [eraYearEnd] at hafter
      omega
    · have hstart := (eraYear_bounds ⟨(eraYear day + 1).toNat, by omega⟩).1
      have hcast : ((eraYear day + 1).toNat : ℤ) = eraYear day + 1 := Int.toNat_of_nonneg (by omega)
      rw [hcast] at hstart
      have hle : eraYearStart (eraYear day + 1) ≤ day := by
        unfold eraYearEnd at hafter
        rw [if_neg hlast] at hafter
        omega
      have := eraYear_mono hle
      omega

/-- The lengths of the months from March on, for the days of a year. -/
theorem monthFromMarch_spec (day : Fin 366) :
    let month := (5 * day.1 + 2) / 153
    month < 12 ∧ (153 * month + 2) / 5 ≤ day.1 ∧
      day.1 - (153 * month + 2) / 5 + 1 ≤
        if month = 1 ∨ month = 3 ∨ month = 6 ∨ month = 8 then 30
        else if month = 11 then day.1 - 336 else 31 := by
  revert day
  decide +kernel

/-- The date on a day of a year that is counted from March. -/
def dateFromMarch (year : ℤ) (day : ℕ) : Date :=
  let month := (5 * day + 2) / 153
  ⟨if month < 10 then year else year + 1, if month < 10 then month + 3 else month - 9,
    day - (153 * month + 2) / 5 + 1⟩

/-- A year of an era has 366 days only if it is a leap year. -/
theorem eraYear_length {year : ℤ} (era : ℤ) :
    eraYearEnd year - eraYearStart year ≤ 365 ∧
      (eraYearEnd year - eraYearStart year = 365 → isLeap (year + era * 400 + 1) = true) := by
  unfold eraYearEnd
  split_ifs with hlast
  · subst hlast
    refine ⟨by decide, fun _ ↦ ?_⟩
    simp only [isLeap, decide_eq_true_eq]
    omega
  · unfold eraYearStart
    by_cases hfour : (year + 1) % 4 = 0
    · by_cases hhundred : (year + 1) % 100 = 0
      · omega
      · refine ⟨by omega, fun _ ↦ ?_⟩
        simp only [isLeap, decide_eq_true_eq]
        omega
    · omega

/-- Every day is one of a year counted from March, which has a leap day at its end or not. -/
theorem dateOfDays_eq (days : ℤ) : ∃ (year : ℤ) (day : ℕ), dateOfDays days = dateFromMarch year day ∧
    day < 366 ∧ (day = 365 → isLeap (year + 1) = true) ∧
    days + 719468 = year / 400 * 146097 + (eraYearStart (year - year / 400 * 400) + day) := by
  have hday : 0 ≤ days + 719468 - (days + 719468) / 146097 * 146097 ∧
      days + 719468 - (days + 719468) / 146097 * 146097 < 146097 := by omega
  unfold dateOfDays
  dsimp only
  generalize (days + 719468) / 146097 = era at hday ⊢
  generalize hdayOfEra : days + 719468 - era * 146097 = dayOfEra at hday ⊢
  obtain ⟨hyear, hyear'⟩ := eraYear_range hday.1 hday.2
  obtain ⟨hstart, hend⟩ := eraYear_spec hday.1 hday.2
  unfold eraYear at hyear hyear' hstart hend
  generalize (dayOfEra - dayOfEra / 1460 + dayOfEra / 36524 - dayOfEra / 146096) / 365 = yearOfEra
    at hyear hyear' hstart hend ⊢
  obtain ⟨day, hdayOfYear⟩ := Int.eq_ofNat_of_zero_le (Int.sub_nonneg_of_le hstart)
  obtain ⟨hlength, hleap⟩ := @eraYear_length yearOfEra era
  have hera : (yearOfEra + era * 400) / 400 = era := by omega
  refine ⟨yearOfEra + era * 400, day, ?_, by omega, fun hlast ↦ hleap (by omega), ?_⟩
  · obtain ⟨hmonth, hbefore, _⟩ := monthFromMarch_spec ⟨day, by omega⟩
    dsimp only at hmonth hbefore
    change dayOfEra - (365 * yearOfEra + yearOfEra / 4 - yearOfEra / 100) = day at hdayOfYear
    rw [hdayOfYear]
    unfold dateFromMarch
    generalize hmonthDef : (5 * day + 2) / 153 = month at hmonth hbefore ⊢
    have hmonthCast : (5 * (day : ℤ) + 2) / 153 = month := by
      rw [← hmonthDef]
      rfl
    rw [hmonthCast, Date.mk.injEq]
    refine ⟨?_, ?_, ?_⟩
    · split_ifs <;> omega
    · split_ifs <;> omega
    · omega
  · rw [hera, Int.add_sub_cancel, ← hdayOfYear]
    omega

/-- Dates are days of existing months, and counting their days gives back the day. -/
theorem dateOfDays_valid (days : ℤ) :
    1 ≤ (dateOfDays days).month ∧ (dateOfDays days).month ≤ 12 ∧ 1 ≤ (dateOfDays days).day ∧
      (dateOfDays days).day ≤ daysIn (dateOfDays days).month (dateOfDays days).year ∧
      daysOfDate (dateOfDays days) = days := by
  obtain ⟨year, day, hdate, hday, hleap, hdays⟩ := dateOfDays_eq days
  obtain ⟨hmonth, hbefore, hlength⟩ := monthFromMarch_spec ⟨day, hday⟩
  dsimp only at hmonth hbefore hlength
  rw [hdate]
  unfold dateFromMarch
  generalize (5 * day + 2) / 153 = month at hmonth hbefore hlength
  have hback : daysOfDate ⟨if month < 10 then year else year + 1,
      if month < 10 then month + 3 else month - 9, day - (153 * month + 2) / 5 + 1⟩ = days := by
    unfold daysOfDate
    dsimp only
    have hyear : (if (if month < 10 then month + 3 else month - 9) ≤ 2 then
        (if month < 10 then year else year + 1) - 1 else if month < 10 then year else year + 1) =
        year := by
      split_ifs <;> omega
    have hmonthCast : (((if month < 10 then month + 3 else month - 9 : ℕ) : ℤ) + 9) % 12 = month := by
      split_ifs <;> omega
    rw [hyear, hmonthCast]
    unfold eraYearStart at hdays
    omega
  refine ⟨?_, ?_, Nat.le_add_left _ _, ?_, hback⟩
  · dsimp only
    split_ifs <;> omega
  · dsimp only
    split_ifs <;> omega
  · by_cases hlast : month = 11
    · subst hlast
      -- February: its last day is the last one of the year
      have hfebruary : daysIn 2 (year + 1) = if isLeap (year + 1) then 29 else 28 := rfl
      change day - 337 + 1 ≤ daysIn 2 (year + 1)
      rw [hfebruary]
      by_cases hlast : day = 365
      · rw [if_pos (hleap hlast)]
        omega
      · split_ifs <;> omega
    · interval_cases month <;> simp [daysIn] at hlength ⊢ <;> omega

theorem daysIn_le (month : ℕ) (year : ℤ) : daysIn month year ≤ 31 := by
  unfold daysIn
  split <;> (try split) <;> decide

theorem ascii_append (first second : String) : ascii (first ++ second) = ascii first ++ ascii second := by
  simp [ascii]

theorem digitValue_char {char : Char} (hdigit : char.isDigit = true) :
    digitValue (UInt8.ofNat char.toNat) = some (char.toNat - '0'.toNat) := by
  have hbounds : 48 ≤ char.toNat ∧ char.toNat ≤ 57 := by
    simpa [Char.isDigit, UInt32.le_iff_toNat_le] using hdigit
  have hbyte : (UInt8.ofNat char.toNat).toNat = char.toNat := by
    rw [UInt8.toNat_ofNat', Nat.mod_eq_of_lt (by omega)]
  unfold digitValue
  rw [hbyte, if_pos hbounds]
  rfl

/-- The digits of a number are read as that number. -/
theorem digitsValue_chars {chars : List Char} (hdigits : ∀ char ∈ chars, char.isDigit = true)
    (start : ℕ) :
    (chars.map fun char ↦ UInt8.ofNat char.toNat).foldlM
        (fun value byte ↦ (digitValue byte).map (value * 10 + ·)) start =
      some (Nat.ofDigitChars 10 chars start) := by
  induction chars generalizing start with
  | nil => rfl
  | cons char rest ih =>
    have hrest := fun other hother ↦ hdigits other (List.mem_cons_of_mem _ hother)
    rw [List.map_cons, List.foldlM_cons, digitValue_char (hdigits char List.mem_cons_self),
      Nat.ofDigitChars_cons, Nat.mul_comm 10 start]
    exact ih hrest _

theorem isDigit_appendInt (value width : ℕ) :
    ∀ char ∈ (appendInt value width).toList, char.isDigit = true := by
  intro char hchar
  simp only [appendInt, String.toList_ofList, List.mem_append, List.mem_replicate] at hchar
  rcases hchar with ⟨_, rfl⟩ | hdigit
  · decide
  · exact Nat.isDigit_of_mem_toDigits (by decide) (by decide) hdigit

theorem digitsValue_appendInt (value width : ℕ) :
    digitsValue (ascii (appendInt value width)) = some value := by
  unfold digitsValue ascii
  rw [digitsValue_chars (isDigit_appendInt value width)]
  simp [appendInt, Nat.ofDigitChars_append]

theorem width_le_length_appendInt (value width : ℕ) :
    width ≤ (ascii (appendInt value width)).length := by
  simp only [length_ascii, appendInt, String.toList_ofList, List.length_append, List.length_replicate]
  omega

theorem lt_of_length_appendInt {value width bound : ℕ} (hbound : 0 < bound)
    (hlength : (ascii (appendInt value width)).length ≤ bound) : value < 10 ^ bound := by
  rw [← Nat.length_toDigits_le_iff (by decide) hbound]
  simp only [length_ascii, appendInt, String.toList_ofList, List.length_append,
    List.length_replicate] at hlength
  omega

/-- A number that fits is written in exactly the given width. -/
theorem length_appendInt {value width : ℕ} (hwidth : 0 < width) (hvalue : value < 10 ^ width) :
    (ascii (appendInt value width)).length = width := by
  have hlength := (Nat.length_toDigits_le_iff (by decide : 1 < 10) hwidth).mpr hvalue
  simp only [length_ascii, appendInt, String.toList_ofList, List.length_append, List.length_replicate]
  omega

/-! ## Timestamps -/

/-- The parts of a timestamp, of their lengths and joined with its separators. -/
def joinTimestamp (year month day hour minute second : Bytes) : Bytes :=
  year ++ [45] ++ month ++ [45] ++ day ++ [84] ++ hour ++ [58] ++ minute ++ [58] ++ second ++ [90]

/-- Fields of the right widths and ranges are read back from the joined text. -/
theorem parseRFC3339_joinTimestamp {yearDigits monthDigits dayDigits hourDigits minuteDigits
      secondDigits : Bytes} {year month day hour minute second : ℕ}
    (hyear : yearDigits.length = 4 ∧ digitsValue yearDigits = some year)
    (hmonth : monthDigits.length = 2 ∧ digitsValue monthDigits = some month)
    (hday : dayDigits.length = 2 ∧ digitsValue dayDigits = some day)
    (hhour : hourDigits.length = 2 ∧ digitsValue hourDigits = some hour)
    (hminute : minuteDigits.length = 2 ∧ digitsValue minuteDigits = some minute)
    (hsecond : secondDigits.length = 2 ∧ digitsValue secondDigits = some second)
    (hdate : 1 ≤ month ∧ month ≤ 12 ∧ 1 ≤ day ∧ day ≤ daysIn month year)
    (hclock : hour < 24 ∧ minute < 60 ∧ second < 60) :
    parseRFC3339 (joinTimestamp yearDigits monthDigits dayDigits hourDigits minuteDigits secondDigits) =
      some ((daysOfDate ⟨year, month, day⟩ * 86400 + hour * 3600 + minute * 60 + second) *
        nanosPerSecond) := by
  obtain ⟨hyearLength, hyear⟩ := hyear
  obtain ⟨hmonthLength, hmonth⟩ := hmonth
  obtain ⟨hdayLength, hday⟩ := hday
  obtain ⟨hhourLength, hhour⟩ := hhour
  obtain ⟨hminuteLength, hminute⟩ := hminute
  obtain ⟨hsecondLength, hsecond⟩ := hsecond
  match yearDigits, hyearLength, monthDigits, hmonthLength, dayDigits, hdayLength, hourDigits,
    hhourLength, minuteDigits, hminuteLength, secondDigits, hsecondLength with
  | [_, _, _, _], _, [_, _], _, [_, _], _, [_, _], _, [_, _], _, [_, _], _ =>
    simp [parseRFC3339, joinTimestamp, hyear, hmonth, hday, hhour, hminute, hsecond, hdate, hclock]

/-- The instants whose year has four digits. -/
def Time.FourDigitYear (instant : Time) : Prop :=
  0 ≤ (dateOfDays (instant.unix / 86400)).year ∧ (dateOfDays (instant.unix / 86400)).year ≤ 9999

instance (instant : Time) : Decidable instant.FourDigitYear := inferInstanceAs (Decidable (_ ∧ _))

variable {instant : Time}

/-- A timestamp of the usual length is one of a year of four digits. -/
theorem fourDigitYear_of_length (hlength : (ascii (formatRFC3339 instant)).length = 20) :
    instant.FourDigitYear := by
  unfold Time.FourDigitYear
  unfold formatRFC3339 at hlength
  dsimp only at hlength
  generalize dateOfDays (instant.unix / 86400) = date at hlength ⊢
  have hmonth := width_le_length_appendInt date.month 2
  have hday := width_le_length_appendInt date.day 2
  have hhour := width_le_length_appendInt ((instant.unix % 86400).toNat / 3600) 2
  have hminute := width_le_length_appendInt ((instant.unix % 86400).toNat / 60 % 60) 2
  have hsecond := width_le_length_appendInt ((instant.unix % 86400).toNat % 60) 2
  have hyear := width_le_length_appendInt date.year.natAbs 4
  have hseparators : (ascii "-").length = 1 ∧ (ascii "T").length = 1 ∧ (ascii ":").length = 1 ∧
      (ascii "Z").length = 1 := by decide
  simp only [ascii_append, List.length_append, hseparators] at hlength
  split_ifs at hlength with hsign
  · rw [hseparators.1] at hlength
    omega
  · have hfour : (ascii (appendInt date.year.natAbs 4)).length ≤ 4 := by omega
    have hlt := lt_of_length_appendInt (by decide) hfour
    omega

theorem ascii_formatRFC3339 (hyear : instant.FourDigitYear) :
    ascii (formatRFC3339 instant) =
      joinTimestamp (ascii (appendInt (dateOfDays (instant.unix / 86400)).year.natAbs 4))
        (ascii (appendInt (dateOfDays (instant.unix / 86400)).month 2))
        (ascii (appendInt (dateOfDays (instant.unix / 86400)).day 2))
        (ascii (appendInt ((instant.unix % 86400).toNat / 3600) 2))
        (ascii (appendInt ((instant.unix % 86400).toNat / 60 % 60) 2))
        (ascii (appendInt ((instant.unix % 86400).toNat % 60) 2)) := by
  have hsign : ¬ (dateOfDays (instant.unix / 86400)).year < 0 := by
    have := hyear.1
    omega
  have hseparators : ascii "" = [] ∧ ascii "-" = [45] ∧ ascii "T" = [84] ∧ ascii ":" = [58] ∧
      ascii "Z" = [90] := by decide
  unfold formatRFC3339 joinTimestamp
  dsimp only
  rw [if_neg hsign]
  generalize dateOfDays (instant.unix / 86400) = date
  simp only [ascii_append, hseparators, List.nil_append]

/-- A timestamp is read back as its instant, without the fraction of a second. -/
theorem parseRFC3339_formatRFC3339 (hyear : instant.FourDigitYear) :
    parseRFC3339 (ascii (formatRFC3339 instant)) = some (instant.unix * nanosPerSecond) := by
  rw [ascii_formatRFC3339 hyear]
  obtain ⟨hmonth, hmonth', hday, hday', hdays⟩ := dateOfDays_valid (instant.unix / 86400)
  unfold Time.FourDigitYear at hyear
  generalize dateOfDays (instant.unix / 86400) = date at hyear hmonth hmonth' hday hday' hdays ⊢
  have hdayBound := hday'.trans (daysIn_le date.month date.year)
  have hyearCast : ((date.year.natAbs : ℕ) : ℤ) = date.year := by omega
  rw [parseRFC3339_joinTimestamp
    ⟨length_appendInt (by decide) (by omega), digitsValue_appendInt _ _⟩
    ⟨length_appendInt (by decide) (by omega), digitsValue_appendInt _ _⟩
    ⟨length_appendInt (by decide) (by omega), digitsValue_appendInt _ _⟩
    ⟨length_appendInt (by decide) (by omega), digitsValue_appendInt _ _⟩
    ⟨length_appendInt (by decide) (by omega), digitsValue_appendInt _ _⟩
    ⟨length_appendInt (by decide) (by omega), digitsValue_appendInt _ _⟩
    ⟨hmonth, hmonth', hday, by rwa [hyearCast]⟩ (by omega)]
  congr 2
  rw [hyearCast]
  change daysOfDate date * 86400 + _ + _ + _ = _
  rw [hdays]
  push_cast
  omega

/-- The instants that a timestamp can express. -/
def Time.Canonical (instant : Time) : Prop := instant.FourDigitYear ∧ instant % nanosPerSecond = 0

instance (instant : Time) : Decidable instant.Canonical := inferInstanceAs (Decidable (_ ∧ _))

theorem Time.Canonical.unix_mul (hcanonical : instant.Canonical) :
    instant.unix * nanosPerSecond = instant :=
  Int.ediv_mul_cancel_of_emod_eq_zero hcanonical.2

/-- Only timestamps of the usual length are read, and as whole seconds. -/
theorem of_parseRFC3339 {text : Bytes} (hparse : parseRFC3339 text = some instant) :
    text.length = 20 ∧ instant % nanosPerSecond = 0 := by
  unfold parseRFC3339 at hparse
  simp only [Option.bind_eq_bind, Option.bind_eq_some_iff] at hparse
  obtain ⟨_, hlength, _, _, _, _, _, _, _, _, _, _, _, _, _, _, _, _, _, _, hinstant⟩ := hparse
  have hguard : text.length = 20 := by
    by_contra hne
    rw [guard, if_neg hne] at hlength
    cases hlength
  rw [← Option.some.inj hinstant]
  exact ⟨hguard, Int.mul_emod_left _ _⟩

theorem newline_notMem_appendInt (value width : ℕ) : 10 ∉ ascii (appendInt value width) := by
  intro hmem
  obtain ⟨char, hchar, hbyte⟩ := List.mem_map.mp hmem
  have hvalue := digitValue_char (isDigit_appendInt value width char hchar)
  rw [hbyte] at hvalue
  cases hvalue

theorem newline_notMem_formatRFC3339 (instant : Time) : 10 ∉ ascii (formatRFC3339 instant) := by
  have hseparators : 10 ∉ ascii "-" ∧ 10 ∉ ascii "T" ∧ 10 ∉ ascii ":" ∧ 10 ∉ ascii "Z" ∧
      10 ∉ ascii "" := by decide
  unfold formatRFC3339
  dsimp only
  simp only [ascii_append, List.mem_append, newline_notMem_appendInt, hseparators, or_false]
  split_ifs
  · exact hseparators.1
  · exact hseparators.2.2.2.2

end Mosey
