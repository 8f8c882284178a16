import Harvest.Instant.Calendar

/-!
# The date of a day gives the day back

A cycle of 400 years is four centuries, a century 25 times four years, and each of these a few days
beyond the years that it consists of. Only the last year of four has a day more than the others,
unless it also is the last one of a century and not of the cycle.
-/

namespace Harvest.Date

variable {d : Int}

/-- A day of a cycle: its century, its four years within that, its year within these and its day
within the year, all counted from 0. -/
structure IsDayOfCycle (d century four year day : Int) : Prop where
  century_range : 0 ≤ century ∧ century < 4
  four_range : 0 ≤ four ∧ four < 25
  year_range : 0 ≤ year ∧ year < 4
  day_range : 0 ≤ day ∧ day < 366
  leap : day = 365 → year = 3 ∧ (four < 24 ∨ century = 3)
  eq : d = 36524 * century + 1461 * four + 365 * year + day

/-- Every day of a cycle has its place. -/
theorem exists_isDayOfCycle (h : 0 ≤ d) (h' : d < 146097) :
    ∃ century four year day, IsDayOfCycle d century four year day := by
  have hcentury : ∃ century r, 0 ≤ century ∧ century < 4 ∧ 0 ≤ r ∧
      (r < 36524 ∨ r = 36524 ∧ century = 3) ∧ d = 36524 * century + r := by
    by_cases hlast : d = 146096
    · exact ⟨3, 36524, by omega⟩
    · exact ⟨d / 36524, d % 36524, by omega⟩
  obtain ⟨century, r, hc, hc', hr, hlast, rfl⟩ := hcentury
  have hyear : ∃ year day, 0 ≤ year ∧ year < 4 ∧ 0 ≤ day ∧ (day < 365 ∨ day = 365 ∧ year = 3) ∧
      r % 1461 = 365 * year + day := by
    by_cases hleap : r % 1461 = 1460
    · exact ⟨3, 365, by omega⟩
    · exact ⟨r % 1461 / 365, r % 1461 % 365, by omega⟩
  obtain ⟨year, day, hy, hy', hday, hleap, heq⟩ := hyear
  refine ⟨century, r / 1461, year, day, ⟨hc, hc'⟩, ?_, ⟨hy, hy'⟩, ?_, ?_, ?_⟩ <;> omega

/-- The number of a year in its cycle, read off a day of the year. -/
theorem IsDayOfCycle.yearOfCycle {century four year day : Int}
    (h : IsDayOfCycle d century four year day) :
    (d - d / 1460 + d / 36524 - d / 146096) / 365 = 100 * century + 4 * four + year := by
  obtain ⟨hcentury, hfour, hyear, hday, hleap, rfl⟩ := h
  -- the last two divisions count the last day of the cycle, which both do
  have hcenturies : (36524 * century + 1461 * four + 365 * year + day) / 36524 -
      (36524 * century + 1461 * four + 365 * year + day) / 146096 = century := by
    by_cases hlast : century = 3 ∧ four = 24 ∧ year = 3 ∧ day = 365
    · obtain ⟨rfl, rfl, rfl, rfl⟩ := hlast
      decide
    · have hlt : 1461 * four + 365 * year + day < 36524 := by omega
      have hcentury : (36524 * century + 1461 * four + 365 * year + day) / 36524 = century := by
        omega
      have hcycle : (36524 * century + 1461 * four + 365 * year + day) / 146096 = 0 := by omega
      omega
  -- the first one counts a day more where the year is near its end
  have hfours : ∃ more : Int, (more = 0 ∨ more = 1 ∧ year = 3 ∧ 0 < day) ∧
      (day = 365 → more = 1) ∧
      (36524 * century + 1461 * four + 365 * year + day) / 1460 = 25 * century + four + more :=
    ⟨(24 * century + four + 365 * year + day) / 1460, by omega⟩
  obtain ⟨more, hmore, hmore', hfours⟩ := hfours
  omega

/-- The first day of a year within its cycle. -/
theorem IsDayOfCycle.dayOfYear {century four year day : Int}
    (h : IsDayOfCycle d century four year day) :
    let y := 100 * century + 4 * four + year
    d - (365 * y + y / 4 - y / 100) = day := by
  obtain ⟨hcentury, hfour, hyear, -, -, rfl⟩ := h
  intro y
  have hfours : y / 4 = 25 * century + four := by omega
  have hcenturies : y / 100 = century := by omega
  omega

/-- The date of a day of a year that is counted from March, in a cycle. -/
def ofYear (cycle year day : Int) : Date :=
  let monthFromMarch := (5 * day + 2) / 153
  let month := if monthFromMarch < 10 then monthFromMarch + 3 else monthFromMarch - 9
  let year := year + cycle * 400
  ⟨if month ≤ 2 then year + 1 else year, month.toNat,
    (day - (153 * monthFromMarch + 2) / 5 + 1).toNat⟩

/-- The date of a day is that of its place in its cycle. -/
theorem IsDayOfCycle.ofDays_eq {century four year day : Int}
    (h : IsDayOfCycle d century four year day) (cycle : Int) :
    ofDays (cycle * 146097 + d - 719468) = ofYear cycle (100 * century + 4 * four + year) day := by
  have hd : 0 ≤ d ∧ d < 146097 := by
    obtain ⟨hcentury, hfour, hyear, hday, hleap, rfl⟩ := h
    omega
  have hcycle : (cycle * 146097 + d - 719468 + 719468).fdiv 146097 = cycle := by
    rw [Int.fdiv_eq_ediv_of_nonneg _ (by decide)]
    omega
  have hday : cycle * 146097 + d - 719468 + 719468 - cycle * 146097 = d := by omega
  simp only [ofDays, hcycle, hday, h.yearOfCycle, h.dayOfYear, ofYear]

/-- The number of the day that a place in a cycle has. -/
theorem toDays_ofYear {year day : Int} (hyear : 0 ≤ year ∧ year < 400)
    (hday : 0 ≤ day ∧ day < 366) (cycle : Int) :
    (ofYear cycle year day).toDays =
      cycle * 146097 + (365 * year + year / 4 - year / 100 + day) - 719468 := by
  have hcycle : (year + cycle * 400).fdiv 400 = cycle := by
    rw [Int.fdiv_eq_ediv_of_nonneg _ (by decide)]
    omega
  have hrest : year + cycle * 400 - cycle * 400 = year := by omega
  obtain ⟨month, hmonth⟩ : ∃ month : Nat, (month : Int) = (5 * day + 2) / 153 :=
    ⟨((5 * day + 2) / 153).toNat, Int.toNat_of_nonneg (by omega)⟩
  have hdayOfMonth : ((day - (153 * month + 2) / 5 + 1).toNat : Int) =
      day - (153 * month + 2) / 5 + 1 := Int.toNat_of_nonneg (by omega)
  simp only [ofYear, ← hmonth, toDays, hdayOfMonth]
  have hle : month < 12 := by omega
  by_cases hlate : month < 10
  · have hmarch : (if (month : Int) < 10 then (month : Int) + 3 else month - 9) =
        (month + 3 : Nat) := by omega
    have hback : (month + 3 + 9) % 12 = month := by omega
    rw [hmarch, Int.toNat_natCast, if_neg (by omega), if_neg (by omega), hcycle, hrest, hback]
    omega
  · have hmarch : (if (month : Int) < 10 then (month : Int) + 3 else month - 9) =
        (month - 9 : Nat) := by omega
    have hback : (month - 9 + 9) % 12 = month := by omega
    rw [hmarch, Int.toNat_natCast, if_pos (by omega), if_pos (by omega), Int.add_sub_cancel,
      hcycle, hrest, hback]
    omega

/-- The date of a day gives its number back. -/
theorem toDays_ofDays (days : Int) : (ofDays days).toDays = days := by
  obtain ⟨cycle, d, hd, hd', rfl⟩ : ∃ cycle d : Int, 0 ≤ d ∧ d < 146097 ∧
      days = cycle * 146097 + d - 719468 :=
    ⟨(days + 719468) / 146097, (days + 719468) % 146097, by omega⟩
  obtain ⟨century, four, year, day, h⟩ := exists_isDayOfCycle hd hd'
  have hyear : 0 ≤ 100 * century + 4 * four + year ∧ 100 * century + 4 * four + year < 400 := by
    have := h.century_range
    have := h.four_range
    have := h.year_range
    omega
  have hday := h.dayOfYear
  rw [h.ofDays_eq, toDays_ofYear hyear h.day_range]
  omega

end Harvest.Date
