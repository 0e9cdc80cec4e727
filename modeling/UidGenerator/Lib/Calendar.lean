import Mathlib.Tactic

/-! The proleptic Gregorian calendar over all integers. Months are numbered through: month
`12 * y + m` is month `m`, from 0 on, of the year `y`, so leniency in months is addition.
Day 0 is 1 January 1970. -/

namespace Calendar

def dayFromYear (y : ℤ) : ℤ :=
  365 * (y - 1970) + (y - 1969) / 4 - (y - 1901) / 100 + (y - 1601) / 400

def IsLeap (y : ℤ) : Prop := y % 4 = 0 ∧ (y % 100 ≠ 0 ∨ y % 400 = 0)

instance : DecidablePred IsLeap := fun _ => inferInstanceAs (Decidable (_ ∧ (_ ∨ _)))

/-- The days of a common year before its month `m`, from 0 on. -/
def daysBefore (m : ℤ) : ℤ :=
  match m.toNat with
  | 0 => 0
  | 1 => 31
  | 2 => 59
  | 3 => 90
  | 4 => 120
  | 5 => 151
  | 6 => 181
  | 7 => 212
  | 8 => 243
  | 9 => 273
  | 10 => 304
  | _ => 334

def dayFromMonth (k : ℤ) : ℤ :=
  dayFromYear (k / 12) + daysBefore (k % 12) + if IsLeap (k / 12) ∧ 2 ≤ k % 12 then 1 else 0

def monthLength (k : ℤ) : ℤ :=
  match (k % 12).toNat with
  | 1 => if IsLeap (k / 12) then 29 else 28
  | 3 | 5 | 8 | 10 => 30
  | _ => 31

theorem dayFromYear_succ (y : ℤ) :
    dayFromYear (y + 1) = dayFromYear y + if IsLeap y then 366 else 365 := by
  unfold dayFromYear IsLeap
  split_ifs <;> omega

theorem month_cases (k : ℤ) : ∃ y m : ℤ, k = 12 * y + m ∧ 0 ≤ m ∧ m < 12 :=
  ⟨k / 12, k % 12, by omega, by omega, by omega⟩

theorem dayFromMonth_add {y m : ℤ} (h0 : 0 ≤ m) (h : m < 12) :
    dayFromMonth (12 * y + m) =
      dayFromYear y + daysBefore m + if IsLeap y ∧ 2 ≤ m then 1 else 0 := by
  rw [dayFromMonth, show (12 * y + m) / 12 = y by omega, show (12 * y + m) % 12 = m by omega]

theorem dayFromMonth_succ (k : ℤ) : dayFromMonth (k + 1) = dayFromMonth k + monthLength k := by
  obtain ⟨y, m, rfl, h0, hlt⟩ := month_cases k
  rw [dayFromMonth_add h0 hlt, monthLength, show (12 * y + m) / 12 = y by omega,
    show (12 * y + m) % 12 = m by omega]
  by_cases hlast : m = 11
  · subst hlast
    rw [show 12 * y + 11 + 1 = 12 * (y + 1) + 0 by ring, dayFromMonth_add le_rfl (by norm_num),
      dayFromYear_succ]
    by_cases hleap : IsLeap y <;> simp [hleap, daysBefore] <;> ring
  · rw [add_assoc, dayFromMonth_add (by omega) (by omega)]
    by_cases hleap : IsLeap y <;> interval_cases m <;> simp [hleap, daysBefore] at hlast ⊢ <;> ring

theorem le_monthLength (k : ℤ) : 28 ≤ monthLength k := by
  unfold monthLength
  split
  · split_ifs <;> norm_num
  all_goals norm_num

theorem monthLength_le (k : ℤ) : monthLength k ≤ 31 := by
  unfold monthLength
  split
  · split_ifs <;> norm_num
  all_goals norm_num

theorem dayFromMonth_strictMono : StrictMono dayFromMonth :=
  strictMono_int_of_lt_succ fun k => by
    rw [dayFromMonth_succ]
    exact lt_add_of_pos_right _ (by have := le_monthLength k; omega)

theorem daysBefore_near {m : ℤ} (h0 : 0 ≤ m) (h : m < 12) :
    146097 * m - 9600 < 4800 * daysBefore m ∧ 4800 * daysBefore m < 146097 * m + 4800 := by
  interval_cases m <;> decide

/-- The average month has 146097 / 4800 days, and no month is far from its place. -/
theorem dayFromMonth_near (k : ℤ) :
    146097 * k - 19200 < 4800 * (dayFromMonth k + 719528) ∧
      4800 * (dayFromMonth k + 719528) < 146097 * k + 19200 := by
  obtain ⟨y, m, rfl, h0, hlt⟩ := month_cases k
  have hmonth := daysBefore_near h0 hlt
  rw [dayFromMonth_add h0 hlt, dayFromYear]
  split_ifs <;> omega

/-- The last of the months from `k` to `k + fuel` that does not start after day `n`. -/
def monthFrom (n k : ℤ) : ℕ → ℤ
  | 0 => k
  | fuel + 1 => if dayFromMonth (k + 1) ≤ n then monthFrom n (k + 1) fuel else k

def monthFromDay (n : ℤ) : ℤ := monthFrom n ((n + 719528) * 4800 / 146097 - 1) 3

theorem monthFrom_spec {n k : ℤ} {fuel : ℕ} (hle : dayFromMonth k ≤ n)
    (hlt : n < dayFromMonth (k + fuel + 1)) :
    dayFromMonth (monthFrom n k fuel) ≤ n ∧ n < dayFromMonth (monthFrom n k fuel + 1) := by
  induction fuel generalizing k with
  | zero => exact ⟨hle, by simpa [monthFrom] using hlt⟩
  | succ fuel ih =>
    unfold monthFrom
    split_ifs with hnext
    · refine ih hnext ?_
      rwa [show k + 1 + fuel + 1 = k + (fuel + 1 : ℕ) + 1 by push_cast; ring]
    · exact ⟨hle, not_le.1 hnext⟩

theorem monthFromDay_spec (n : ℤ) :
    dayFromMonth (monthFromDay n) ≤ n ∧ n < dayFromMonth (monthFromDay n + 1) := by
  have hbelow := dayFromMonth_near ((n + 719528) * 4800 / 146097 - 1)
  have habove := dayFromMonth_near ((n + 719528) * 4800 / 146097 - 1 + 3 + 1)
  exact monthFrom_spec (by omega) (by push_cast; omega)

theorem monthFromDay_eq_iff {n k : ℤ} :
    monthFromDay n = k ↔ dayFromMonth k ≤ n ∧ n < dayFromMonth (k + 1) := by
  obtain ⟨hle, hlt⟩ := monthFromDay_spec n
  refine ⟨?_, ?_⟩
  · rintro rfl
    exact ⟨hle, hlt⟩
  · rintro ⟨hle', hlt'⟩
    have h₁ := dayFromMonth_strictMono.lt_iff_lt.1 (hle.trans_lt hlt')
    have h₂ := dayFromMonth_strictMono.lt_iff_lt.1 (hle'.trans_lt hlt)
    omega

theorem monthFromDay_first (k : ℤ) {r : ℤ} (h0 : 0 ≤ r) (h : r < monthLength k) :
    monthFromDay (dayFromMonth k + r) = k :=
  monthFromDay_eq_iff.2 ⟨by omega, by rw [dayFromMonth_succ]; omega⟩

theorem dayFromMonth_add_cycle (k c : ℤ) :
    dayFromMonth (k + 4800 * c) = dayFromMonth k + 146097 * c := by
  obtain ⟨y, m, rfl, h0, hlt⟩ := month_cases k
  have hleap : IsLeap (y + 400 * c) ↔ IsLeap y := by
    unfold IsLeap
    omega
  rw [show 12 * y + m + 4800 * c = 12 * (y + 400 * c) + m by ring, dayFromMonth_add h0 hlt,
    dayFromMonth_add h0 hlt]
  simp only [hleap, dayFromYear]
  omega

/-- The months from `a` to `a + length`, in every cycle, by their days. -/
theorem cycle_month_iff {n k : ℤ} (a length : ℤ) (hmonth : monthFromDay n = k) :
    (k - a) % 4800 < length ↔
      (n - dayFromMonth a) % 146097 < dayFromMonth (a + length) - dayFromMonth a := by
  obtain ⟨hle, hlt⟩ := monthFromDay_eq_iff.1 hmonth
  obtain ⟨c, j, rfl, hj0, hj⟩ : ∃ c j : ℤ, k = a + j + 4800 * c ∧ 0 ≤ j ∧ j < 4800 :=
    ⟨(k - a) / 4800, (k - a) % 4800, by omega, by omega, by omega⟩
  have hmono := dayFromMonth_strictMono.monotone
  rw [dayFromMonth_add_cycle] at hle
  rw [show a + j + 4800 * c + 1 = a + j + 1 + 4800 * c by ring, dayFromMonth_add_cycle] at hlt
  have hfirst := hmono (show a ≤ a + j by omega)
  have hlast := hmono (show a + j + 1 ≤ a + 4800 * 1 by omega)
  rw [dayFromMonth_add_cycle] at hlast
  have hmod : (n - dayFromMonth a) % 146097 = n - dayFromMonth a - 146097 * c := by omega
  rw [show (a + j + 4800 * c - a) % 4800 = j by omega, hmod]
  refine ⟨?_, ?_⟩
  · intro hin
    have := hmono (show a + j + 1 ≤ a + length by omega)
    omega
  · intro hin
    by_contra hout
    have := hmono (show a + length ≤ a + j by omega)
    omega

end Calendar
