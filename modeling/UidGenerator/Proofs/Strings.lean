import UidGenerator.Spec.JavaDate

/-! Decimal numerals as code units: what `String` writes, `Number` reads. -/

namespace UID

theorem number_append (digits : JsString) (c : CodeUnit) :
    number (digits ++ [c]) = 10 * number digits + (c.toNat - 48) := by
  rw [number, List.foldl_append]
  rfl

theorem digitChar_cases (d : ℕ) (h : d < 10) :
    isDigit (unit (Nat.digitChar d)) = true ∧ (unit (Nat.digitChar d)).toNat - 48 = d := by
  interval_cases d <;> decide

theorem decimal_natCast (n : ℕ) : decimal n = (Nat.toDigits 10 n).map unit := by
  rw [decimal, js, show toString (n : ℤ) = toString n from rfl, Nat.toString_eq_ofList_toDigits,
    String.toList_ofList]

theorem decimal_natCast_of_le {n : ℕ} (h : 10 ≤ n) :
    decimal n = decimal (n / 10 : ℕ) ++ [unit (Nat.digitChar (n % 10))] := by
  rw [decimal_natCast, decimal_natCast, Nat.toDigits_of_base_le (by norm_num) h, List.map_append]
  rfl

theorem decimal_natCast_of_lt {n : ℕ} (h : n < 10) : decimal n = [unit (Nat.digitChar n)] := by
  rw [decimal_natCast, Nat.toDigits_of_lt_base h]
  rfl

theorem number_decimal (n : ℕ) : number (decimal n) = n := by
  induction n using Nat.strong_induction_on with
  | _ n ih =>
    rcases lt_or_ge n 10 with hlt | hge
    · rw [decimal_natCast_of_lt hlt, ← List.nil_append [_], number_append, (digitChar_cases n hlt).2]
      simp [number]
    · rw [decimal_natCast_of_le hge, number_append, ih (n / 10) (by omega),
        (digitChar_cases (n % 10) (by omega)).2]
      omega

theorem isDigit_decimal (n : ℕ) : ∀ c ∈ decimal n, isDigit c = true := by
  induction n using Nat.strong_induction_on with
  | _ n ih =>
    rcases lt_or_ge n 10 with hlt | hge
    · rw [decimal_natCast_of_lt hlt]
      simpa using (digitChar_cases n hlt).1
    · rw [decimal_natCast_of_le hge]
      intro c hc
      rcases List.mem_append.1 hc with hc | hc
      · exact ih (n / 10) (by omega) c hc
      · rw [List.mem_singleton.1 hc]
        exact (digitChar_cases (n % 10) (by omega)).1

theorem length_decimal_le {n k : ℕ} (hk : 0 < k) (h : n < 10 ^ k) : (decimal n).length ≤ k := by
  rw [decimal_natCast, List.length_map]
  exact (Nat.length_toDigits_le_iff (by norm_num) hk).2 h

theorem decimal_ne_nil (n : ℕ) : decimal n ≠ [] := by
  rw [decimal_natCast]
  simp [Nat.toDigits_ne_nil]

/-- A minus sign, if there is one, and digits. -/
theorem decimal_cases (value : ℤ) :
    (∃ n : ℕ, value = n ∧ decimal value = decimal n) ∨
      ∃ n : ℕ, value = -n ∧ decimal value = unit '-' :: decimal n := by
  cases value with
  | ofNat n => exact Or.inl ⟨n, rfl, rfl⟩
  | negSucc n =>
    refine Or.inr ⟨n + 1, rfl, ?_⟩
    rw [decimal, js, show toString (Int.negSucc n) = "-" ++ toString (n + 1) from rfl,
      String.toList_append, List.map_append]
    rfl

theorem codePoints_cons {c : CodeUnit} (h : c < 0xd800) (rest : JsString) :
    codePoints (c :: rest) = Char.ofNat c.toNat :: codePoints rest := by
  have hhigh : ¬0xd800 ≤ c := UInt16.not_le.2 h
  cases rest with
  | nil => simp [codePoints, hhigh]
  | cons low rest => simp [codePoints, hhigh]

theorem lt_of_isDigit {c : CodeUnit} (h : isDigit c = true) : c < 0xd800 := by
  simp only [isDigit, decide_eq_true_eq, UInt16.le_iff_toNat_le] at h
  rw [UInt16.lt_iff_toNat_lt]
  exact lt_of_le_of_lt h.2 (by decide)

/-- A text without surrogates is the string that it is shown as. -/
theorem js_text {s : JsString} (h : ∀ c ∈ s, c < 0xd800) : js (text s) = s := by
  rw [js, text, String.toList_ofList]
  induction s with
  | nil => rfl
  | cons c rest ih =>
    have hc := h c List.mem_cons_self
    have hunit : unit (Char.ofNat c.toNat) = c := by
      have hvalid : c.toNat.isValidChar := Or.inl (UInt16.lt_iff_toNat_lt.1 hc)
      have hcode : (Char.ofNat c.toNat).toNat = c.toNat := by
        rw [Char.ofNat, dif_pos hvalid]
        rfl
      rw [unit, hcode, UInt16.ofNat_toNat]
    rw [codePoints_cons hc, List.map_cons, hunit, ih fun c hc => h c (List.mem_cons_of_mem _ hc)]

theorem number_cons_zero (digits : JsString) : number (unit '0' :: digits) = number digits := rfl

theorem number_replicate_zero (k : ℕ) (digits : JsString) :
    number (List.replicate k (unit '0') ++ digits) = number digits := by
  induction k with
  | zero => rfl
  | succ k ih => rw [List.replicate_succ, List.cons_append, number_cons_zero, ih]

theorem number_pad (n width : ℕ) : number (pad n width) = n := by
  rw [pad, List.leftpad, number_replicate_zero, number_decimal]

theorem isDigit_pad (n width : ℕ) : ∀ c ∈ pad n width, isDigit c = true := by
  intro c hc
  rw [pad, List.leftpad] at hc
  rcases List.mem_append.1 hc with hc | hc
  · rw [List.eq_of_mem_replicate hc]
    decide
  · exact isDigit_decimal n c hc

theorem length_pad_le {n width k : ℕ} (hwidth : width ≤ k) (hk : 0 < k) (h : n < 10 ^ k) :
    (pad n width).length ≤ k := by
  rw [pad, List.length_leftpad]
  exact max_le hwidth (length_decimal_le hk h)

theorem length_pad {n width : ℕ} (hwidth : 0 < width) (h : n < 10 ^ width) :
    (pad n width).length = width := by
  rw [pad, List.length_leftpad]
  exact max_eq_left (length_decimal_le hwidth h)

theorem pad_ne_nil (n width : ℕ) : pad n width ≠ [] := by
  rw [pad, List.leftpad]
  simp [decimal_ne_nil]

end UID
