import UidGenerator.Spec.Properties

/-! The scans of `parseProperties`: escapes are read apart from each other, and a text
without a line feed is one line. -/

namespace UID

/-- Whether a character after the text is escaped: an odd number of backslashes stands
before it, counted from the flag before the text. -/
def escapedAfter : Bool → JsString → Bool
  | escaped, [] => escaped
  | escaped, c :: rest => escapedAfter (decide (c = BACKSLASH) && !escaped) rest

theorem escapedAfter_append (escaped : Bool) (a b : JsString) :
    escapedAfter escaped (a ++ b) = escapedAfter (escapedAfter escaped a) b := by
  induction a generalizing escaped with
  | nil => rfl
  | cons c a ih => exact ih _

theorem unescapeFrom_consumed (consumed : ℕ) (value : JsString) :
    unescapeFrom consumed value = unescape (value.drop consumed) := by
  induction consumed generalizing value with
  | zero => rfl
  | succ consumed ih =>
    cases value with
    | nil => rfl
    | cons c rest => exact ih rest

theorem unescape_nil : unescape [] = [] := rfl

theorem unescape_cons {c : CodeUnit} (h : c ≠ BACKSLASH) (rest : JsString) :
    unescape (c :: rest) = c :: unescape rest := by
  rw [unescape, unescapeFrom.eq_def]
  simp only [if_neg h]
  rfl

theorem unescape_plain {a : JsString} (h : ∀ c ∈ a, c ≠ BACKSLASH) (rest : JsString) :
    unescape (a ++ rest) = a ++ unescape rest := by
  induction a with
  | nil => rfl
  | cons c a ih =>
    rw [List.cons_append, unescape_cons (h c (by simp)),
      ih fun d hd => h d (List.mem_cons_of_mem c hd)]
    rfl

theorem unescape_backslash : unescape [BACKSLASH] = [BACKSLASH] := rfl

/-- A backslash before digits of a code. -/
theorem unescape_unicode {rest : JsString} {code : CodeUnit} (h : unicodeEscape rest = some code) :
    unescape (BACKSLASH :: rest) = code :: unescape (rest.drop 5) := by
  rw [unescape, unescapeFrom.eq_def, ← unescapeFrom_consumed]
  simp only [if_pos, h]

/-- A backslash before another character. -/
theorem unescape_escape {e : CodeUnit} {rest : JsString} (h : unicodeEscape (e :: rest) = none) :
    unescape (BACKSLASH :: e :: rest) =
      if isLineTerminator e then BACKSLASH :: unescape (e :: rest)
      else escapeOf e :: unescape rest := by
  rw [unescape, unescapeFrom.eq_def]
  simp only [if_pos, h]
  rfl

theorem length_unescape_le (value : JsString) : (unescape value).length ≤ value.length := by
  induction hlen : value.length using Nat.strong_induction_on generalizing value with
  | _ n ih =>
    cases value with
    | nil => simp [unescape_nil]
    | cons c rest =>
      rw [List.length_cons] at hlen
      by_cases hc : c = BACKSLASH
      · subst hc
        cases hcode : unicodeEscape rest with
        | some code =>
          have hrest := ih (rest.drop 5).length (by rw [List.length_drop]; omega) _ rfl
          rw [unescape_unicode hcode, List.length_cons]
          rw [List.length_drop] at hrest
          omega
        | none =>
          cases rest with
          | nil => rw [unescape_backslash, ← hlen]; rfl
          | cons e rest =>
            rw [List.length_cons] at hlen
            have hrest := ih rest.length (by omega) rest rfl
            have hcons := ih (rest.length + 1) (by omega) (e :: rest) rfl
            rw [unescape_escape hcode]
            split_ifs <;> rw [List.length_cons] <;> omega
      · have hrest := ih rest.length (by omega) rest rfl
        rw [unescape_cons hc, List.length_cons]
        omega

theorem unicodeEscape_of_ne {c : CodeUnit} (h : c ≠ unit 'u') (rest : JsString) :
    unicodeEscape (c :: rest) = none := by
  match rest with
  | [] | [_] | [_, _] | [_, _, _] => rfl
  | _ :: _ :: _ :: _ :: _ =>
    simp only [unicodeEscape, if_neg h]
    split <;> rfl

/-- What a text with escapes stands for: a code of four hexadecimal digits for its character,
any other escape for the one `escapeOf` gives. A backslash before a line terminator, or at the
end of the text, stands for itself. -/
inductive Unescapes : JsString → JsString → Prop
  | nil : Unescapes [] []
  | plain {c : CodeUnit} {rest text : JsString} (hc : c ≠ BACKSLASH) (stands : Unescapes rest text) :
      Unescapes (c :: rest) (c :: text)
  | code {a b c d : CodeUnit} {ka kb kc kd : ℕ} {rest text : JsString}
      (digits : [a, b, c, d].map hexDigit = [some ka, some kb, some kc, some kd])
      (stands : Unescapes rest text) :
      Unescapes (BACKSLASH :: unit 'u' :: a :: b :: c :: d :: rest)
        (UInt16.ofNat (((ka * 16 + kb) * 16 + kc) * 16 + kd) :: text)
  | escape {e : CodeUnit} {rest text : JsString} (noCode : unicodeEscape (e :: rest) = none)
      (noTerminator : isLineTerminator e = false) (stands : Unescapes rest text) :
      Unescapes (BACKSLASH :: e :: rest) (escapeOf e :: text)
  | terminator {e : CodeUnit} {rest text : JsString} (he : isLineTerminator e = true)
      (stands : Unescapes (e :: rest) text) :
      Unescapes (BACKSLASH :: e :: rest) (BACKSLASH :: text)
  | last : Unescapes [BACKSLASH] [BACKSLASH]

theorem unicodeEscape_eq_some {rest : JsString} {code : CodeUnit} (h : unicodeEscape rest = some code) :
    ∃ a b c d ka kb kc kd rest', rest = unit 'u' :: a :: b :: c :: d :: rest' ∧
      [a, b, c, d].map hexDigit = [some ka, some kb, some kc, some kd] ∧
      code = UInt16.ofNat (((ka * 16 + kb) * 16 + kc) * 16 + kd) := by
  rw [unicodeEscape.eq_def] at h
  split at h
  · rename_i u a b c d rest'
    split at h
    · rename_i ka kb kc kd ha hb hc hd
      split_ifs at h with hu
      exact ⟨a, b, c, d, ka, kb, kc, kd, rest', by rw [hu], by simp [ha, hb, hc, hd],
        (Option.some.inj h).symm⟩
    · cases h
  · cases h

theorem unescapes_unescape (value : JsString) : Unescapes value (unescape value) := by
  induction hlen : value.length using Nat.strong_induction_on generalizing value with
  | _ n ih =>
    cases value with
    | nil => exact .nil
    | cons c rest =>
      rw [List.length_cons] at hlen
      by_cases hc : c = BACKSLASH
      · subst hc
        cases hcode : unicodeEscape rest with
        | some code =>
          rw [unescape_unicode hcode]
          obtain ⟨a, b, c, d, ka, kb, kc, kd, rest, rfl, hdigits, rfl⟩ := unicodeEscape_eq_some hcode
          simp only [List.length_cons] at hlen
          exact .code hdigits (ih rest.length (by omega) rest rfl)
        | none =>
          cases rest with
          | nil => exact .last
          | cons e rest =>
            rw [List.length_cons] at hlen
            rw [unescape_escape hcode]
            split_ifs with he
            · exact .terminator he (ih (rest.length + 1) (by omega) (e :: rest) rfl)
            · exact .escape hcode (Bool.eq_false_iff.2 he) (ih rest.length (by omega) rest rfl)
      · rw [unescape_cons hc]
        exact .plain hc (ih rest.length (by omega) rest rfl)

/-- `unescape` gives what the text stands for. -/
theorem unescapes_iff {value text : JsString} : Unescapes value text ↔ unescape value = text := by
  refine ⟨fun h => ?_, fun h => h ▸ unescapes_unescape value⟩
  induction h with
  | nil => rfl
  | plain hc _ ih => rw [unescape_cons hc, ih]
  | @code a b c d ka kb kc kd rest text digits _ ih =>
    simp only [List.map_cons, List.cons.injEq] at digits
    obtain ⟨ha, hb, hc, hd, -⟩ := digits
    have hcode : unicodeEscape (unit 'u' :: a :: b :: c :: d :: rest) =
        some (UInt16.ofNat (((ka * 16 + kb) * 16 + kc) * 16 + kd)) := by
      simp only [unicodeEscape, ha, hb, hc, hd, if_pos]
    rw [unescape_unicode hcode]
    exact congrArg (_ :: ·) ih
  | escape noCode noTerminator _ ih =>
    rw [unescape_escape noCode, noTerminator, ih]
    rfl
  | @terminator e rest text he _ ih =>
    have hu : e ≠ unit 'u' := by
      rintro rfl
      exact absurd he (by decide)
    rw [unescape_escape (unicodeEscape_of_ne hu rest), if_pos he, ih]
  | last => rfl

/-- The digits of a code end where a text goes on without one. -/
theorem unicodeEscape_append {e : CodeUnit} (a : JsString) {b : JsString}
    (hb : ∀ c ∈ b.head?, hexDigit c = none) :
    unicodeEscape (e :: a ++ b) = unicodeEscape (e :: a) := by
  cases b with
  | nil => rw [List.append_nil]
  | cons c b =>
    have hc := hb c rfl
    match a with
    | [] => rcases b with _ | ⟨x, _ | ⟨y, _ | ⟨z, b⟩⟩⟩ <;> simp [unicodeEscape, hc]
    | [x] => rcases b with _ | ⟨y, _ | ⟨z, b⟩⟩ <;> simp [unicodeEscape, hc]
    | [x, y] => rcases b with _ | ⟨z, b⟩ <;> simp [unicodeEscape, hc]
    | [x, y, z] => simp [unicodeEscape, hc]
    | x :: y :: z :: w :: a => rfl

/-- The text of a code is `u` and four digits. -/
theorem unicodeEscape_some {rest : JsString} {code : CodeUnit} (h : unicodeEscape rest = some code) :
    5 ≤ rest.length ∧ ∀ c ∈ rest.take 5, c ≠ BACKSLASH := by
  have hdigit : hexDigit BACKSLASH = none := by decide
  match rest with
  | [] | [_] | [_, _] | [_, _, _] | [_, _, _, _] => simp [unicodeEscape] at h
  | u :: a :: b :: c :: d :: rest =>
    refine ⟨by simp, ?_⟩
    simp only [unicodeEscape] at h
    split at h
    · next ha hb hc hd =>
      split_ifs at h with hu
      have hne : ∀ {x : CodeUnit} {n : ℕ}, hexDigit x = some n → x ≠ BACKSLASH := by
        rintro x n hx rfl
        rw [hdigit] at hx
        cases hx
      simp only [List.take_succ_cons, List.take_zero, List.mem_cons, List.not_mem_nil, or_false]
      rintro x (rfl | rfl | rfl | rfl | rfl)
      · rw [hu]
        decide
      · exact hne ha
      · exact hne hb
      · exact hne hc
      · exact hne hd
    · cases h

theorem escapedAfter_of_plain {a : JsString} (h : ∀ c ∈ a, c ≠ BACKSLASH) (hne : a ≠ []) (escaped : Bool) :
    escapedAfter escaped a = false := by
  induction a generalizing escaped with
  | nil => exact absurd rfl hne
  | cons c a ih =>
    rw [escapedAfter, decide_eq_false (h c (by simp)), Bool.false_and]
    cases a with
    | nil => rfl
    | cons d a => exact ih (fun x hx => h x (List.mem_cons_of_mem _ hx)) (List.cons_ne_nil d a) false

/-- Escapes are read one after the other. -/
theorem unescape_append {a b : JsString} (ha : escapedAfter false a = false)
    (hb : ∀ c ∈ b.head?, hexDigit c = none) : unescape (a ++ b) = unescape a ++ unescape b := by
  induction hlen : a.length using Nat.strong_induction_on generalizing a with
  | _ n ih =>
    cases a with
    | nil => rfl
    | cons c a =>
      rw [List.length_cons] at hlen
      by_cases hc : c = BACKSLASH
      · subst hc
        cases a with
        | nil => cases ha
        | cons e a =>
          rw [List.length_cons] at hlen
          cases hcode : unicodeEscape (e :: a) with
          | some code =>
            obtain ⟨hfive, hplain⟩ := unicodeEscape_some hcode
            have hsplit : escapedAfter false ((e :: a).drop 5) = false := by
              rw [escapedAfter, ← List.take_append_drop 5 (e :: a), escapedAfter_append,
                escapedAfter_of_plain hplain (by simp)] at ha
              exact ha
            have hrest := ih ((e :: a).drop 5).length (by simp; omega) hsplit rfl
            have hcode' : unicodeEscape (e :: a ++ b) = some code := by
              rw [unicodeEscape_append a hb, hcode]
            rw [List.cons_append, unescape_unicode hcode', unescape_unicode hcode,
              List.drop_append_of_le_length hfive, hrest]
            rfl
          | none =>
            have hcode' : unicodeEscape (e :: (a ++ b)) = none := by
              rw [← List.cons_append, unicodeEscape_append a hb, hcode]
            have ha' : escapedAfter false a = false := by
              simpa [escapedAfter] using ha
            have hrest := ih a.length (by omega) ha' rfl
            rw [List.cons_append, List.cons_append, unescape_escape hcode', unescape_escape hcode]
            split_ifs with hterm
            · have he : e ≠ BACKSLASH := by
                rintro rfl
                exact absurd hterm (by decide)
              rw [unescape_cons he, unescape_cons he, hrest]
              rfl
            · rw [hrest]
              rfl
      · have ha' : escapedAfter false a = false := by
          simpa [escapedAfter, hc] using ha
        rw [List.cons_append, unescape_cons hc, unescape_cons hc, ih a.length (by omega) ha' rfl]
        rfl

theorem terminatorLength_of_noLf {s : JsString} (h : ∀ c ∈ s, c ≠ LF) : terminatorLength s = none := by
  cases s with
  | nil => rfl
  | cons c s =>
    have hc := h c (by simp)
    have hs : s.head? ≠ some LF := fun hhead => h LF (by simp [List.mem_of_mem_head? hhead]) rfl
    simp [terminatorLength, hc, hs]

/-- A text without a line feed continues nowhere. -/
theorem joinContinuations_of_noLf {s : JsString} (h : ∀ c ∈ s, c ≠ LF) :
    joinContinuations none s = s := by
  induction s with
  | nil => rfl
  | cons c s ih =>
    have hs : ∀ d ∈ s, d ≠ LF := fun d hd => h d (List.mem_cons_of_mem c hd)
    rw [joinContinuations, if_neg (by simp), if_neg (by simp [terminatorLength_of_noLf hs]), ih hs]
    exact nofun

theorem splitLines_of_noLf {s : JsString} (h : ∀ c ∈ s, c ≠ LF) : splitLines s = [s] := by
  induction s with
  | nil => rfl
  | cons c s ih =>
    have hs : ∀ d ∈ s, d ≠ LF := fun d hd => h d (List.mem_cons_of_mem c hd)
    have hhead : s.head? ≠ some LF := fun hhead => hs LF (List.mem_of_mem_head? hhead) rfl
    rw [splitLines, if_neg (h c (by simp)), if_neg (fun hcr => hhead hcr.2), ih hs]
    rfl

theorem trim_of_trimmed {s : JsString} (hhead : ∀ c ∈ s.head?, isSpace c = false)
    (hlast : ∀ c ∈ s.getLast?, isSpace c = false) : trim s = s := by
  have hstart : s.dropWhile isSpace = s := by
    cases s with
    | nil => rfl
    | cons c s => rw [List.dropWhile_cons_of_neg (by simp [hhead c rfl])]
  rw [trim, hstart, List.rdropWhile_eq_self_iff]
  intro hne
  rw [hlast _ (List.getLast?_eq_getLast_of_ne_nil hne)]
  exact Bool.false_ne_true

end UID
