import UidGenerator.Proofs.Properties

/-! A document of one line. The key of an entry goes up to the first separator or white
space that is not escaped; `parseProperties` looks at one character before a separator
only, and takes a second separator away from the value. -/

namespace UID

/-- The text up to the first separator or white space that is not escaped, and from there
on. `escaped` is whether an odd number of backslashes stands before. -/
def keyText : Bool → JsString → JsString × JsString
  | _, [] => ([], [])
  | escaped, c :: rest =>
    if (isSeparator c || isSpace c) && !escaped then ([], c :: rest)
    else
      let (key, after) := keyText (decide (c = BACKSLASH) && !escaped) rest
      (c :: key, after)

def skipSeparator (rest : JsString) : JsString :=
  match rest.dropWhile isSpace with
  | [] => []
  | c :: rest => if isSeparator c then rest.dropWhile isSpace else c :: rest

/-- The entry that a line means; `unescapes_iff` says what `unescape` makes of its texts. -/
def propertyEntry (line : JsString) : JsString × JsString :=
  (unescape (keyText false line).1, unescape (skipSeparator (keyText false line).2))

/-- A line of ASCII that is neither blank nor a comment, without white space around it. -/
structure IsPropertyLine (line : JsString) : Prop where
  ascii : ∀ c ∈ line, c < 0x80
  oneLine : ∀ c ∈ line, c ≠ LF ∧ c ≠ CR
  ne_nil : line ≠ []
  head : ∀ c ∈ line.head?, isSpace c = false ∧ c ≠ unit '#' ∧ c ≠ unit '!'
  last : ∀ c ∈ line.getLast?, isSpace c = false

theorem cutSeparator_noSpace {backslash : Bool} {line key value : JsString}
    (h : cutSeparator backslash line = some (key, value)) : ∀ c ∈ key, isSpace c = false := by
  induction line generalizing backslash key value with
  | nil => cases h
  | cons c line ih =>
    rw [cutSeparator] at h
    split_ifs at h with hstop
    · obtain ⟨rfl, -⟩ := Prod.mk.inj (Option.some.inj h)
      exact fun c hc => absurd hc List.not_mem_nil
    · obtain ⟨⟨key', value'⟩, hcut, hcons⟩ := Option.map_eq_some_iff.1 h
      obtain ⟨rfl, -⟩ := Prod.mk.inj hcons
      intro d hd
      rcases List.mem_cons.1 hd with rfl | hd
      · exact Bool.eq_false_iff.2 fun hspace => hstop (Or.inr hspace)
      · exact ih hcut d hd

def backslashBefore : Bool → JsString → Bool
  | backslash, [] => backslash
  | _, c :: rest => backslashBefore (decide (c = BACKSLASH)) rest

theorem backslashBefore_iff {key : JsString} (hne : key ≠ []) (backslash : Bool) :
    backslashBefore backslash key = true ↔ key.getLast? = some BACKSLASH := by
  induction key generalizing backslash with
  | nil => exact absurd rfl hne
  | cons c key ih =>
    cases key with
    | nil => simp [backslashBefore]
    | cons d key =>
      rw [backslashBefore, ih (List.cons_ne_nil d key), List.getLast?_cons_cons]

/-- Where the cut of the code lies, against the key that a line means: there, before it at
an escaped white space, or after it, past a separator behind a backslash. -/
inductive CutCases (escaped backslash : Bool) (line : JsString) : Prop
  | agree (key rest : JsString) (means : keyText escaped line = (key, rest))
      (cut : cutSeparator backslash line = match rest with
        | [] => none
        | _ :: value => some (key, value))
      (noSpace : ∀ c ∈ key, isSpace c = false)
      (noBackslash : ∀ c ∈ rest.head?, isSeparator c = true → backslashBefore backslash key = false)
  | early (before : JsString) (c : CodeUnit) (after rest value : JsString)
      (means : keyText escaped line = (before ++ c :: after, rest))
      (cut : cutSeparator backslash line = some (before, value)) (space : isSpace c = true)
      (escapes : escapedAfter escaped before = true)
  | late (key : JsString) (c : CodeUnit) (rest : JsString)
      (means : keyText escaped line = (key, c :: rest)) (separator : isSeparator c = true)
      (behind : backslashBefore backslash key = true)
      (cut : cutSeparator backslash line = none ∨
        ∃ more value, cutSeparator backslash line = some (key ++ c :: more, value))

theorem isSpace_of_isSeparator {c : CodeUnit} (h : isSeparator c = true) : isSpace c = false := by
  rcases of_decide_eq_true h with rfl | rfl <;> decide

theorem cutCases {escaped backslash : Bool} (hbehind : escaped = true → backslash = true)
    (line : JsString) : CutCases escaped backslash line := by
  induction line generalizing escaped backslash with
  | nil => exact .agree [] [] rfl rfl (fun c hc => absurd hc List.not_mem_nil) (fun c hc => by cases hc)
  | cons c line ih =>
    by_cases hstop : ((isSeparator c || isSpace c) && !escaped) = true
    · -- the line means a cut here
      have hmeans : keyText escaped (c :: line) = ([], c :: line) := by rw [keyText, if_pos hstop]
      rw [Bool.and_eq_true, Bool.or_eq_true] at hstop
      by_cases hpass : isSeparator c = true ∧ backslash = true
      · obtain ⟨hsep, hback⟩ := hpass
        refine .late [] c line hmeans hsep hback ?_
        rw [cutSeparator, if_neg (by simp [isSpace_of_isSeparator hsep, hback])]
        cases hcut : cutSeparator (decide (c = BACKSLASH)) line with
        | none => exact Or.inl rfl
        | some cut => exact Or.inr ⟨cut.1, cut.2, rfl⟩
      · refine .agree [] (c :: line) hmeans ?_ (fun d hd => absurd hd List.not_mem_nil) ?_
        · rw [cutSeparator, if_pos]
          refine hstop.1.imp (fun hsep => ⟨hsep, ?_⟩) id
          rw [Bool.not_eq_true']
          exact Bool.eq_false_iff.2 fun hback => hpass ⟨hsep, hback⟩
        · rintro d hd hsep
          obtain rfl := Option.some.inj hd
          exact Bool.eq_false_iff.2 fun hback => hpass ⟨hsep, hback⟩
    · have hmeans : keyText escaped (c :: line) =
          (c :: (keyText (decide (c = BACKSLASH) && !escaped) line).1,
            (keyText (decide (c = BACKSLASH) && !escaped) line).2) := by
        rw [keyText, if_neg hstop]
      by_cases hspace : isSpace c = true
      · -- escaped white space, where the code cuts
        have hescaped : escaped = true := by
          by_contra hno
          exact hstop (by simp [hspace, hno])
        refine .early [] c _ _ line hmeans ?_ hspace hescaped
        rw [cutSeparator, if_pos (Or.inr hspace)]
      · have hgoes : cutSeparator backslash (c :: line) =
            (cutSeparator (decide (c = BACKSLASH)) line).map fun (key, value) => (c :: key, value) := by
          rw [cutSeparator, if_neg]
          rintro (⟨hsep, hback⟩ | hspace')
          · have hescaped : escaped = true := by
              by_contra hno
              exact hstop (by simp [hsep, hno])
            rw [hbehind hescaped] at hback
            cases hback
          · exact hspace hspace'
        have hbehind' : (decide (c = BACKSLASH) && !escaped) = true → decide (c = BACKSLASH) = true :=
          fun h => (Bool.and_eq_true _ _ ▸ h).1
        cases ih hbehind' with
        | agree key rest means cut noSpace noBackslash =>
          rw [means] at hmeans
          refine .agree (c :: key) rest hmeans ?_ ?_ noBackslash
          · rw [hgoes, cut]
            cases rest <;> rfl
          · intro d hd
            rcases List.mem_cons.1 hd with rfl | hd
            · exact Bool.eq_false_iff.2 hspace
            · exact noSpace d hd
        | early before d after rest value means cut space escapes =>
          rw [means] at hmeans
          exact .early (c :: before) d after rest value hmeans (by rw [hgoes, cut]; rfl) space escapes
        | late key d rest means separator behind cut =>
          rw [means] at hmeans
          refine .late (c :: key) d rest hmeans separator behind ?_
          rw [hgoes]
          rcases cut with hnone | ⟨more, value, hsome⟩
          · exact Or.inl (by rw [hnone]; rfl)
          · exact Or.inr ⟨more, value, by rw [hsome]; rfl⟩

/-- What is skipped before a value: only spaces and tabs as white space, and a separator
only after white space. -/
def SkipsAlike : JsString → Prop
  | [] => True
  | c :: after =>
    (∀ d ∈ after.takeWhile isSpace, isBlankUnit d = true) ∧
      ∀ d ∈ (after.dropWhile isSpace).head?, isSeparator d = true → isSeparator c = false ∧
        ∀ e ∈ (after.dropWhile isSpace).tail.takeWhile isSpace, isBlankUnit e = true

instance : DecidablePred SkipsAlike
  | [] => inferInstanceAs (Decidable True)
  | _ :: _ => inferInstanceAs (Decidable (_ ∧ _))

theorem isSpace_of_isBlankUnit {c : CodeUnit} (h : isBlankUnit c = true) : isSpace c = true := by
  rcases of_decide_eq_true h with rfl | rfl <;> decide

/-- Skipping blanks is skipping white space, or stops at other white space. -/
theorem dropWhile_blank_cases (s : JsString) :
    (∀ c ∈ s.takeWhile isSpace, isBlankUnit c = true) ∧ s.dropWhile isBlankUnit = s.dropWhile isSpace ∨
      (¬∀ c ∈ s.takeWhile isSpace, isBlankUnit c = true) ∧
        ∃ c rest, s.dropWhile isBlankUnit = c :: rest ∧ isSpace c = true := by
  induction s with
  | nil => exact Or.inl ⟨fun c hc => absurd hc List.not_mem_nil, rfl⟩
  | cons c s ih =>
    by_cases hblank : isBlankUnit c = true
    · have hspace := isSpace_of_isBlankUnit hblank
      simpa [List.dropWhile_cons, List.takeWhile_cons, hblank, hspace] using ih
    · by_cases hspace : isSpace c = true
      · exact Or.inr ⟨fun h => hblank (h c (by simp [hspace])), c, s, by simp [hblank], hspace⟩
      · exact Or.inl ⟨by simp [hspace], by simp [hblank, hspace]⟩

theorem isSpace_dropWhile {s rest : JsString} {c : CodeUnit} (h : s.dropWhile isSpace = c :: rest) :
    isSpace c = false := by
  have hhead := List.head?_dropWhile_not isSpace s
  rw [h] at hhead
  exact hhead

theorem not_isSeparator_of_isSpace {c : CodeUnit} (h : isSpace c = true) : isSeparator c = false := by
  by_contra hsep
  rw [isSpace_of_isSeparator (by simpa using hsep)] at h
  cases h

/-- A value that is meant does not begin with white space. -/
theorem isSpace_skipSeparator {rest more : JsString} {c : CodeUnit} (h : skipSeparator rest = c :: more) :
    isSpace c = false := by
  rw [skipSeparator] at h
  split at h
  · cases h
  · next d tail hdrop =>
    split_ifs at h
    · exact isSpace_dropWhile h
    · obtain ⟨rfl, -⟩ := List.cons.inj h
      exact isSpace_dropWhile hdrop

theorem dropWhile_ne_cons {p : CodeUnit → Bool} (c : CodeUnit) (s : JsString) :
    s.dropWhile p ≠ c :: s := fun h => by
  have hlen := (List.dropWhile_suffix (l := s) p).length_le
  rw [h, List.length_cons] at hlen
  omega

/-- After a separator. -/
theorem strip_eq_dropWhile_iff {after : JsString}
    (hdrop : after.dropWhile isBlankUnit = after.dropWhile isSpace) :
    stripSeparator after = after.dropWhile isSpace ↔
      ∀ d ∈ (after.dropWhile isSpace).head?, isSeparator d = false := by
  rw [stripSeparator, hdrop]
  cases after.dropWhile isSpace with
  | nil => simp
  | cons d more =>
    by_cases hd : isSeparator d = true
    · simp [hd, dropWhile_ne_cons]
    · simp [hd]

/-- After white space. -/
theorem strip_eq_skip_of_blanks {after : JsString}
    (hdrop : after.dropWhile isBlankUnit = after.dropWhile isSpace) :
    stripSeparator after = skipSeparator after ↔
      ∀ d ∈ (after.dropWhile isSpace).head?, isSeparator d = true →
        ∀ e ∈ (after.dropWhile isSpace).tail.takeWhile isSpace, isBlankUnit e = true := by
  rw [stripSeparator, skipSeparator, hdrop]
  cases after.dropWhile isSpace with
  | nil => exact iff_of_true rfl fun d hd => by cases hd
  | cons d more =>
    simp only [List.head?_cons, List.tail_cons, Option.mem_some_iff, forall_eq']
    split_ifs with hd
    · rw [forall_prop_of_true hd]
      rcases dropWhile_blank_cases more with ⟨hblanks, hsame⟩ | ⟨hother, e, rest, hblank, hspace⟩
      · exact iff_of_true hsame hblanks
      · refine iff_of_false (fun heq => ?_) hother
        rw [hblank] at heq
        rw [isSpace_dropWhile heq.symm] at hspace
        cases hspace
    · exact iff_of_true rfl fun hd' => absurd hd' hd

/-- What the code strips is what is to be skipped. -/
theorem strip_eq_skip_iff {c : CodeUnit} (after : JsString)
    (hc : isSeparator c = true ∨ isSpace c = true) :
    stripSeparator after = skipSeparator (c :: after) ↔ SkipsAlike (c :: after) := by
  rcases dropWhile_blank_cases after with ⟨hblanks, hdrop⟩ | ⟨hother, d, rest, hdrop, hspace⟩
  · rw [SkipsAlike, and_iff_right hblanks]
    by_cases hsep : isSeparator c = true
    · have hskip : skipSeparator (c :: after) = after.dropWhile isSpace := by
        simp [skipSeparator, isSpace_of_isSeparator hsep, hsep]
      rw [hskip, strip_eq_dropWhile_iff hdrop]
      simp [hsep]
    · have hskip : skipSeparator (c :: after) = skipSeparator after := by
        simp [skipSeparator, hc.resolve_left hsep]
      rw [hskip, strip_eq_skip_of_blanks hdrop]
      simp [hsep]
  · have hstrip : stripSeparator after = d :: rest := by
      simp [stripSeparator, hdrop, not_isSeparator_of_isSpace hspace]
    refine iff_of_false (fun heq => ?_) fun hskips => hother hskips.1
    rw [hstrip] at heq
    rw [isSpace_skipSeparator heq.symm] at hspace
    cases hspace

/-- What is taken away from a value on both ways holds no backslash, so the values are
unescaped alike only if they are the same text. -/
theorem unescape_eq_iff {x₁ v₁ x₂ v₂ : JsString} (h : x₁ ++ v₁ = x₂ ++ v₂)
    (h₁ : ∀ c ∈ x₁, c ≠ BACKSLASH) (h₂ : ∀ c ∈ x₂, c ≠ BACKSLASH) :
    unescape v₁ = unescape v₂ ↔ v₁ = v₂ := by
  refine ⟨fun heq => ?_, congrArg unescape⟩
  have hsame : ∀ {y v : JsString}, (∀ c ∈ y, c ≠ BACKSLASH) → unescape (y ++ v) = unescape v → y = [] := by
    intro y v hy hlong
    rw [unescape_plain hy] at hlong
    simpa using hlong
  rcases List.append_eq_append_iff.1 h with ⟨y, hy, rfl⟩ | ⟨y, hy, rfl⟩
  · rw [hsame (fun c hc => h₂ c (by simp [hy, hc])) heq]
    rfl
  · rw [hsame (fun c hc => h₁ c (by simp [hy, hc])) heq.symm]
    rfl

theorem ne_backslash_of_mem_takeWhile {p : CodeUnit → Bool} (hp : p BACKSLASH = false) {s : JsString}
    {c : CodeUnit} (hc : c ∈ s.takeWhile p) : c ≠ BACKSLASH := by
  rintro rfl
  rw [List.mem_takeWhile_imp hc] at hp
  cases hp

/-- What is skipped, of one kind of white space or another. -/
theorem skipped_plain {p : CodeUnit → Bool} (hp : p BACKSLASH = false) (s : JsString) :
    ∃ x, s = x ++ (match s.dropWhile p with
      | [] => []
      | c :: rest => if isSeparator c then rest.dropWhile p else c :: rest) ∧
      ∀ c ∈ x, c ≠ BACKSLASH := by
  have hfirst := List.takeWhile_append_dropWhile (p := p) (l := s)
  cases hdrop : s.dropWhile p with
  | nil =>
    rw [hdrop, List.append_nil] at hfirst
    exact ⟨s, by simp, fun c hc => ne_backslash_of_mem_takeWhile hp (hfirst.symm ▸ hc)⟩
  | cons c rest =>
    rw [hdrop] at hfirst
    simp only
    split_ifs with hsep
    · refine ⟨s.takeWhile p ++ c :: rest.takeWhile p, ?_, ?_⟩
      · rw [List.append_assoc, List.cons_append, List.takeWhile_append_dropWhile, hfirst]
      · intro d hd
        rcases List.mem_append.1 hd with hd | hd
        · exact ne_backslash_of_mem_takeWhile hp hd
        · rcases List.mem_cons.1 hd with rfl | hd
          · rintro rfl
            exact absurd hsep (by decide)
          · exact ne_backslash_of_mem_takeWhile hp hd
    · exact ⟨s.takeWhile p, hfirst.symm, fun d hd => ne_backslash_of_mem_takeWhile hp hd⟩

theorem keyText_append (escaped : Bool) (line : JsString) :
    (keyText escaped line).1 ++ (keyText escaped line).2 = line := by
  induction line generalizing escaped with
  | nil => rfl
  | cons c line ih =>
    rw [keyText]
    split_ifs
    · rfl
    · exact congrArg (c :: ·) (ih _)

theorem keyText_stop {escaped : Bool} {line key rest : JsString} {c : CodeUnit}
    (h : keyText escaped line = (key, c :: rest)) :
    (isSeparator c = true ∨ isSpace c = true) ∧ escapedAfter escaped key = false := by
  induction line generalizing escaped key with
  | nil => cases h
  | cons d line ih =>
    rw [keyText] at h
    split_ifs at h with hstop
    · obtain ⟨rfl, hcons⟩ := Prod.mk.inj h
      obtain ⟨rfl, -⟩ := List.cons.inj hcons
      simpa [escapedAfter] using hstop
    · obtain ⟨rfl, hrest⟩ := Prod.mk.inj h
      have hline : keyText (decide (d = BACKSLASH) && !escaped) line =
          ((keyText (decide (d = BACKSLASH) && !escaped) line).1, c :: rest) := Prod.ext rfl hrest
      have hstop := ih hline
      exact hstop

def codeEntry (line : JsString) : JsString × JsString :=
  match cutSeparator false line with
  | none => (unescape line, [])
  | some (key, value) => (unescape key, unescape (stripSeparator value))

/-- The key text holds no white space; a separator after it does not stand behind a
backslash; and what is skipped after it is skipped alike. -/
structure ReadsAlike (line : JsString) : Prop where
  noSpace : ∀ c ∈ (keyText false line).1, isSpace c = false
  noBackslash : ∀ c ∈ (keyText false line).2.head?, isSeparator c = true →
    (keyText false line).1.getLast? ≠ some BACKSLASH
  skips : SkipsAlike (keyText false line).2

/-- An escaped end of a text is a backslash that is not escaped itself. -/
theorem exists_backslash_of_escaped {before : JsString} (h : escapedAfter false before = true) :
    ∃ closed, before = closed ++ [BACKSLASH] ∧ escapedAfter false closed = false := by
  rcases List.eq_nil_or_concat before with rfl | ⟨closed, c, rfl⟩
  · cases h
  · rw [List.concat_eq_append, escapedAfter_append] at h
    simp only [escapedAfter, Bool.and_eq_true, decide_eq_true_eq, Bool.not_eq_true'] at h
    exact ⟨closed, by rw [h.1, List.concat_eq_append], h.2⟩

theorem unicodeEscape_of_isSpace {c : CodeUnit} (h : isSpace c = true) (rest : JsString) :
    unicodeEscape (c :: rest) = none := by
  refine unicodeEscape_of_ne ?_ rest
  rintro rfl
  exact absurd h (by decide)

theorem escapeOf_of_isSpace {c : CodeUnit} (h : isSpace c = true) : escapeOf c = c := by
  have hne : ∀ letter ∈ [unit 'u', unit 'n', unit 'r', unit 't', unit 'f'], c ≠ letter := by
    rintro letter hletter rfl
    revert h
    revert c
    decide
  simp only [List.mem_cons, List.not_mem_nil, or_false, forall_eq_or_imp, forall_eq] at hne
  obtain ⟨hu, hn, hr, ht, hf⟩ := hne
  rw [escapeOf, if_neg hu, if_neg hn, if_neg hr, if_neg ht, if_neg hf]

section
variable {line key after rest value : JsString} {c : CodeUnit}

/-- A line without a separator. -/
theorem codeEntry_eq_of_key (means : keyText false line = (line, []))
    (cut : cutSeparator false line = none) : codeEntry line = propertyEntry line := by
  simp only [codeEntry, cut, propertyEntry, means]
  rfl

/-- Cut at the separator that is meant, the values agree when what is skipped before them does:
nothing that is skipped holds a backslash. -/
theorem codeEntry_eq_iff_of_cut (means : keyText false line = (key, c :: after))
    (cut : cutSeparator false line = some (key, after)) :
    codeEntry line = propertyEntry line ↔ stripSeparator after = skipSeparator (c :: after) := by
  have hplain : c ≠ BACKSLASH := by
    rintro rfl
    exact absurd (keyText_stop means).1 (by decide)
  obtain ⟨x, hx, hxplain⟩ := skipped_plain (p := isBlankUnit) (by decide) after
  obtain ⟨y, hy, hyplain⟩ := skipped_plain (p := isSpace) (by decide) (c :: after)
  have hstarts : (c :: x) ++ stripSeparator after = y ++ skipSeparator (c :: after) :=
    (congrArg (c :: ·) hx.symm).trans hy
  have hcode : codeEntry line = (unescape key, unescape (stripSeparator after)) := by
    rw [codeEntry, cut]
  rw [hcode, propertyEntry, means, Prod.mk.injEq, eq_self_iff_true, true_and]
  exact unescape_eq_iff hstarts (List.forall_mem_cons.2 ⟨hplain, hxplain⟩) hyplain

/-- Cut at an escaped white space, the key ends in a backslash where the space is meant. -/
theorem codeEntry_ne_of_early (hterminator : isLineTerminator c = false)
    (means : keyText false line = (key ++ c :: after, rest))
    (cut : cutSeparator false line = some (key, value)) (space : isSpace c = true)
    (escapes : escapedAfter false key = true) : codeEntry line ≠ propertyEntry line := by
  intro heq
  obtain ⟨closed, rfl, hclosed⟩ := exists_backslash_of_escaped escapes
  have hkey : unescape (closed ++ [BACKSLASH]) = unescape (closed ++ [BACKSLASH] ++ c :: after) := by
    rw [codeEntry, cut, propertyEntry, means] at heq
    exact congrArg Prod.fst heq
  rw [List.append_assoc, List.singleton_append, unescape_append hclosed (by simp; decide),
    unescape_append hclosed (by simp; decide), unescape_backslash,
    unescape_escape (unicodeEscape_of_isSpace space after), hterminator,
    if_neg Bool.false_ne_true, escapeOf_of_isSpace space] at hkey
  have hhead := (List.cons.inj (List.append_cancel_left hkey)).1
  rw [← hhead] at space
  exact absurd space (by decide)

/-- Cut behind the separator that is meant, or not at all, the key is longer. -/
theorem codeEntry_ne_of_late (means : keyText false line = (key, c :: rest))
    (separator : isSeparator c = true)
    (cut : cutSeparator false line = none ∨
      ∃ more value, cutSeparator false line = some (key ++ c :: more, value)) :
    codeEntry line ≠ propertyEntry line := by
  have hplain : c ≠ BACKSLASH := by
    rintro rfl
    exact absurd separator (by decide)
  have hdigit : hexDigit c = none := by
    rcases of_decide_eq_true separator with rfl | rfl <;> decide
  have hlonger : ∀ more, unescape (key ++ c :: more) ≠ unescape key := by
    intro more hsame
    rw [unescape_append (keyText_stop means).2 (by simpa using hdigit), unescape_cons hplain] at hsame
    simp at hsame
  have hline : key ++ c :: rest = line := by
    have happend := keyText_append false line
    rwa [means] at happend
  intro heq
  rw [codeEntry, propertyEntry, means] at heq
  rcases cut with hnone | ⟨more, value, hsome⟩
  · rw [hnone] at heq
    exact hlonger rest (by rw [hline]; exact congrArg Prod.fst heq)
  · rw [hsome] at heq
    exact hlonger more (congrArg Prod.fst heq)

end

theorem codeEntry_eq_iff {line : JsString} (hline : ∀ c ∈ line, isLineTerminator c = false) :
    codeEntry line = propertyEntry line ↔ ReadsAlike line := by
  have happend := keyText_append false line
  have hcases : CutCases false false line := cutCases id line
  cases hcases with
  | agree key rest means cut noSpace noBackslash =>
    have hbehind : ∀ c ∈ rest.head?, isSeparator c = true → key.getLast? ≠ some BACKSLASH := by
      intro c hc hsep hlast
      have hne : key ≠ [] := by
        rintro rfl
        cases hlast
      have hnone := noBackslash c hc hsep
      rw [(backslashBefore_iff hne false).2 hlast] at hnone
      cases hnone
    have hreads : ReadsAlike line ↔ SkipsAlike rest := by
      refine ⟨fun h => by simpa only [means] using h.skips, fun h => ⟨?_, ?_, ?_⟩⟩ <;> rwa [means]
    rw [hreads]
    cases rest with
    | nil =>
      rw [means, List.append_nil] at happend
      subst happend
      exact iff_of_true (codeEntry_eq_of_key means cut) trivial
    | cons c after =>
      rw [codeEntry_eq_iff_of_cut means cut, strip_eq_skip_iff after (keyText_stop means).1]
  | early before c after rest value means cut space escapes =>
    have hmem : c ∈ line := by
      rw [← happend, means]
      simp
    refine iff_of_false (codeEntry_ne_of_early (hline c hmem) means cut space escapes) ?_
    intro hreads
    have hspace := hreads.noSpace c (by rw [means]; simp)
    rw [hspace] at space
    cases space
  | late key c rest means separator behind cut =>
    refine iff_of_false (codeEntry_ne_of_late means separator cut) fun hreads => ?_
    have hne : key ≠ [] := by
      rintro rfl
      cases behind
    refine hreads.noBackslash c (by rw [means]; rfl) separator ?_
    rw [means]
    exact (backslashBefore_iff hne false).1 behind

/-- A line that is not blank and not a comment has the entry of its trimmed text. -/
theorem parseLine_eq (rawLine : JsString) : parseLine rawLine =
    if trim rawLine = [] ∨ (trim rawLine).head? = some (unit '#') ∨ (trim rawLine).head? = some (unit '!')
    then none else some (codeEntry (trim rawLine)) := by
  rw [parseLine]
  refine if_congr Iff.rfl rfl ?_
  rw [codeEntry]
  cases hcut : cutSeparator false (trim rawLine) with
  | none => rfl
  | some cut =>
    obtain ⟨key, value⟩ := cut
    have hspace := cutSeparator_noSpace hcut
    have hkey : trim key = key := trim_of_trimmed
      (fun c hc => hspace c (List.mem_of_mem_head? hc)) fun c hc => hspace c (List.mem_of_getLast? hc)
    simp only [hkey]

theorem parseLine_of_line {line : JsString} (h : IsPropertyLine line) :
    parseLine line = some (codeEntry line) := by
  have htrim : trim line = line := trim_of_trimmed (fun c hc => (h.head c hc).1) h.last
  rw [parseLine_eq, htrim, if_neg]
  rintro (hnil | hhash | hbang)
  · exact h.ne_nil hnil
  · exact (h.head _ hhash).2.1 rfl
  · exact (h.head _ hbang).2.2 rfl

theorem parseProperties_of_line {line : JsString} (h : IsPropertyLine line) :
    (parseProperties line).entries = [codeEntry line] := by
  have hlf : ∀ c ∈ line, c ≠ LF := fun c hc => (h.oneLine c hc).1
  have hbom : stripBom line = line := by
    rw [stripBom, if_neg]
    intro hhead
    exact absurd (h.ascii BOM (List.mem_of_mem_head? hhead)) (by decide)
  rw [parseProperties, hbom, joinContinuations_of_noLf hlf, splitLines_of_noLf hlf,
    List.filterMap_cons, parseLine_of_line h]
  rfl

/-- A line of one entry is read as it is meant, exactly when these conditions hold. -/
theorem property_line_iff {line : JsString} (h : IsPropertyLine line) :
    (parseProperties line).entries = [propertyEntry line] ↔ ReadsAlike line := by
  have hterminator : ∀ c ∈ line, isLineTerminator c = false := by
    intro c hc
    obtain ⟨hlf, hcr⟩ := h.oneLine c hc
    have hascii := h.ascii c hc
    refine decide_eq_false ?_
    rintro (rfl | rfl | rfl | rfl)
    · exact hlf rfl
    · exact hcr rfl
    · exact absurd hascii (by decide)
    · exact absurd hascii (by decide)
  rw [parseProperties_of_line h, List.cons.injEq, eq_self_iff_true, and_true,
    codeEntry_eq_iff hterminator]

/-- A line with an escaped separator in its value. -/
theorem property_line_colon_in_key :
    IsPropertyLine (js "f=colon\\:in\\=key") ∧
      (parseProperties (js "f=colon\\:in\\=key")).entries = [(js "f", js "colon:in=key")] := by
  have hline : IsPropertyLine (js "f=colon\\:in\\=key") :=
    ⟨by decide, by decide, by decide, by decide, by decide⟩
  have hreads : ReadsAlike (js "f=colon\\:in\\=key") := ⟨by decide, by decide, by decide⟩
  exact ⟨hline, (property_line_iff hline).2 hreads⟩

/-- A plain key and a plain value stand as they are written. -/
theorem propertyEntry_plain (key value : JsString)
    (hkey : ∀ c ∈ key, isSeparator c = false ∧ isSpace c = false ∧ c ≠ BACKSLASH)
    (hvalue : ∀ c ∈ value, c ≠ BACKSLASH) (hhead : ∀ c ∈ value.head?, isSpace c = false) :
    propertyEntry (key ++ unit '=' :: value) = (key, value) := by
  have htext : keyText false (key ++ unit '=' :: value) = (key, unit '=' :: value) := by
    clear hvalue hhead
    induction key with
    | nil => rfl
    | cons c key ih =>
      obtain ⟨hsep, hspace, hbackslash⟩ := hkey c (by simp)
      rw [List.cons_append, keyText, if_neg (by simp [hsep, hspace]), decide_eq_false hbackslash,
        Bool.false_and, ih fun d hd => hkey d (List.mem_cons_of_mem c hd)]
  have hskip : skipSeparator (unit '=' :: value) = value := by
    rw [skipSeparator, List.dropWhile_cons_of_neg (by decide)]
    simp only [if_pos (show isSeparator (unit '=') = true by decide)]
    cases value with
    | nil => rfl
    | cons c value => rw [List.dropWhile_cons_of_neg (by simp [hhead c rfl])]
  rw [propertyEntry, htext, hskip, ← List.append_nil key, unescape_plain fun c hc => (hkey c hc).2.2,
    ← List.append_nil value, unescape_plain hvalue, unescape_nil]

/-- A value that begins with a separator loses it. -/
theorem second_separator_lost :
    IsPropertyLine (js "k==v") ∧ propertyEntry (js "k==v") = (js "k", js "=v") ∧
      (parseProperties (js "k==v")).entries = [(js "k", js "v")] ∧
      (parseProperties (js "k==v")).entries ≠ [propertyEntry (js "k==v")] := by
  have hline : IsPropertyLine (js "k==v") := ⟨by decide, by decide, by decide, by decide, by decide⟩
  have hmeant : propertyEntry (js "k==v") = (js "k", js "=v") :=
    propertyEntry_plain (js "k") (js "=v") (by decide) (by decide) (by decide)
  have hread : (parseProperties (js "k==v")).entries = [(js "k", js "v")] := by decide
  exact ⟨hline, hmeant, hread, by rw [hread, hmeant]; decide⟩

end UID
