import UidGenerator.Proofs.Continuations

/-! Settings written to a document and read again. A document that escapes its entries as
`java.util.Properties` does when it stores them is read back by `parseProperties` except
where it cuts a key at an escaped white space, overlooks a separator behind a backslash,
trims a value or joins two lines. -/

namespace UID

open OrderedMap

def ESCAPES : List (CodeUnit × CodeUnit) :=
  [(TAB, unit 't'), (LF, unit 'n'), (CR, unit 'r'), (0x0c, unit 'f'), (BACKSLASH, BACKSLASH),
    (unit '=', unit '='), (unit ':', unit ':'), (unit '#', unit '#'), (unit '!', unit '!')]

instance (priority := high) decidableForallEscape {p : CodeUnit × CodeUnit → Prop} [DecidablePred p]
    (escapes : List (CodeUnit × CodeUnit)) : Decidable (∀ escape ∈ escapes, p escape) :=
  List.decidableBAll p escapes

def hexUnit (n : ℕ) : CodeUnit := UInt16.ofNat (if n < 10 then 0x30 + n else 0x37 + n)

def unicodeText (c : CodeUnit) : JsString :=
  [unit 'u', hexUnit (c.toNat / 4096), hexUnit (c.toNat / 256 % 16), hexUnit (c.toNat / 16 % 16),
    hexUnit (c.toNat % 16)]

/-- How a character is stored. Of the spaces, only some are escaped. -/
def storedUnit (escapeSpace : Bool) (c : CodeUnit) : JsString :=
  match ESCAPES.lookup c with
  | some letter => [BACKSLASH, letter]
  | none =>
    if c = SPACE then if escapeSpace then [BACKSLASH, SPACE] else [SPACE]
    else if c < SPACE ∨ unit '~' < c then BACKSLASH :: unicodeText c
    else [c]

def storedKey (key : JsString) : JsString := key.flatMap (storedUnit true)

/-- In a value only a space at the front is escaped. -/
def storedValue : JsString → JsString
  | [] => []
  | c :: value => storedUnit true c ++ value.flatMap (storedUnit false)

def storedLine (entry : JsString × JsString) : JsString :=
  storedKey entry.1 ++ unit '=' :: storedValue entry.2

def document (write : JsString × JsString → JsString) (properties : Properties) : JsString :=
  [LF].intercalate (properties.entries.map write)

def storedText (properties : Properties) : JsString := document storedLine properties

theorem hexDigit_hexUnit {n : ℕ} (h : n < 16) : hexDigit (hexUnit n) = some n := by
  interval_cases n <;> decide

theorem unicodeEscape_unicodeText (c : CodeUnit) (rest : JsString) :
    unicodeEscape (unicodeText c ++ rest) = some c := by
  have hlt : c.toNat < 65536 := c.toNat_lt
  have hcode : ((c.toNat / 4096 * 16 + c.toNat / 256 % 16) * 16 + c.toNat / 16 % 16) * 16 +
      c.toNat % 16 = c.toNat := by
    omega
  simp only [unicodeText, List.cons_append, unicodeEscape,
    hexDigit_hexUnit (show c.toNat / 4096 < 16 by omega),
    hexDigit_hexUnit (Nat.mod_lt (c.toNat / 256) (show 0 < 16 by decide)),
    hexDigit_hexUnit (Nat.mod_lt (c.toNat / 16) (show 0 < 16 by decide)),
    hexDigit_hexUnit (Nat.mod_lt c.toNat (show 0 < 16 by decide)), if_true, hcode,
    UInt16.ofNat_toNat]

theorem mem_ESCAPES {c letter : CodeUnit} (h : ESCAPES.lookup c = some letter) :
    (c, letter) ∈ ESCAPES := by
  obtain ⟨before, after, hsplit, -⟩ := List.lookup_eq_some_iff.1 h
  rw [hsplit]
  simp

structure IsPlain (c : CodeUnit) : Prop where
  graphic : SPACE < c ∧ c ≤ unit '~'
  ne_backslash : c ≠ BACKSLASH
  noSeparator : isSeparator c = false
  noComment : c ≠ unit '#' ∧ c ≠ unit '!'

inductive StoredForm (escapeSpace : Bool) (c : CodeUnit) : Prop
  | plain (stored : storedUnit escapeSpace c = [c]) (isPlain : IsPlain c)
  | escape (letter : CodeUnit) (stored : storedUnit escapeSpace c = [BACKSLASH, letter])
      (mem : (c, letter) ∈ (SPACE, SPACE) :: ESCAPES)
  | space (stored : storedUnit escapeSpace c = [SPACE]) (isSpace : c = SPACE)
      (noEscape : escapeSpace = false)
  | unicode (stored : storedUnit escapeSpace c = BACKSLASH :: unicodeText c)
      (ne : c ≠ SPACE ∧ c ≠ BACKSLASH)

theorem storedForm (escapeSpace : Bool) (c : CodeUnit) : StoredForm escapeSpace c := by
  cases hletter : ESCAPES.lookup c with
  | some letter =>
    exact .escape letter (by rw [storedUnit, hletter]) (List.mem_cons_of_mem _ (mem_ESCAPES hletter))
  | none =>
    have hnew : ∀ p ∈ ESCAPES, c ≠ p.1 := fun p hp hc => by
      have hbeq := List.lookup_eq_none_iff.1 hletter p hp
      simp [hc] at hbeq
    by_cases hspace : c = SPACE
    · subst hspace
      cases escapeSpace with
      | true => exact .escape SPACE rfl List.mem_cons_self
      | false => exact .space rfl rfl rfl
    · by_cases hcode : c < SPACE ∨ unit '~' < c
      · refine .unicode (by rw [storedUnit, hletter]; simp only [if_neg hspace, if_pos hcode]) ⟨hspace, ?_⟩
        exact hnew (BACKSLASH, BACKSLASH) (by decide)
      · refine .plain (by rw [storedUnit, hletter]; simp only [if_neg hspace, if_neg hcode]) ?_
        obtain ⟨hlow, hhigh⟩ := not_or.1 hcode
        exact ⟨⟨UInt16.lt_of_le_of_ne (UInt16.not_lt.1 hlow) (Ne.symm hspace), UInt16.not_lt.1 hhigh⟩,
          hnew (BACKSLASH, BACKSLASH) (by decide),
          decide_eq_false (not_or.2 ⟨hnew (unit '=', unit '=') (by decide),
            hnew (unit ':', unit ':') (by decide)⟩),
          hnew (unit '#', unit '#') (by decide), hnew (unit '!', unit '!') (by decide)⟩

theorem mem_unicodeText {c d : CodeUnit} (h : d ∈ unicodeText c) :
    d = unit 'u' ∨ ∃ n < 16, d = hexUnit n := by
  have hlt : c.toNat < 65536 := c.toNat_lt
  simp only [unicodeText, List.mem_cons, List.not_mem_nil, or_false] at h
  rcases h with rfl | rfl | rfl | rfl | rfl
  · exact Or.inl rfl
  all_goals exact Or.inr ⟨_, by omega, rfl⟩

theorem isPlain_of_mem_unicodeText {c d : CodeUnit} (h : d ∈ unicodeText c) : IsPlain d := by
  rcases mem_unicodeText h with rfl | ⟨n, hn, rfl⟩
  · exact ⟨by decide, by decide, by decide, by decide⟩
  · interval_cases n <;> exact ⟨by decide, by decide, by decide, by decide⟩

/-- Every stored character is read again, whatever follows. -/
theorem unescape_storedUnit (escapeSpace : Bool) (c : CodeUnit) (rest : JsString) :
    unescape (storedUnit escapeSpace c ++ rest) = c :: unescape rest := by
  cases storedForm escapeSpace c with
  | plain hstored hplain =>
    rw [hstored]
    exact unescape_cons hplain.ne_backslash rest
  | space hstored hspace _ =>
    subst hspace
    rw [hstored]
    exact unescape_cons (by decide) rest
  | escape letter hstored hmem =>
    have hletters : ∀ p ∈ (SPACE, SPACE) :: ESCAPES,
        p.2 ≠ unit 'u' ∧ isLineTerminator p.2 = false ∧ escapeOf p.2 = p.1 := by
      decide
    obtain ⟨hu, hterminator, hescape⟩ := hletters _ hmem
    rw [hstored, List.cons_append, List.singleton_append,
      unescape_escape (unicodeEscape_of_ne hu rest), hterminator, hescape]
    rfl
  | unicode hstored _ =>
    rw [hstored, List.cons_append, unescape_unicode (unicodeEscape_unicodeText c rest)]
    rfl

/-- What is stored of a character stands between the space and the tilde. -/
theorem graphic_storedUnit {escapeSpace : Bool} {c d : CodeUnit} (h : d ∈ storedUnit escapeSpace c) :
    SPACE ≤ d ∧ d ≤ unit '~' := by
  have hplain : ∀ {e : CodeUnit}, IsPlain e → SPACE ≤ e ∧ e ≤ unit '~' :=
    fun he => ⟨UInt16.le_of_lt he.graphic.1, he.graphic.2⟩
  cases storedForm escapeSpace c with
  | plain hstored hc =>
    rw [hstored, List.mem_singleton] at h
    exact h ▸ hplain hc
  | space hstored _ _ =>
    rw [hstored, List.mem_singleton] at h
    rw [h]
    decide
  | escape letter hstored hmem =>
    have hletters : ∀ p ∈ (SPACE, SPACE) :: ESCAPES, SPACE ≤ p.2 ∧ p.2 ≤ unit '~' := by decide
    rw [hstored, List.mem_cons, List.mem_singleton] at h
    rcases h with rfl | rfl
    · decide
    · exact hletters _ hmem
  | unicode hstored _ =>
    rw [hstored, List.mem_cons] at h
    rcases h with rfl | h
    · decide
    · exact hplain (isPlain_of_mem_unicodeText h)

theorem eq_space_of_isSpace {c : CodeUnit} (h : SPACE ≤ c ∧ c ≤ unit '~') (hspace : isSpace c = true) :
    c = SPACE := by
  have hcodes : ∀ n ∈ WHITE_SPACE, SPACE.toNat ≤ n → n ≤ (unit '~').toNat → n = SPACE.toNat := by decide
  exact UInt16.toNat_inj.1 (hcodes _ (of_decide_eq_true hspace) (UInt16.le_iff_toNat_le.1 h.1)
    (UInt16.le_iff_toNat_le.1 h.2))

theorem IsPlain.noSpace {c : CodeUnit} (h : IsPlain c) : isSpace c = false := by
  refine Bool.eq_false_iff.2 fun hspace => ?_
  have heq := eq_space_of_isSpace ⟨UInt16.le_of_lt h.graphic.1, h.graphic.2⟩ hspace
  exact UInt16.lt_irrefl _ (heq ▸ h.graphic.1)

/-- The first of a stored text is no blank, no separator and no comment mark. -/
structure IsFirst (c : CodeUnit) : Prop where
  noSpace : isSpace c = false
  noSeparator : isSeparator c = false
  noComment : c ≠ unit '#' ∧ c ≠ unit '!'

theorem isFirst_backslash : IsFirst BACKSLASH := ⟨by decide, by decide, by decide⟩

theorem head_storedUnit (c : CodeUnit) :
    ∃ first rest, storedUnit true c = first :: rest ∧ IsFirst first := by
  cases storedForm true c with
  | plain hstored hc => exact ⟨c, [], hstored, hc.noSpace, hc.noSeparator, hc.noComment⟩
  | space _ _ hescape => cases hescape
  | escape letter hstored _ => exact ⟨_, _, hstored, isFirst_backslash⟩
  | unicode hstored _ => exact ⟨_, _, hstored, isFirst_backslash⟩

/-- The last of a stored character is a space or a backslash where the character is. -/
theorem last_storedUnit (escapeSpace : Bool) (c : CodeUnit) :
    ∃ last, (storedUnit escapeSpace c).getLast? = some last ∧ (last = SPACE ↔ c = SPACE) ∧
      (last = BACKSLASH ↔ c = BACKSLASH) := by
  cases storedForm escapeSpace c with
  | plain hstored _ => exact ⟨c, by rw [hstored]; rfl, Iff.rfl, Iff.rfl⟩
  | space hstored hspace _ => exact ⟨c, by rw [hstored, hspace]; rfl, Iff.rfl, Iff.rfl⟩
  | escape letter hstored hmem =>
    have hletters : ∀ p ∈ (SPACE, SPACE) :: ESCAPES,
        (p.2 = SPACE ↔ p.1 = SPACE) ∧ (p.2 = BACKSLASH ↔ p.1 = BACKSLASH) := by
      decide
    exact ⟨letter, by rw [hstored]; rfl, hletters _ hmem⟩
  | unicode hstored hne =>
    have hplain : IsPlain (hexUnit (c.toNat % 16)) :=
      isPlain_of_mem_unicodeText (c := c) (by simp [unicodeText])
    refine ⟨_, by rw [hstored]; rfl, iff_of_false ?_ hne.1, iff_of_false hplain.ne_backslash hne.2⟩
    exact fun hspace => UInt16.lt_irrefl _ (hspace ▸ hplain.graphic.1)

/-- A stored character that is no space is not cut. -/
theorem cutSeparator_storedUnit {c : CodeUnit} (hc : c ≠ SPACE) (backslash : Bool) :
    cutSeparator backslash (storedUnit true c) = none := by
  cases storedForm true c with
  | plain hstored hplain =>
    rw [hstored]
    refine cutSeparator_plain fun d hd => ?_
    rw [List.mem_singleton.1 hd]
    exact ⟨hplain.noSeparator, hplain.noSpace⟩
  | space _ _ hescape => cases hescape
  | escape letter hstored hmem =>
    have hletters : ∀ p ∈ (SPACE, SPACE) :: ESCAPES, p.1 ≠ SPACE → ∀ backslash,
        cutSeparator backslash [BACKSLASH, p.2] = none := by
      decide
    rw [hstored]
    exact hletters _ hmem hc backslash
  | unicode hstored _ =>
    rw [hstored]
    refine cutSeparator_plain fun d hd => ?_
    rcases List.mem_cons.1 hd with rfl | hd
    · decide
    · have hplain := isPlain_of_mem_unicodeText hd
      exact ⟨hplain.noSeparator, hplain.noSpace⟩

theorem unescape_flatMap (escapeSpace : Bool) (value rest : JsString) :
    unescape (value.flatMap (storedUnit escapeSpace) ++ rest) = value ++ unescape rest := by
  induction value with
  | nil => rfl
  | cons c value ih =>
    rw [List.flatMap_cons, List.append_assoc, unescape_storedUnit, ih]
    rfl

theorem unescape_storedKey (key rest : JsString) :
    unescape (storedKey key ++ rest) = key ++ unescape rest :=
  unescape_flatMap true key rest

theorem unescape_storedValue (value rest : JsString) :
    unescape (storedValue value ++ rest) = value ++ unescape rest := by
  cases value with
  | nil => rfl
  | cons c value =>
    rw [storedValue, List.append_assoc, unescape_storedUnit, unescape_flatMap]
    rfl

theorem storedKey_concat (key : JsString) (c : CodeUnit) :
    storedKey (key ++ [c]) = storedKey key ++ storedUnit true c := by
  rw [storedKey, List.flatMap_append, List.flatMap_singleton]
  rfl

theorem storedValue_concat (value : JsString) (c : CodeUnit) :
    ∃ escapeSpace, storedValue (value ++ [c]) = storedValue value ++ storedUnit escapeSpace c := by
  cases value with
  | nil => exact ⟨true, List.append_nil _⟩
  | cons d value =>
    refine ⟨false, ?_⟩
    rw [List.cons_append, storedValue, storedValue, List.flatMap_append, List.flatMap_singleton,
      List.append_assoc]

/-- A stored text ends in a space or a backslash where the text does. -/
theorem getLast?_storedKey (key : JsString) :
    (storedKey key).getLast? = some BACKSLASH ↔ key.getLast? = some BACKSLASH := by
  rcases List.eq_nil_or_concat key with rfl | ⟨key, c, rfl⟩
  · rfl
  · obtain ⟨last, hlast, -, hbackslash⟩ := last_storedUnit true c
    rw [List.concat_eq_append, storedKey_concat, List.getLast?_append, hlast, List.getLast?_concat,
      Option.some_or, Option.some.injEq, Option.some.injEq, hbackslash]

theorem getLast?_storedValue (value : JsString) :
    ((storedValue value).getLast? = some SPACE ↔ value.getLast? = some SPACE) ∧
      ((storedValue value).getLast? = some BACKSLASH ↔ value.getLast? = some BACKSLASH) := by
  rcases List.eq_nil_or_concat value with rfl | ⟨value, c, rfl⟩
  · exact ⟨Iff.rfl, Iff.rfl⟩
  · obtain ⟨escapeSpace, hconcat⟩ := storedValue_concat value c
    obtain ⟨last, hlast, hspace, hbackslash⟩ := last_storedUnit escapeSpace c
    rw [List.concat_eq_append, hconcat, List.getLast?_append, hlast, List.getLast?_concat,
      Option.some_or, Option.some.injEq, Option.some.injEq, Option.some.injEq, Option.some.injEq]
    exact ⟨hspace, hbackslash⟩

theorem graphic_storedValue {value : JsString} : ∀ d ∈ storedValue value, SPACE ≤ d ∧ d ≤ unit '~' := by
  cases value with
  | nil => exact nofun
  | cons c value =>
    intro d hd
    rcases List.mem_append.1 hd with hd | hd
    · exact graphic_storedUnit hd
    · obtain ⟨e, -, he⟩ := List.mem_flatMap.1 hd
      exact graphic_storedUnit he

theorem head_storedValue {value : JsString} :
    ∀ c ∈ (storedValue value).head?, IsFirst c := by
  cases value with
  | nil => exact nofun
  | cons c value =>
    obtain ⟨first, rest, hstored, hfirst⟩ := head_storedUnit c
    rw [storedValue, hstored]
    intro d hd
    exact Option.some.inj hd ▸ hfirst

/-- Where the code cuts a stored key without a space: nowhere. -/
theorem cutSeparator_storedKey {key : JsString} (h : SPACE ∉ key) (backslash : Bool) :
    cutSeparator backslash (storedKey key) = none := by
  induction key generalizing backslash with
  | nil => rfl
  | cons c key ih =>
    have hc : c ≠ SPACE := fun hc => h (hc ▸ List.mem_cons_self)
    rw [storedKey, List.flatMap_cons, cutSeparator_append, cutSeparator_storedUnit hc]
    have hrest := ih (fun hmem => h (List.mem_cons_of_mem _ hmem))
      (backslashBefore backslash (storedUnit true c))
    rw [storedKey] at hrest
    rw [hrest]
    rfl

theorem backslashBefore_storedKey (key : JsString) :
    backslashBefore false (storedKey key) = true ↔ key.getLast? = some BACKSLASH := by
  rw [← getLast?_storedKey]
  by_cases hnil : storedKey key = []
  · rw [hnil]
    exact iff_of_false nofun nofun
  · exact backslashBefore_iff hnil false

def KeyReads (key : JsString) : Prop := SPACE ∉ key ∧ key.getLast? ≠ some BACKSLASH

instance : DecidablePred KeyReads := fun _ => inferInstanceAs (Decidable (_ ∧ _))

theorem codeEntry_storedKey {key : JsString} (h : KeyReads key) (value : JsString) :
    codeEntry (storedKey key ++ unit '=' :: value) = (key, unescape (stripSeparator value)) := by
  have hbehind : backslashBefore false (storedKey key) = false :=
    Bool.eq_false_iff.2 fun hbehind => h.2 ((backslashBefore_storedKey key).1 hbehind)
  have hkey := unescape_storedKey key []
  rw [List.append_nil, unescape_nil, List.append_nil] at hkey
  rw [codeEntry, cutSeparator_append, cutSeparator_storedKey h.1, hbehind, cutSeparator,
    if_pos (Or.inl (by decide))]
  simp only [Option.map_some, List.append_nil, hkey]

/-- Any other key is cut at its first space, or goes on past its separator. -/
theorem codeEntry_storedKey_ne {key : JsString} (h : ¬KeyReads key) (value : JsString) :
    (codeEntry (storedKey key ++ unit '=' :: value)).1 ≠ key := by
  by_cases hspace : SPACE ∈ key
  · obtain ⟨before, after, rfl, hbefore⟩ := List.eq_append_cons_of_mem hspace
    have hstored : storedKey (before ++ SPACE :: after) =
        storedKey before ++ BACKSLASH :: SPACE :: storedKey after := by
      rw [storedKey, List.flatMap_append, List.flatMap_cons]
      rfl
    have hcut : ∀ backslash rest,
        cutSeparator backslash (BACKSLASH :: SPACE :: rest) = some ([BACKSLASH], rest) :=
      fun _ _ => rfl
    rw [hstored, List.append_assoc, List.cons_append, List.cons_append, codeEntry,
      cutSeparator_append, cutSeparator_storedKey hbefore, hcut]
    simp only [Option.map_some, unescape_storedKey, unescape_backslash]
    intro heq
    cases List.append_cancel_left heq
  · have hlast : key.getLast? = some BACKSLASH := by
      by_contra hlast
      exact h ⟨hspace, hlast⟩
    have hlonger : ∀ more, unescape (storedKey key ++ unit '=' :: more) ≠ key := by
      intro more heq
      rw [unescape_storedKey, unescape_cons (by decide)] at heq
      exact List.cons_ne_nil _ _ (List.append_right_eq_self.1 heq)
    rw [codeEntry, cutSeparator_append, cutSeparator_storedKey hspace,
      (backslashBefore_storedKey key).2 hlast, cutSeparator, if_neg (by decide)]
    cases cutSeparator (decide (unit '=' = BACKSLASH)) value with
    | none => exact hlonger value
    | some cut => exact hlonger cut.1

theorem stripSeparator_of_head {value : JsString}
    (h : ∀ c ∈ value.head?, isBlankUnit c = false ∧ isSeparator c = false) :
    stripSeparator value = value := by
  cases value with
  | nil => rfl
  | cons c value =>
    obtain ⟨hblank, hseparator⟩ := h c rfl
    rw [stripSeparator, List.dropWhile_cons_of_neg (by simp [hblank])]
    simp only [hseparator]
    rfl

theorem rdropWhile_append_cons {p : CodeUnit → Bool} {c : CodeUnit} (hc : p c = false) (a b : JsString) :
    (a ++ c :: b).rdropWhile p = a ++ c :: b.rdropWhile p := by
  induction b using List.reverseRecOn with
  | nil => rw [List.rdropWhile_concat_neg _ _ _ (by simp [hc]), List.rdropWhile_nil]
  | append_singleton b d ih =>
    rw [← List.cons_append, ← List.append_assoc]
    by_cases hd : p d = true
    · rw [List.rdropWhile_concat_pos _ _ _ hd, List.rdropWhile_concat_pos _ _ _ hd, ih]
    · rw [List.rdropWhile_concat_neg _ _ _ hd, List.rdropWhile_concat_neg _ _ _ hd, List.append_assoc,
        List.cons_append]

theorem head_storedKey (key value : JsString) :
    ∃ first rest, storedKey key ++ unit '=' :: value = first :: rest ∧ isSpace first = false ∧
      first ≠ unit '#' ∧ first ≠ unit '!' := by
  cases key with
  | nil => exact ⟨unit '=', value, rfl, by decide⟩
  | cons c key =>
    obtain ⟨first, rest, hstored, hfirst⟩ := head_storedUnit c
    refine ⟨first, rest ++ storedKey key ++ unit '=' :: value, ?_, hfirst.noSpace, hfirst.noComment⟩
    rw [storedKey, List.flatMap_cons, hstored, List.cons_append, List.cons_append]
    rfl

/-- A line with a stored key is an entry, of its value without the white space at its end. -/
theorem parseLine_storedKey (key value : JsString) :
    parseLine (storedKey key ++ unit '=' :: value) =
      some (codeEntry (storedKey key ++ unit '=' :: value.rdropWhile isSpace)) := by
  obtain ⟨first, rest, hcons, hspace, hcomment⟩ := head_storedKey key value
  obtain ⟨first', rest', hcons', -, hcomment'⟩ := head_storedKey key (value.rdropWhile isSpace)
  have htrim : trim (storedKey key ++ unit '=' :: value) =
      storedKey key ++ unit '=' :: value.rdropWhile isSpace := by
    rw [trim, hcons, List.dropWhile_cons_of_neg (by simp [hspace]), ← hcons,
      rdropWhile_append_cons (by decide)]
  rw [parseLine_eq, htrim, if_neg]
  rw [hcons']
  rintro (hnil | hhash | hbang)
  · cases hnil
  · exact hcomment'.1 (Option.some.inj hhash)
  · exact hcomment'.2 (Option.some.inj hbang)

def readValue (value : JsString) : JsString :=
  unescape (stripSeparator ((storedValue value).rdropWhile isSpace))

theorem stripSeparator_storedValue (value : JsString) :
    stripSeparator (storedValue value) = storedValue value := by
  refine stripSeparator_of_head fun c hc => ?_
  have hfirst := head_storedValue c hc
  refine ⟨Bool.eq_false_iff.2 fun hblank => ?_, hfirst.noSeparator⟩
  exact absurd (isSpace_of_isBlankUnit hblank) (Bool.eq_false_iff.1 hfirst.noSpace)

theorem readValue_of_noSpace {value : JsString} (h : value.getLast? ≠ some SPACE) :
    readValue value = value := by
  have htrim : (storedValue value).rdropWhile isSpace = storedValue value := by
    refine List.rdropWhile_eq_self_iff.2 fun hne hspace => h ?_
    refine (getLast?_storedValue value).1.1 ?_
    rw [List.getLast?_eq_some_getLast hne,
      eq_space_of_isSpace (graphic_storedValue _ (List.getLast_mem hne)) hspace]
  have hread := unescape_storedValue value []
  rw [List.append_nil, unescape_nil, List.append_nil] at hread
  rw [readValue, htrim, stripSeparator_storedValue, hread]

theorem readValue_concat_space {value : JsString} (h : value ≠ []) :
    readValue (value ++ [SPACE]) = readValue value := by
  have hconcat : storedValue (value ++ [SPACE]) = storedValue value ++ [SPACE] := by
    cases value with
    | nil => exact absurd rfl h
    | cons c value =>
      rw [List.cons_append, storedValue, storedValue, List.flatMap_append, List.append_assoc]
      rfl
  rw [readValue, hconcat, List.rdropWhile_concat_pos _ _ _ (by decide), readValue]

theorem readValue_space : readValue [SPACE] = [BACKSLASH] := by decide

theorem length_readValue_le (value : JsString) : (readValue value).length ≤ value.length := by
  induction value using List.reverseRecOn with
  | nil => exact le_rfl
  | append_singleton value c ih =>
    by_cases hc : c = SPACE
    · subst hc
      by_cases hnil : value = []
      · rw [hnil, List.nil_append, readValue_space]
        exact le_rfl
      · rw [readValue_concat_space hnil, List.length_append]
        exact ih.trans (Nat.le_add_right _ _)
    · rw [readValue_of_noSpace (by simpa using hc)]

/-- A stored value is read but for a space at its end. -/
theorem readValue_eq_iff (value : JsString) : readValue value = value ↔ value.getLast? ≠ some SPACE := by
  refine ⟨fun hread hlast => ?_, readValue_of_noSpace⟩
  obtain ⟨init, rfl⟩ := List.getLast?_eq_some_iff.1 hlast
  by_cases hnil : init = []
  · subst hnil
    exact absurd (readValue_space.symm.trans hread) (by decide)
  · have hlen := length_readValue_le init
    rw [readValue_concat_space hnil] at hread
    rw [hread, List.length_append, List.length_singleton] at hlen
    omega

def EntryReads (entry : JsString × JsString) : Prop :=
  KeyReads entry.1 ∧ entry.2.getLast? ≠ some SPACE

instance : DecidablePred EntryReads := fun _ => inferInstanceAs (Decidable (_ ∧ _))

theorem parseLine_storedLine (entry : JsString × JsString) :
    parseLine (storedLine entry) = some entry ↔ EntryReads entry := by
  obtain ⟨key, value⟩ := entry
  rw [storedLine, parseLine_storedKey, Option.some.injEq]
  by_cases hkey : KeyReads key
  · rw [codeEntry_storedKey hkey, Prod.mk.injEq, eq_self_iff_true, true_and, EntryReads]
    exact (readValue_eq_iff value).trans (iff_and_self.2 fun _ => hkey)
  · refine iff_of_false (fun heq => ?_) fun hreads => hkey hreads.1
    exact codeEntry_storedKey_ne hkey _ (congrArg Prod.fst heq)

/-- A line of printable ASCII that no blank begins. -/
structure IsLine (line : JsString) : Prop where
  graphic : ∀ c ∈ line, SPACE ≤ c ∧ c ≤ unit '~'
  head : ∀ c ∈ line.head?, isBlankUnit c = false

variable {lines : List JsString}

theorem IsLine.noLf {line : JsString} (h : IsLine line) : ∀ c ∈ line, c ≠ LF := by
  rintro c hc rfl
  exact absurd (h.graphic LF hc).1 (by decide)

theorem IsLine.getLast?_ne_cr {line : JsString} (h : IsLine line) : line.getLast? ≠ some CR :=
  fun hlast => absurd (h.graphic CR (List.mem_of_getLast? hlast)).1 (by decide)

theorem IsLine.joined {line : JsString} (h : IsLine line) : joinContinuations none line = line :=
  joinContinuations_of_noLf h.noLf

/-- Lines that do not end in a backslash stay apart. -/
theorem entriesOf_intercalate (h : ∀ line ∈ lines, IsLine line)
    (hbackslash : ∀ line ∈ lines.dropLast, line.getLast? ≠ some BACKSLASH) :
    entriesOf (joinContinuations none ([LF].intercalate lines)) = lines.filterMap parseLine := by
  have hentries : ∀ {line : JsString}, IsLine line → entriesOf line = [line].filterMap parseLine := by
    intro line hline
    rw [entriesOf, naturalLines_of_noLf hline.noLf]
  induction lines with
  | nil => decide
  | cons line lines ih =>
    have hline := h line List.mem_cons_self
    cases lines with
    | nil => rw [List.intercalate_singleton, hline.joined, hentries hline]
    | cons next lines =>
      rw [List.dropLast_cons_cons] at hbackslash
      have hrest := ih (fun l hl => h l (List.mem_cons_of_mem _ hl))
        fun l hl => hbackslash l (List.mem_cons_of_mem _ hl)
      rw [List.intercalate_cons_cons, List.append_assoc, List.singleton_append,
        joinContinuations_append_lf (hbackslash line List.mem_cons_self) hline.getLast?_ne_cr,
        hline.joined, entriesOf_append, hrest, hentries hline, ← List.filterMap_append,
        List.singleton_append]

/-- A line that ends in a backslash is joined with what follows. -/
theorem joinContinuations_backslash_append {line next : JsString} (hline : ∀ c ∈ line, c ≠ LF)
    (hhead : ∀ c ∈ next.head?, isBlankUnit c = false) :
    joinContinuations none (line ++ BACKSLASH :: LF :: next) = line ++ joinContinuations none next := by
  have hlook : ∀ s, BACKSLASH :: s <:+ line ++ [BACKSLASH, LF] →
      terminatorLength (s ++ next) = terminatorLength s := by
    rintro s ⟨before, hsplit⟩
    match s with
    | [] =>
      have hlast := congrArg List.getLast? hsplit
      rw [List.getLast?_concat, List.getLast?_append] at hlast
      exact absurd (Option.some.inj hlast) (by decide)
    | [c] =>
      have hlast := congrArg List.getLast? hsplit
      rw [List.getLast?_append, List.getLast?_append] at hlast
      obtain rfl : c = LF := Option.some.inj hlast
      rfl
    | _ :: _ :: _ => rfl
  have hjoined : joinContinuations none (line ++ [BACKSLASH, LF]) = line := by
    rw [joinContinuations_backslash hline (List.forall_mem_nil _) (by simp), List.append_nil]
  have happend : joinContinuations none (line ++ [BACKSLASH, LF] ++ next) =
      joinContinuations none (line ++ [BACKSLASH, LF]) ++ joinContinuations none next :=
    joinContinuations_append hhead hlook (by simp)
  rwa [hjoined, List.append_assoc] at happend

theorem length_naturalLines_append {line : JsString} (h : ∀ c ∈ line, c ≠ LF) (rest : JsString) :
    (naturalLines (line ++ rest)).length = (naturalLines rest).length := by
  induction line with
  | nil => rfl
  | cons c line ih =>
    rw [List.cons_append, naturalLines_cons, if_neg (h c List.mem_cons_self), List.length_modifyHead,
      ih fun d hd => h d (List.mem_cons_of_mem c hd)]

theorem head_intercalate (h : ∀ line ∈ lines, IsLine line) :
    ∀ c ∈ ([LF].intercalate lines).head?, isBlankUnit c = false := by
  cases lines with
  | nil => simp
  | cons line lines =>
    have hline := h line List.mem_cons_self
    cases lines with
    | nil =>
      rw [List.intercalate_singleton]
      exact hline.head
    | cons next lines =>
      rw [List.intercalate_cons_cons]
      cases line with
      | nil =>
        intro c hc
        obtain rfl : LF = c := Option.some.inj hc
        decide
      | cons c line => exact hline.head

/-- No more lines are read than there are, and less where one continues. -/
theorem length_naturalLines_intercalate (hne : lines ≠ []) (h : ∀ line ∈ lines, IsLine line) :
    let joined := naturalLines (joinContinuations none ([LF].intercalate lines))
    joined.length ≤ lines.length ∧
      ((∃ line ∈ lines.dropLast, line.getLast? = some BACKSLASH) → joined.length < lines.length) := by
  induction lines with
  | nil => exact absurd rfl hne
  | cons line lines ih =>
    have hline := h line List.mem_cons_self
    have hlf := hline.noLf
    cases lines with
    | nil =>
      rw [List.intercalate_singleton, hline.joined, naturalLines_of_noLf hlf]
      exact ⟨le_rfl, by rintro ⟨_, hmem, -⟩; cases hmem⟩
    | cons next lines =>
      have hlines : ∀ l ∈ next :: lines, IsLine l := fun l hl => h l (List.mem_cons_of_mem _ hl)
      obtain ⟨hle, hlt⟩ := ih (List.cons_ne_nil _ _) hlines
      rw [List.intercalate_cons_cons, List.append_assoc, List.singleton_append]
      by_cases hlast : line.getLast? = some BACKSLASH
      · obtain ⟨init, rfl⟩ := List.getLast?_eq_some_iff.1 hlast
        have hinit : ∀ c ∈ init, c ≠ LF := fun c hc => hlf c (List.mem_append_left _ hc)
        have hless : (naturalLines (joinContinuations none (init ++ [BACKSLASH] ++
            LF :: [LF].intercalate (next :: lines)))).length < (next :: lines).length + 1 := by
          rw [List.append_assoc, List.singleton_append,
            joinContinuations_backslash_append hinit (head_intercalate hlines),
            length_naturalLines_append hinit]
          exact Nat.lt_succ_of_le hle
        exact ⟨hless.le, fun _ => hless⟩
      · rw [joinContinuations_append_lf hlast hline.getLast?_ne_cr, hline.joined, naturalLines_append,
          naturalLines_of_noLf hlf, List.dropLast_cons_cons]
        refine ⟨Nat.succ_le_succ hle, ?_⟩
        rintro ⟨l, hmem, hl⟩
        rcases List.mem_cons.1 hmem with rfl | hmem
        · exact absurd hl hlast
        · exact Nat.succ_lt_succ (hlt ⟨l, hmem, hl⟩)

section Document

variable {write : JsString × JsString → JsString}

/-- A document is printable ASCII, as its lines are. -/
theorem graphic_document (h : ∀ entry, IsLine (write entry)) (properties : Properties) :
    ∀ c ∈ document write properties, c = LF ∨ SPACE ≤ c ∧ c ≤ unit '~' := by
  rw [document]
  induction properties.entries with
  | nil => exact List.forall_mem_nil _
  | cons entry entries ih =>
    rw [List.map_cons]
    cases hlines : entries.map write with
    | nil =>
      rw [List.intercalate_singleton]
      exact fun c hc => Or.inr ((h entry).graphic c hc)
    | cons next lines =>
      rw [hlines] at ih
      rw [List.intercalate_cons_cons, List.append_assoc]
      intro c hc
      rcases List.mem_append.1 hc with hc | hc
      · exact Or.inr ((h entry).graphic c hc)
      · rcases List.mem_cons.1 hc with rfl | hc
        · exact Or.inl rfl
        · exact ih c hc

theorem parse_document (h : ∀ entry, IsLine (write entry)) (properties : Properties) :
    parseProperties (document write properties) =
      empty.setAll (entriesOf (joinContinuations none (document write properties))) := by
  have hbom : stripBom (document write properties) = document write properties := by
    rw [stripBom, if_neg]
    intro hhead
    rcases graphic_document h properties BOM (List.mem_of_mem_head? hhead) with heq | hle
    · exact absurd heq (by decide)
    · exact absurd hle.2 (by decide)
  rw [parseProperties_eq, hbom]

/-- All lines of a list are read as they are where none is lost. -/
theorem filterMap_eq_self_iff {f : JsString × JsString → Option (JsString × JsString)}
    {entries : List (JsString × JsString)} :
    entries.filterMap f = entries ↔ ∀ entry ∈ entries, f entry = some entry := by
  induction entries with
  | nil => simp
  | cons entry entries ih =>
    rw [List.forall_mem_cons, ← ih]
    cases hentry : f entry with
    | none =>
      rw [List.filterMap_cons_none hentry]
      refine iff_of_false (fun heq => ?_) fun h => nomatch h.1
      have hlen := List.length_filterMap_le f entries
      rw [heq, List.length_cons] at hlen
      omega
    | some read => rw [List.filterMap_cons_some hentry, List.cons.injEq, Option.some.injEq]

/-- A document whose lines stay apart is read back where each of its lines is. -/
theorem document_reads_iff (h : ∀ entry, IsLine (write entry)) {properties : Properties}
    (happart : ∀ entry ∈ properties.entries.dropLast, (write entry).getLast? ≠ some BACKSLASH) :
    parseProperties (document write properties) = properties ↔
      ∀ entry ∈ properties.entries, parseLine (write entry) = some entry := by
  have hlines : ∀ line ∈ properties.entries.map write, IsLine line := by
    intro line hline
    obtain ⟨entry, -, rfl⟩ := List.mem_map.1 hline
    exact h entry
  have hbackslash : ∀ line ∈ (properties.entries.map write).dropLast, line.getLast? ≠ some BACKSLASH := by
    intro line hline
    rw [← List.map_dropLast] at hline
    obtain ⟨entry, hentry, rfl⟩ := List.mem_map.1 hline
    exact happart entry hentry
  have hlen := List.length_filterMap_le (parseLine ∘ write) properties.entries
  rw [parse_document h, document, entriesOf_intercalate hlines hbackslash, List.filterMap_map,
    setAll_eq_iff hlen, filterMap_eq_self_iff]
  rfl

/-- A document with a line that is joined with the next one loses an entry. -/
theorem document_loses (h : ∀ entry, IsLine (write entry)) {properties : Properties}
    {entry : JsString × JsString} (hentry : entry ∈ properties.entries.dropLast)
    (hlast : (write entry).getLast? = some BACKSLASH) :
    parseProperties (document write properties) ≠ properties := by
  have hlines : ∀ line ∈ properties.entries.map write, IsLine line := by
    intro line hline
    obtain ⟨entry, -, rfl⟩ := List.mem_map.1 hline
    exact h entry
  have hne : properties.entries.map write ≠ [] := by
    intro hnil
    rw [List.map_eq_nil_iff.1 hnil] at hentry
    cases hentry
  have hcontinues : ∃ line ∈ (properties.entries.map write).dropLast, line.getLast? = some BACKSLASH := by
    rw [← List.map_dropLast]
    exact ⟨write entry, List.mem_map_of_mem hentry, hlast⟩
  have hless := (length_naturalLines_intercalate hne hlines).2 hcontinues
  rw [List.length_map] at hless
  rw [parse_document h]
  intro heq
  have hwritten := length_setAll_le empty (entriesOf (joinContinuations none (document write properties)))
  rw [heq] at hwritten
  have hread : (entriesOf (joinContinuations none (document write properties))).length <
      properties.entries.length :=
    (List.length_filterMap_le _ _).trans_lt hless
  exact absurd hwritten (not_le.2 ((Nat.zero_add _).trans_lt hread))

end Document

theorem isLine_storedLine (entry : JsString × JsString) : IsLine (storedLine entry) := by
  refine ⟨fun c hc => ?_, ?_⟩
  · rcases List.mem_append.1 hc with hc | hc
    · obtain ⟨d, -, hd⟩ := List.mem_flatMap.1 hc
      exact graphic_storedUnit hd
    · rcases List.mem_cons.1 hc with rfl | hc
      · decide
      · exact graphic_storedValue c hc
  · obtain ⟨first, rest, hcons, hspace, -⟩ := head_storedKey entry.1 (storedValue entry.2)
    rw [storedLine, hcons]
    intro c hc
    obtain rfl : first = c := Option.some.inj hc
    exact Bool.eq_false_iff.2 fun hblank => absurd (isSpace_of_isBlankUnit hblank) (by simp [hspace])

theorem getLast?_storedLine (entry : JsString × JsString) :
    (storedLine entry).getLast? = some BACKSLASH ↔ entry.2.getLast? = some BACKSLASH := by
  rw [← (getLast?_storedValue entry.2).2, storedLine]
  cases hvalue : storedValue entry.2 with
  | nil =>
    rw [List.getLast?_concat]
    exact iff_of_false (by decide) nofun
  | cons c value => rw [List.getLast?_append_cons, List.getLast?_cons_cons]

/-- A stored document is read back exactly when no key has a space or ends in a backslash,
no value ends in a space, and only the last value may end in a backslash. -/
theorem stored_reads_iff (properties : Properties) :
    parseProperties (storedText properties) = properties ↔
      (∀ entry ∈ properties.entries, EntryReads entry) ∧
        ∀ entry ∈ properties.entries.dropLast, entry.2.getLast? ≠ some BACKSLASH := by
  by_cases happart : ∀ entry ∈ properties.entries.dropLast, entry.2.getLast? ≠ some BACKSLASH
  · rw [storedText, document_reads_iff isLine_storedLine fun entry hentry hlast =>
      happart entry hentry ((getLast?_storedLine entry).1 hlast)]
    refine Iff.trans ?_ (and_iff_left happart).symm
    exact forall₂_congr fun entry _ => parseLine_storedLine entry
  · refine iff_of_false (fun heq => happart fun entry hentry hlast => ?_) fun h => happart h.2
    exact document_loses isLine_storedLine hentry ((getLast?_storedLine entry).2 hlast) heq

def escapedText (value : JsString) : JsString := value.flatMap fun c => BACKSLASH :: unicodeText c

def escapedLine (entry : JsString × JsString) : JsString :=
  escapedText entry.1 ++ unit '=' :: escapedText entry.2

theorem unescape_escapedText (value rest : JsString) :
    unescape (escapedText value ++ rest) = value ++ unescape rest := by
  induction value with
  | nil => rfl
  | cons c value ih =>
    rw [escapedText, List.flatMap_cons, List.append_assoc, List.cons_append,
      unescape_unicode (unicodeEscape_unicodeText c _)]
    exact congrArg (c :: ·) ih

theorem mem_escapedText {value : JsString} {d : CodeUnit} (h : d ∈ escapedText value) :
    d = BACKSLASH ∨ IsPlain d := by
  obtain ⟨c, -, hd⟩ := List.mem_flatMap.1 h
  exact (List.mem_cons.1 hd).imp id isPlain_of_mem_unicodeText

theorem isFirst_of_mem_escapedText {value : JsString} {d : CodeUnit} (h : d ∈ escapedText value) :
    IsFirst d := by
  rcases mem_escapedText h with rfl | hplain
  · exact isFirst_backslash
  · exact ⟨hplain.noSpace, hplain.noSeparator, hplain.noComment⟩

theorem getLast?_escapedText (value : JsString) : (escapedText value).getLast? ≠ some BACKSLASH := by
  rcases List.eq_nil_or_concat value with rfl | ⟨value, c, rfl⟩
  · exact nofun
  · have hplain : IsPlain (hexUnit (c.toNat % 16)) :=
      isPlain_of_mem_unicodeText (c := c) (by simp [unicodeText])
    rw [List.concat_eq_append, escapedText, List.flatMap_append, List.getLast?_append]
    exact fun hlast => hplain.ne_backslash (Option.some.inj hlast)

theorem codeEntry_escapedLine (entry : JsString × JsString) : codeEntry (escapedLine entry) = entry := by
  have hread : ∀ value, unescape (escapedText value) = value := fun value => by
    have hvalue := unescape_escapedText value []
    rwa [List.append_nil, unescape_nil, List.append_nil] at hvalue
  have hcut : cutSeparator false (escapedText entry.1) = none := cutSeparator_plain fun c hc =>
    ⟨(isFirst_of_mem_escapedText hc).noSeparator, (isFirst_of_mem_escapedText hc).noSpace⟩
  have hbehind : backslashBefore false (escapedText entry.1) = false := by
    by_cases hnil : escapedText entry.1 = []
    · rw [hnil]
      rfl
    · exact Bool.eq_false_iff.2 fun hbehind =>
        getLast?_escapedText entry.1 ((backslashBefore_iff hnil false).1 hbehind)
  have hstrip : stripSeparator (escapedText entry.2) = escapedText entry.2 :=
    stripSeparator_of_head fun c hc => by
      have hfirst := isFirst_of_mem_escapedText (List.mem_of_mem_head? hc)
      exact ⟨Bool.eq_false_iff.2 fun hblank => absurd (isSpace_of_isBlankUnit hblank)
        (Bool.eq_false_iff.1 hfirst.noSpace), hfirst.noSeparator⟩
  rw [escapedLine, codeEntry, cutSeparator_append, hcut, hbehind, cutSeparator,
    if_pos (Or.inl (by decide))]
  simp only [Option.map_some, List.append_nil, hstrip, hread]

theorem isFirst_of_mem_escapedLine {entry : JsString × JsString} {c : CodeUnit}
    (h : c ∈ escapedLine entry) : isSpace c = false ∧ c ≠ unit '#' ∧ c ≠ unit '!' := by
  have hfirst : IsFirst c → isSpace c = false ∧ c ≠ unit '#' ∧ c ≠ unit '!' :=
    fun hc => ⟨hc.noSpace, hc.noComment⟩
  rcases List.mem_append.1 h with h | h
  · exact hfirst (isFirst_of_mem_escapedText h)
  · rcases List.mem_cons.1 h with rfl | h
    · decide
    · exact hfirst (isFirst_of_mem_escapedText h)

theorem parseLine_escapedLine (entry : JsString × JsString) :
    parseLine (escapedLine entry) = some entry := by
  have htrim : trim (escapedLine entry) = escapedLine entry :=
    trim_of_trimmed (fun c hc => (isFirst_of_mem_escapedLine (List.mem_of_mem_head? hc)).1)
      fun c hc => (isFirst_of_mem_escapedLine (List.mem_of_getLast? hc)).1
  rw [parseLine_eq, htrim, codeEntry_escapedLine, if_neg]
  rintro (hnil | hhash | hbang)
  · exact List.append_ne_nil_of_right_ne_nil _ (List.cons_ne_nil _ _) hnil
  · exact (isFirst_of_mem_escapedLine (List.mem_of_mem_head? hhash)).2.1 rfl
  · exact (isFirst_of_mem_escapedLine (List.mem_of_mem_head? hbang)).2.2 rfl

theorem isLine_escapedLine (entry : JsString × JsString) : IsLine (escapedLine entry) := by
  have hgraphic : ∀ {value : JsString}, ∀ c ∈ escapedText value, SPACE ≤ c ∧ c ≤ unit '~' := by
    intro value c hc
    rcases mem_escapedText hc with rfl | hplain
    · decide
    · exact ⟨UInt16.le_of_lt hplain.graphic.1, hplain.graphic.2⟩
  refine ⟨fun c hc => ?_, fun c hc => ?_⟩
  · rcases List.mem_append.1 hc with hc | hc
    · exact hgraphic c hc
    · rcases List.mem_cons.1 hc with rfl | hc
      · decide
      · exact hgraphic c hc
  · have hspace := (isFirst_of_mem_escapedLine (List.mem_of_mem_head? hc)).1
    exact Bool.eq_false_iff.2 fun hblank => absurd (isSpace_of_isBlankUnit hblank) (by simp [hspace])

theorem getLast?_escapedLine (entry : JsString × JsString) :
    (escapedLine entry).getLast? ≠ some BACKSLASH := by
  rw [escapedLine]
  cases hvalue : escapedText entry.2 with
  | nil =>
    rw [List.getLast?_concat]
    decide
  | cons c value =>
    rw [List.getLast?_append_cons, List.getLast?_cons_cons, ← hvalue]
    exact getLast?_escapedText entry.2

theorem parse_escaped (properties : Properties) :
    parseProperties (document escapedLine properties) = properties :=
  (document_reads_iff isLine_escapedLine fun entry _ => getLast?_escapedLine entry).2
    fun entry _ => parseLine_escapedLine entry

theorem loadProperties_escaped (texts : List JsString) (properties : Properties) :
    loadProperties (texts ++ [document escapedLine properties]) =
      (loadProperties texts).override properties := by
  rw [loadProperties, List.foldl_append, List.foldl_cons, List.foldl_nil, parse_escaped]
  rfl

/-- All settings can be written, in printable ASCII, and one more file with them overrides
those of the files before it. -/
theorem settings_written (properties : Properties) :
    ∃ text, (∀ c ∈ text, c = LF ∨ SPACE ≤ c ∧ c ≤ unit '~') ∧ parseProperties text = properties ∧
      ∀ texts, loadProperties (texts ++ [text]) = (loadProperties texts).override properties :=
  ⟨_, graphic_document isLine_escapedLine properties, parse_escaped properties,
    fun texts => loadProperties_escaped texts properties⟩

end UID
