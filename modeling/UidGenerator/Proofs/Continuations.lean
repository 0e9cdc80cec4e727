import UidGenerator.Proofs.PropertyLine

/-! Two documents after one another. Lines are joined before comments and escapes are
looked at, so a backslash at the end of the first document takes the second one's first
line away, whatever line it ends. -/

namespace UID

open OrderedMap

/-- The lines between line feeds; a carriage return before one stays at the end of a line. -/
def naturalLines (s : JsString) : List JsString := s.splitOnP fun c => decide (c = LF)

theorem naturalLines_of_noLf {s : JsString} (h : ∀ c ∈ s, c ≠ LF) : naturalLines s = [s] :=
  List.splitOnP_eq_singleton fun c hc => decide_eq_false (h c hc)

theorem naturalLines_append (a b : JsString) :
    naturalLines (a ++ LF :: b) = naturalLines a ++ naturalLines b :=
  List.splitOnP_append_cons a b (decide_eq_true rfl)

theorem naturalLines_cons (c : CodeUnit) (s : JsString) :
    naturalLines (c :: s) =
      if c = LF then [] :: naturalLines s else (naturalLines s).modifyHead (c :: ·) := by
  rw [naturalLines, List.splitOnP_cons_eq_if_modifyHead]
  simp only [decide_eq_true_eq]
  rfl

/-- The text after the last line feed, and the text before it. -/
theorem exists_lastLine (s : JsString) : ∃ before last, s = before ++ last ∧
    (before = [] ∨ ∃ lines, before = lines ++ [LF]) ∧ ∀ c ∈ last, c ≠ LF := by
  induction s using List.reverseRecOn with
  | nil => exact ⟨[], [], rfl, Or.inl rfl, nofun⟩
  | append_singleton s c ih =>
    by_cases hc : c = LF
    · exact ⟨s ++ [c], [], by simp, Or.inr ⟨s, by rw [hc]⟩, nofun⟩
    · obtain ⟨before, last, rfl, hbefore, hlast⟩ := ih
      refine ⟨before, last ++ [c], by simp, hbefore, fun d hd => ?_⟩
      rcases List.mem_append.1 hd with hd | hd
      · exact hlast d hd
      · rwa [List.mem_singleton.1 hd]

theorem length_le_of_mem_naturalLines {s line : JsString} (h : line ∈ naturalLines s) :
    line.length ≤ s.length := by
  induction s generalizing line with
  | nil =>
    rw [naturalLines_of_noLf (List.forall_mem_nil _), List.mem_singleton] at h
    rw [h]
  | cons c s ih =>
    rw [naturalLines_cons] at h
    split_ifs at h
    · rcases List.mem_cons.1 h with rfl | h
      · exact Nat.zero_le _
      · exact (ih h).trans (Nat.le_succ _)
    · cases hlines : naturalLines s with
      | nil => rw [hlines] at h; cases h
      | cons first lines =>
        rw [hlines, List.modifyHead_cons] at h
        rcases List.mem_cons.1 h with rfl | h
        · exact Nat.succ_le_succ (ih (hlines ▸ List.mem_cons_self))
        · exact (ih (hlines ▸ List.mem_cons_of_mem _ h)).trans (Nat.le_succ _)

/-- The natural lines of a text that ends in a line feed, or is empty, and a last line. -/
theorem naturalLines_append_last {before : JsString}
    (hbefore : before = [] ∨ ∃ lines, before = lines ++ [LF]) :
    ∃ init, (∀ line ∈ init, line.length ≤ before.length) ∧ ∀ last, (∀ c ∈ last, c ≠ LF) →
      naturalLines (before ++ last) = init ++ [last] := by
  rcases hbefore with rfl | ⟨lines, rfl⟩
  · exact ⟨[], nofun, fun last hlast => naturalLines_of_noLf hlast⟩
  · refine ⟨naturalLines lines, fun line hline => ?_, fun last hlast => ?_⟩
    · exact (length_le_of_mem_naturalLines hline).trans (by simp)
    · rw [List.append_assoc, List.singleton_append, naturalLines_append, naturalLines_of_noLf hlast]

/-- The lines that the code splits off lack a carriage return at most. -/
theorem splitLines_naturalLines (s : JsString) :
    List.Forall₂ (fun line natural => natural = line ∨ natural = line ++ [CR]) (splitLines s)
      (naturalLines s) := by
  induction s with
  | nil => exact .cons (Or.inl rfl) .nil
  | cons c s ih =>
    rw [splitLines, naturalLines_cons]
    split_ifs with hlf hcrlf
    · exact .cons (Or.inl rfl) ih
    · obtain ⟨rfl, hhead⟩ := hcrlf
      obtain ⟨rest, rfl⟩ : ∃ rest, s = LF :: rest := by
        cases s with
        | nil => cases hhead
        | cons d rest => exact ⟨rest, by rw [Option.some.inj hhead]⟩
      rw [splitLines, if_pos rfl, naturalLines_cons, if_pos rfl] at ih ⊢
      cases ih with
      | cons _ hrest => exact .cons (Or.inr rfl) hrest
    · generalize splitLines s = lines, naturalLines s = naturals at ih
      cases ih with
      | nil => exact .nil
      | cons hline hrest => exact .cons (hline.imp (congrArg (c :: ·)) (congrArg (c :: ·))) hrest

theorem trim_append_cr (s : JsString) : trim (s ++ [CR]) = trim s := by
  have hcr : isSpace CR = true := by decide
  rw [trim, trim, List.dropWhile_append]
  split_ifs with hempty
  · rw [List.isEmpty_iff.1 hempty, List.dropWhile_cons_of_pos hcr]
    rfl
  · exact List.rdropWhile_concat_pos _ _ _ hcr

theorem trim_cons_bom (s : JsString) : trim (BOM :: s) = trim s := by
  rw [trim, trim, List.dropWhile_cons_of_pos (by decide)]

def entriesOf (s : JsString) : List (JsString × JsString) := (naturalLines s).filterMap parseLine

theorem filterMap_splitLines (s : JsString) : (splitLines s).filterMap parseLine = entriesOf s := by
  have hlines := splitLines_naturalLines s
  rw [entriesOf]
  generalize splitLines s = lines, naturalLines s = naturals at hlines
  induction hlines with
  | nil => rfl
  | @cons line natural lines naturals hline _ ih =>
    have hparse : parseLine natural = parseLine line := by
      rcases hline with rfl | rfl
      · rfl
      · rw [parseLine, parseLine, trim_append_cr]
    rw [List.filterMap_cons, List.filterMap_cons, hparse, ih]

theorem entriesOf_append (a b : JsString) : entriesOf (a ++ LF :: b) = entriesOf a ++ entriesOf b := by
  rw [entriesOf, naturalLines_append, List.filterMap_append]
  rfl

/-- Outside the terminator of a match. -/
theorem joinContinuations_cons {state : Option ℕ} (h : ∀ consumed ∈ state, consumed = 0) (c : CodeUnit)
    (s : JsString) :
    joinContinuations state (c :: s) =
      if state.isSome ∧ isBlankUnit c then joinContinuations state s
      else if c = BACKSLASH ∧ (terminatorLength s).isSome then joinContinuations (terminatorLength s) s
      else c :: joinContinuations none s := by
  rw [joinContinuations]
  intro consumed heq
  exact Nat.succ_ne_zero consumed (h _ heq)

theorem joinContinuations_skip {s : JsString} (h : ∀ c ∈ s.head?, isBlankUnit c = false) :
    joinContinuations (some 0) s = joinContinuations none s := by
  cases s with
  | nil => rfl
  | cons c s =>
    rw [joinContinuations_cons (by simp), joinContinuations_cons (by simp)]
    simp [h c rfl]

theorem terminatorLength_le {s : JsString} {consumed : ℕ} (h : terminatorLength s = some consumed) :
    consumed ≤ s.length := by
  match s with
  | [] => cases h
  | [c] =>
    simp only [terminatorLength] at h
    split_ifs at h with hlf hcr
    · obtain rfl := Option.some.inj h
      simp
    · cases hcr.2
  | c :: d :: s =>
    simp only [terminatorLength] at h
    split_ifs at h <;> obtain rfl := Option.some.inj h <;> simp

/-- A text that no match goes over the end of is joined for itself. -/
theorem joinContinuations_append {a b : JsString} (hb : ∀ c ∈ b.head?, isBlankUnit c = false)
    (hlook : ∀ s, BACKSLASH :: s <:+ a → terminatorLength (s ++ b) = terminatorLength s)
    {state : Option ℕ} (hstate : ∀ consumed ∈ state, consumed ≤ a.length) :
    joinContinuations state (a ++ b) = joinContinuations state a ++ joinContinuations none b := by
  induction a generalizing state with
  | nil =>
    cases state with
    | none => rfl
    | some consumed =>
      obtain rfl : consumed = 0 := Nat.le_zero.1 (hstate consumed rfl)
      rw [List.nil_append, joinContinuations_skip hb]
      rfl
  | cons c a ih =>
    have hrest := @ih fun s hs => hlook s (hs.trans (List.suffix_cons c a))
    by_cases hopen : ∃ consumed, state = some (consumed + 1)
    · obtain ⟨consumed, rfl⟩ := hopen
      have hle := hstate _ rfl
      rw [List.length_cons] at hle
      exact hrest fun _ h => Option.some.inj h ▸ Nat.le_of_succ_le_succ hle
    · have hzero : ∀ consumed ∈ state, consumed = 0 := by
        rintro (_ | consumed) h
        · rfl
        · exact absurd ⟨consumed, h⟩ hopen
      rw [List.cons_append, joinContinuations_cons hzero, joinContinuations_cons hzero]
      by_cases hblank : state.isSome ∧ isBlankUnit c
      · rw [if_pos hblank, if_pos hblank]
        exact hrest fun consumed h => (hzero consumed h).le.trans (Nat.zero_le _)
      · rw [if_neg hblank, if_neg hblank]
        by_cases hbackslash : c = BACKSLASH
        · subst hbackslash
          rw [hlook a List.suffix_rfl]
          split_ifs
          · exact hrest fun consumed h => terminatorLength_le h
          · rw [hrest (by simp)]
            rfl
        · rw [if_neg fun h => hbackslash h.1, if_neg fun h => hbackslash h.1, hrest (by simp)]
          rfl

/-- A match does not go over a character that is not white space. -/
theorem terminatorLength_append {h : CodeUnit} (hspace : isSpace h = false) (s rest : JsString) :
    terminatorLength (s ++ h :: rest) = terminatorLength s := by
  have hlf : h ≠ LF := by
    rintro rfl
    exact absurd hspace (by decide)
  have hcr : h ≠ CR := by
    rintro rfl
    exact absurd hspace (by decide)
  match s with
  | [] => simp [terminatorLength, hlf, hcr]
  | [c] => simp [terminatorLength, hlf]
  | c :: d :: s => rfl

theorem joinContinuations_append_cons {h : CodeUnit} (hspace : isSpace h = false) (a rest : JsString) :
    joinContinuations none (a ++ h :: rest) =
      joinContinuations none a ++ joinContinuations none (h :: rest) := by
  refine joinContinuations_append ?_ (fun s _ => terminatorLength_append hspace s rest) (by simp)
  rintro c hc
  obtain rfl := Option.some.inj hc
  by_contra hblank
  rw [isSpace_of_isBlankUnit (by simpa using hblank)] at hspace
  cases hspace

/-- Nor over a line feed, where no backslash stands before the line terminator. -/
theorem joinContinuations_append_lf {a : JsString} (hbackslash : a.getLast? ≠ some BACKSLASH)
    (hcr : a.getLast? ≠ some CR) (b : JsString) :
    joinContinuations none (a ++ LF :: b) = joinContinuations none a ++ LF :: joinContinuations none b := by
  have hlast : ∀ s, BACKSLASH :: s <:+ a → terminatorLength (s ++ LF :: b) = terminatorLength s := by
    rintro s ⟨before, rfl⟩
    match s with
    | [] => exact absurd (by simp) hbackslash
    | [c] =>
      have hc : c ≠ CR := by
        rintro rfl
        exact hcr (by simp)
      simp [terminatorLength, hc]
    | c :: d :: s => rfl
  rw [joinContinuations_append (by simp; decide) hlast (by simp)]
  rfl

/-- The white space of the line rules of `java.util.Properties`. -/
def isJavaSpace (c : CodeUnit) : Bool := decide (c = SPACE ∨ c = TAB ∨ c = 0x0c)

def trailingBackslashes (line : JsString) : ℕ := (line.rtakeWhile (· = BACKSLASH)).length

/-- The next natural line does not continue this one. -/
def IsComplete (line : JsString) : Prop :=
  (∀ c ∈ line, isJavaSpace c = true) ∨
    ((line.dropWhile isJavaSpace).head? = some (unit '#') ∨
      (line.dropWhile isJavaSpace).head? = some (unit '!')) ∨
    Even (trailingBackslashes line)

instance : DecidablePred IsComplete := fun line =>
  inferInstanceAs (Decidable ((∀ c ∈ line, isJavaSpace c = true) ∨
    ((line.dropWhile isJavaSpace).head? = some (unit '#') ∨
      (line.dropWhile isJavaSpace).head? = some (unit '!')) ∨
    Even (trailingBackslashes line)))

/-- Lines end in LF or CRLF, and the last of them is complete. -/
structure IsDocument (s : JsString) : Prop where
  crlf : ∀ a b, s = a ++ CR :: b → b.head? = some LF
  complete : ∀ line ∈ (naturalLines s).getLast?, IsComplete line

theorem IsDocument.of_noCr {s : JsString} (hcr : ∀ c ∈ s, c ≠ CR)
    (hcomplete : ∀ line ∈ (naturalLines s).getLast?, IsComplete line) : IsDocument s :=
  ⟨fun a b hs => absurd rfl (hcr CR (by simp [hs])), hcomplete⟩

theorem IsDocument.getLast?_ne_cr {s : JsString} (h : IsDocument s) : s.getLast? ≠ some CR := by
  intro hlast
  obtain ⟨a, rfl⟩ := List.getLast?_eq_some_iff.1 hlast
  cases h.crlf a [] rfl

/-- Before the backslash at the end of a document stands, on its last line, a character that
is not white space. -/
theorem IsDocument.exists_before_backslash {s : JsString} (h : IsDocument s)
    (hlast : s.getLast? = some BACKSLASH) : ∃ before head tail, s = before ++ head :: tail ++ [BACKSLASH] ∧
      isSpace head = false ∧ ∀ c ∈ head :: tail, c ≠ LF := by
  obtain ⟨before, last, rfl, hbefore, hlf⟩ := exists_lastLine s
  obtain ⟨init, -, hlines⟩ := naturalLines_append_last hbefore
  have hcomplete : IsComplete last := h.complete last (by rw [hlines last hlf]; simp)
  obtain ⟨line, rfl⟩ : ∃ line, last = line ++ [BACKSLASH] := by
    rcases List.eq_nil_or_concat last with rfl | ⟨line, c, rfl⟩
    · rcases hbefore with rfl | ⟨lines, rfl⟩
      · cases hlast
      · rw [List.append_nil, List.getLast?_concat] at hlast
        exact absurd (Option.some.inj hlast) (by decide)
    · rw [List.concat_eq_append, ← List.append_assoc, List.getLast?_concat] at hlast
      exact ⟨line, by rw [List.concat_eq_append, Option.some.inj hlast]⟩
  rcases hcomplete with hblank | hcomment | heven
  · exact absurd (hblank BACKSLASH (by simp)) (by decide)
  · -- a comment, from its mark on
    obtain ⟨c, hc, hmarked⟩ : ∃ c, (((line ++ [BACKSLASH]).dropWhile isJavaSpace).head? = some c) ∧
        isSpace c = false ∧ c ≠ BACKSLASH := by
      rcases hcomment with hc | hc
      · exact ⟨_, hc, by decide⟩
      · exact ⟨_, hc, by decide⟩
    obtain ⟨rest, hrest⟩ : ∃ rest, (line ++ [BACKSLASH]).dropWhile isJavaSpace = c :: rest :=
      ⟨_, (List.cons_head?_tail hc).symm⟩
    have hsplit := List.takeWhile_append_dropWhile (p := isJavaSpace) (l := line ++ [BACKSLASH])
    rw [hrest] at hsplit
    obtain ⟨tail, rfl⟩ : ∃ tail, rest = tail ++ [BACKSLASH] := by
      rcases List.eq_nil_or_concat rest with rfl | ⟨tail, d, rfl⟩
      · exact absurd (List.append_inj' hsplit rfl).2 (by simpa using hmarked.2)
      · rw [List.concat_eq_append, ← List.cons_append, ← List.append_assoc] at hsplit
        have hd := (List.append_inj' hsplit rfl).2
        exact ⟨tail, by rw [List.concat_eq_append, hd]⟩
    refine ⟨before ++ (line ++ [BACKSLASH]).takeWhile isJavaSpace, c, tail, ?_, hmarked.1, fun d hd => ?_⟩
    · rw [← hsplit]
      simp [hsplit]
    · refine hlf d ?_
      rw [← hsplit, ← List.cons_append]
      exact List.mem_append_right _ (List.mem_append_left _ hd)
  · -- an even number of backslashes, from the last but one on
    rw [trailingBackslashes, List.rtakeWhile_concat_pos _ _ _ (by simp), List.length_append,
      List.length_singleton] at heven
    rcases List.eq_nil_or_concat line with rfl | ⟨line, c, rfl⟩
    · exact absurd heven (by decide)
    · rw [List.concat_eq_append] at heven hlf ⊢
      by_cases hc : c = BACKSLASH
      · subst hc
        exact ⟨before ++ line, BACKSLASH, [], by simp, by decide, by simp; decide⟩
      · rw [List.rtakeWhile_concat_neg _ _ _ (by simpa using hc)] at heven
        exact absurd heven (by decide)

theorem parseProperties_eq (text : JsString) :
    parseProperties text = empty.setAll (entriesOf (joinContinuations none (stripBom text))) := by
  rw [parseProperties, filterMap_splitLines]

theorem stripBom_append (a b : JsString) (c : CodeUnit) (hc : c ≠ BOM) :
    stripBom (a ++ c :: b) = stripBom a ++ c :: b := by
  cases a with
  | nil => simp [stripBom, hc]
  | cons d a =>
    rw [List.cons_append, stripBom, stripBom, List.head?_cons, List.head?_cons]
    split_ifs <;> rfl

/-- A mark within a text is white space. -/
theorem entriesOf_bom (s : JsString) :
    entriesOf (joinContinuations none s) = entriesOf (joinContinuations none (stripBom s)) := by
  rw [stripBom]
  split_ifs with hhead
  · obtain ⟨rest, rfl⟩ : ∃ rest, s = BOM :: rest := ⟨_, (List.cons_head?_tail hhead).symm⟩
    rw [joinContinuations_cons (by simp), if_neg (by simp), if_neg (fun h => absurd h.1 (by decide)),
      List.tail_cons, entriesOf, naturalLines_cons, if_neg (by decide), entriesOf]
    cases naturalLines (joinContinuations none rest) with
    | nil => rfl
    | cons line lines =>
      have hparse : parseLine (BOM :: line) = parseLine line := by
        rw [parseLine, parseLine, trim_cons_bom]
      rw [List.modifyHead_cons, List.filterMap_cons, List.filterMap_cons, hparse]
  · rfl

theorem parse_append_of_getLast? {d₁ : JsString} (h : IsDocument d₁)
    (hlast : d₁.getLast? ≠ some BACKSLASH) (d₂ : JsString) :
    parseProperties (d₁ ++ LF :: d₂) = (parseProperties d₁).override (parseProperties d₂) := by
  have hsuffix : ∀ c, (stripBom d₁).getLast? = some c → d₁.getLast? = some c := by
    intro c hc
    rw [stripBom] at hc
    split_ifs at hc
    · obtain ⟨init, hinit⟩ := List.getLast?_eq_some_iff.1 hc
      cases d₁ with
      | nil => cases hc
      | cons d rest =>
        rw [List.tail_cons] at hinit
        rw [hinit, ← List.cons_append, List.getLast?_concat]
    · exact hc
  rw [parseProperties_eq, stripBom_append d₁ d₂ LF (by decide),
    joinContinuations_append_lf (fun hb => hlast (hsuffix _ hb)) fun hc => h.getLast?_ne_cr (hsuffix _ hc),
    entriesOf_append, setAll_append, entriesOf_bom d₂, ← parseProperties_eq, parseProperties_eq d₂,
    override_setAll, override_empty]

/-- The last file that has a key decides its value. -/
theorem get_loadProperties (texts : List JsString) (key : JsString) :
    (loadProperties texts).get key = texts.reverse.findSome? fun text => (parseProperties text).get key := by
  induction texts using List.reverseRecOn with
  | nil => rfl
  | append_singleton texts last ih =>
    have hlast : loadProperties (texts ++ [last]) =
        (loadProperties texts).override (parseProperties last) := List.foldl_append
    rw [hlast, get_override, ih, List.reverse_append, List.reverse_singleton, List.singleton_append,
      List.findSome?_cons]
    cases (parseProperties last).get key <;> rfl

/-- Complete files that do not end in a backslash are read as one document. -/
theorem loadProperties_eq_parse {texts : List JsString}
    (h : ∀ text ∈ texts, IsDocument text ∧ text.getLast? ≠ some BACKSLASH) (last : JsString) :
    loadProperties (texts ++ [last]) =
      parseProperties ((texts.map (· ++ [LF])).flatten ++ last) := by
  have hfold : ∀ merged : Properties, (texts ++ [last]).foldl
      (fun merged text => merged.override (parseProperties text)) merged =
        merged.override (parseProperties ((texts.map (· ++ [LF])).flatten ++ last)) := by
    induction texts with
    | nil => exact fun merged => rfl
    | cons text texts ih =>
      intro merged
      obtain ⟨hdoc, hlast⟩ := h text List.mem_cons_self
      have hsplit : ((text :: texts).map (· ++ [LF])).flatten ++ last =
          text ++ LF :: ((texts.map (· ++ [LF])).flatten ++ last) := by
        simp
      rw [List.cons_append, List.foldl_cons, ih fun t ht => h t (List.mem_cons_of_mem text ht), hsplit,
        parse_append_of_getLast? hdoc hlast, override_assoc]
  rw [loadProperties, hfold, empty_override]

/-- A key of its own length, and a line that maps it to a value. -/
def longKey (n : ℕ) : JsString := unit 'n' :: List.replicate n (unit 'z')

def longLine (n : ℕ) : JsString := longKey n ++ unit '=' :: js "y"

theorem mem_longKey {n : ℕ} {c : CodeUnit} (h : c ∈ longKey n) : c = unit 'n' ∨ c = unit 'z' :=
  (List.mem_cons.1 h).imp_right List.eq_of_mem_replicate

theorem mem_longLine {n : ℕ} {c : CodeUnit} (h : c ∈ longLine n) :
    c ∈ [unit 'n', unit 'z', unit '=', unit 'y'] := by
  rcases List.mem_append.1 h with h | h
  · rcases mem_longKey h with rfl | rfl <;> decide
  · rcases List.mem_cons.1 h with rfl | h
    · decide
    · rw [List.mem_singleton.1 h]
      decide

theorem cutSeparator_append (backslash : Bool) (a b : JsString) :
    cutSeparator backslash (a ++ b) =
      match cutSeparator backslash a with
      | some (key, value) => some (key, value ++ b)
      | none => (cutSeparator (backslashBefore backslash a) b).map fun (key, value) => (a ++ key, value) := by
  induction a generalizing backslash with
  | nil => simp [cutSeparator, backslashBefore]
  | cons c a ih =>
    rw [List.cons_append, cutSeparator, cutSeparator]
    split_ifs
    · rfl
    · rw [ih, backslashBefore]
      cases cutSeparator (decide (c = BACKSLASH)) a with
      | some cut => rfl
      | none => cases cutSeparator (backslashBefore (decide (c = BACKSLASH)) a) b <;> rfl

theorem cutSeparator_plain {backslash : Bool} {a : JsString}
    (h : ∀ c ∈ a, isSeparator c = false ∧ isSpace c = false) : cutSeparator backslash a = none := by
  induction a generalizing backslash with
  | nil => rfl
  | cons c a ih =>
    obtain ⟨hsep, hspace⟩ := h c List.mem_cons_self
    rw [cutSeparator, if_neg (by simp [hsep, hspace]), ih fun d hd => h d (List.mem_cons_of_mem c hd)]
    rfl

theorem cutSeparator_longLine (n : ℕ) (backslash : Bool) :
    cutSeparator backslash (longLine n) = some (longKey n, js "y") := by
  have hkey : cutSeparator backslash (longKey n) = none := cutSeparator_plain fun c hc => by
    rcases mem_longKey hc with rfl | rfl <;> decide
  have hbehind : backslashBefore backslash (longKey n) = false := by
    refine Bool.eq_false_iff.2 fun hbehind => ?_
    have hmem := List.mem_of_getLast? ((backslashBefore_iff (List.cons_ne_nil _ _) _).1 hbehind)
    rcases mem_longKey hmem with h | h <;> exact absurd h (by decide)
  rw [longLine, cutSeparator_append, hkey, hbehind]
  rw [cutSeparator, if_pos (Or.inl (by decide))]
  simp

theorem unescape_longKey (n : ℕ) : unescape (longKey n) = longKey n := by
  rw [← List.append_nil (longKey n), unescape_plain, unescape_nil]
  intro c hc
  rcases mem_longKey hc with rfl | rfl <;> decide

theorem unescape_ne_nil {s : JsString} (h : s ≠ []) : unescape s ≠ [] := by
  cases s with
  | nil => exact absurd rfl h
  | cons c s =>
    by_cases hc : c = BACKSLASH
    · subst hc
      cases hcode : unicodeEscape s with
      | some code =>
        rw [unescape_unicode hcode]
        exact List.cons_ne_nil _ _
      | none =>
        cases s with
        | nil => exact List.cons_ne_nil _ _
        | cons e s =>
          rw [unescape_escape hcode]
          split_ifs <;> exact List.cons_ne_nil _ _
    · rw [unescape_cons hc]
      exact List.cons_ne_nil _ _

/-- No text before a key leaves the key what it is: an escaped letter is another one, and
everything else is longer. -/
theorem unescape_append_longKey_ne {a : JsString} (ha : a ≠ []) (n : ℕ) :
    unescape (a ++ longKey n) ≠ longKey n := by
  intro heq
  cases hescaped : escapedAfter false a with
  | false =>
    have hdigit : ∀ c ∈ (longKey n).head?, hexDigit c = none := by
      rintro c hc
      obtain rfl := Option.some.inj hc
      decide
    rw [unescape_append hescaped hdigit, unescape_longKey, List.append_left_eq_self] at heq
    exact unescape_ne_nil ha heq
  | true =>
    obtain ⟨closed, rfl, hclosed⟩ := exists_backslash_of_escaped hescaped
    rw [List.append_assoc, unescape_append hclosed (by simp; decide), longKey, List.singleton_append,
      unescape_escape (unicodeEscape_of_ne (by decide) _), if_neg (by decide)] at heq
    have hmem : LF ∈ longKey n := by
      rw [longKey, ← heq]
      exact List.mem_append_right _ List.mem_cons_self
    rcases mem_longKey hmem with h | h <;> exact absurd h (by decide)

theorem length_cutSeparator {backslash : Bool} {line key value : JsString}
    (h : cutSeparator backslash line = some (key, value)) : key.length ≤ line.length := by
  induction line generalizing backslash key value with
  | nil => cases h
  | cons c line ih =>
    rw [cutSeparator] at h
    split_ifs at h
    · obtain ⟨rfl, -⟩ := Prod.mk.inj (Option.some.inj h)
      exact Nat.zero_le _
    · obtain ⟨⟨key', value'⟩, hcut, hcons⟩ := Option.map_eq_some_iff.1 h
      obtain ⟨rfl, -⟩ := Prod.mk.inj hcons
      exact Nat.succ_le_succ (ih hcut)

theorem length_trim_le (s : JsString) : (trim s).length ≤ s.length :=
  (List.rdropWhile_prefix isSpace _).length_le.trans (List.dropWhile_suffix isSpace).length_le

theorem length_key_le {line : JsString} {entry : JsString × JsString} (h : parseLine line = some entry) :
    entry.1.length ≤ line.length := by
  rw [parseLine_eq] at h
  split_ifs at h
  obtain rfl := Option.some.inj h
  refine le_trans ?_ (length_trim_le line)
  rw [codeEntry]
  cases hcut : cutSeparator false (trim line) with
  | none => exact length_unescape_le _
  | some cut => exact (length_unescape_le _).trans (length_cutSeparator hcut)

theorem trim_append_longLine (a : JsString) (n : ℕ) :
    trim (a ++ longLine n) = a.dropWhile isSpace ++ longLine n := by
  have hstart : (a ++ longLine n).dropWhile isSpace = a.dropWhile isSpace ++ longLine n := by
    rw [List.dropWhile_append]
    split_ifs with hempty
    · rw [List.isEmpty_iff.1 hempty]
      exact List.dropWhile_cons_of_neg (by decide)
    · rfl
  have hend : longLine n = longKey n ++ [unit '='] ++ [unit 'y'] := by
    rw [List.append_assoc]
    rfl
  rw [trim, hstart, hend, ← List.append_assoc, List.rdropWhile_concat_neg _ _ _ (by decide)]

theorem parseLine_longLine (n : ℕ) : parseLine (longLine n) = some (longKey n, js "y") := by
  have htrim : trim (longLine n) = longLine n := trim_append_longLine [] n
  rw [parseLine_eq, htrim, if_neg, codeEntry, cutSeparator_longLine]
  · simp only [unescape_longKey]
    rfl
  · rintro (hnil | hhash | hbang)
    · cases hnil
    · exact absurd (Option.some.inj hhash) (by decide)
    · exact absurd (Option.some.inj hbang) (by decide)

/-- A line whose text goes on with another one does not have that one's key. -/
theorem parseLine_append_longLine {a : JsString} {n : ℕ} (ha : ∃ c ∈ a, isSpace c = false)
    (hlen : a.length ≤ n) {entry : JsString × JsString} (h : parseLine (a ++ longLine n) = some entry) :
    entry.1 ≠ longKey n := by
  obtain ⟨c, hc, hspace⟩ := ha
  have hne : a.dropWhile isSpace ≠ [] := by
    rw [Ne, List.dropWhile_eq_nil_iff]
    intro hblank
    rw [hblank c hc] at hspace
    cases hspace
  have hshort : (a.dropWhile isSpace).length ≤ n := (List.dropWhile_suffix isSpace).length_le.trans hlen
  rw [parseLine_eq, trim_append_longLine] at h
  generalize a.dropWhile isSpace = line at h hne hshort
  split_ifs at h
  obtain rfl := Option.some.inj h
  rw [codeEntry, cutSeparator_append]
  cases hcut : cutSeparator false line with
  | none =>
    rw [cutSeparator_longLine]
    exact unescape_append_longKey_ne hne n
  | some cut =>
    -- the key ends within the line
    intro heq
    have hle : (unescape cut.1).length ≤ line.length :=
      (length_unescape_le _).trans (length_cutSeparator hcut)
    have hlong : (longKey n).length = n + 1 := by
      rw [longKey, List.length_cons, List.length_replicate]
    rw [← heq] at hlong
    simp only at hlong
    omega

theorem length_joinContinuations_le (state : Option ℕ) (s : JsString) :
    (joinContinuations state s).length ≤ s.length := by
  fun_induction joinContinuations state s with
  | case1 => exact le_rfl
  | case2 _ _ _ ih => exact ih.trans (Nat.le_succ _)
  | case3 _ _ _ _ _ ih => exact ih.trans (Nat.le_succ _)
  | case4 _ _ _ _ _ _ ih => exact ih.trans (Nat.le_succ _)
  | case5 _ _ _ _ _ _ ih => exact Nat.succ_le_succ ih

/-- A line that ends in a backslash takes the next one. -/
theorem joinContinuations_backslash {line next : JsString} (hline : ∀ c ∈ line, c ≠ LF)
    (hnext : ∀ c ∈ next, c ≠ LF) (hhead : ∀ c ∈ next.head?, isBlankUnit c = false) :
    joinContinuations none (line ++ BACKSLASH :: LF :: next) = line ++ next := by
  induction line with
  | nil =>
    have hmatch : terminatorLength (LF :: next) = some 1 := rfl
    rw [List.nil_append, joinContinuations_cons (by simp), if_neg (by simp), if_pos ⟨rfl, by rw [hmatch]; rfl⟩,
      hmatch, joinContinuations, joinContinuations_skip hhead, joinContinuations_of_noLf hnext]
    rfl
  | cons c line ih =>
    have hrest : ∀ d ∈ line, d ≠ LF := fun d hd => hline d (List.mem_cons_of_mem c hd)
    have hnone : terminatorLength (line ++ BACKSLASH :: LF :: next) = none := by
      have happend := terminatorLength_append (h := BACKSLASH) (by decide) line (LF :: next)
      rw [happend, terminatorLength_of_noLf hrest]
    rw [List.cons_append, joinContinuations_cons (by simp), if_neg (by simp), if_neg (by simp [hnone]),
      ih hrest]
    rfl

theorem noLf_longLine (n : ℕ) : ∀ c ∈ longLine n, c ≠ LF := by
  rintro c hc rfl
  exact absurd (mem_longLine hc) (by decide)

theorem keys_longLine (n : ℕ) : (parseProperties (longLine n)).keys = [longKey n] := by
  have hbom : stripBom (longLine n) = longLine n := rfl
  rw [parseProperties, hbom, joinContinuations_of_noLf (noLf_longLine n), splitLines_of_noLf (noLf_longLine n),
    List.filterMap_cons, parseLine_longLine]
  rfl

theorem length_stripBom_le (s : JsString) : (stripBom s).length ≤ s.length := by
  rw [stripBom]
  split_ifs
  · rw [List.length_tail]
    exact Nat.sub_le _ _
  · exact le_rfl

/-- The joined text, where the last line of the first document takes a long line. -/
theorem joinContinuations_longLine {head : CodeUnit} (hspace : isSpace head = false) {tail : JsString}
    (hlf : ∀ c ∈ head :: tail, c ≠ LF) (before : JsString) (n : ℕ) :
    joinContinuations none (stripBom (before ++ head :: tail ++ [BACKSLASH] ++ LF :: longLine n)) =
      joinContinuations none (stripBom before) ++ (head :: tail ++ longLine n) := by
  have hbom : head ≠ BOM := by
    rintro rfl
    cases hspace
  have hwhole : before ++ head :: tail ++ [BACKSLASH] ++ LF :: longLine n =
      before ++ head :: (tail ++ BACKSLASH :: LF :: longLine n) := by
    simp
  have hblank : ∀ c ∈ (longLine n).head?, isBlankUnit c = false := by
    rintro c hc
    obtain rfl := Option.some.inj hc
    decide
  rw [hwhole, stripBom_append before _ head hbom, joinContinuations_append_cons hspace, ← List.cons_append,
    joinContinuations_backslash hlf (noLf_longLine n) hblank]

/-- Behind a backslash the entry of a long line is lost. -/
theorem longKey_notMem {d₁ : JsString} (h : IsDocument d₁) (hlast : d₁.getLast? = some BACKSLASH) :
    longKey d₁.length ∉ (parseProperties (d₁ ++ LF :: longLine d₁.length)).keys := by
  obtain ⟨before, head, tail, rfl, hspace, hlf⟩ := h.exists_before_backslash hlast
  obtain ⟨lines, last, hjoined, hlines, hlast⟩ := exists_lastLine (joinContinuations none (stripBom before))
  obtain ⟨init, hinit, hnatural⟩ := naturalLines_append_last hlines
  have hshort : lines.length + last.length ≤ before.length := by
    rw [← List.length_append, ← hjoined]
    exact (length_joinContinuations_le _ _).trans (length_stripBom_le before)
  have hlen : (before ++ head :: tail ++ [BACKSLASH]).length = before.length + (tail.length + 1) + 1 := by
    simp only [List.length_append, List.length_cons, List.length_nil]
  generalize (before ++ head :: tail ++ [BACKSLASH]).length = n at hlen ⊢
  have hnoLf : ∀ c ∈ last ++ head :: tail ++ longLine n, c ≠ LF := by
    intro c hc
    rcases List.mem_append.1 hc with hc | hc
    · rcases List.mem_append.1 hc with hc | hc
      · exact hlast c hc
      · exact hlf c hc
    · exact noLf_longLine n c hc
  rw [parseProperties_eq, mem_keys_setAll, joinContinuations_longLine hspace hlf, hjoined, List.append_assoc,
    ← List.append_assoc last, entriesOf, hnatural _ hnoLf]
  rintro (hempty | hmem)
  · cases hempty
  · obtain ⟨entry, hentry, hkey⟩ := List.mem_map.1 hmem
    obtain ⟨line, hline, hparse⟩ := List.mem_filterMap.1 hentry
    rcases List.mem_append.1 hline with hline | hline
    · -- an earlier line is too short for the key
      have hle := (length_key_le hparse).trans (hinit line hline)
      rw [hkey, longKey, List.length_cons, List.length_replicate] at hle
      omega
    · obtain rfl := List.mem_singleton.1 hline
      refine parseLine_append_longLine ⟨head, by simp, hspace⟩ ?_ hparse hkey
      simp only [List.length_append, List.length_cons]
      omega

/-- Two documents after one another are the second one over the first, whatever the second
one is, exactly when the first one does not end in a backslash. -/
theorem parse_append_iff {d₁ : JsString} (h : IsDocument d₁) :
    (∀ d₂, parseProperties (d₁ ++ LF :: d₂) = (parseProperties d₁).override (parseProperties d₂)) ↔
      d₁.getLast? ≠ some BACKSLASH := by
  refine ⟨fun hall hlast => ?_, parse_append_of_getLast? h⟩
  refine longKey_notMem h hlast ?_
  rw [hall, override, keys]
  refine mem_keys_setAll.2 (Or.inr ?_)
  have hkeys := keys_longLine d₁.length
  rw [keys] at hkeys
  rw [hkeys]
  exact List.mem_singleton_self _

/-- A comment, an entry over two lines and a last entry without a line end. -/
def severalLines : JsString := js "#c\na=1\\\n 2\nb=3"

theorem parse_append_several_lines :
    (parseProperties severalLines).entries = [(js "a", js "12"), (js "b", js "3")] ∧
    ∀ d₂, parseProperties (severalLines ++ LF :: d₂) =
      (parseProperties severalLines).override (parseProperties d₂) := by
  have hdoc : IsDocument severalLines := .of_noCr (by decide) (by decide)
  exact ⟨by decide, (parse_append_iff hdoc).2 (by decide)⟩

/-- A comment that ends in a backslash takes the next entry away, and an escaped backslash at
the end of a value takes its text. -/
theorem next_line_swallowed :
    (IsDocument (js "#c\\") ∧ (parseProperties (js "#c\\" ++ LF :: js "k=v")).entries = [] ∧
      parseProperties (js "#c\\" ++ LF :: js "k=v") ≠
        (parseProperties (js "#c\\")).override (parseProperties (js "k=v"))) ∧
    IsDocument (js "a=1\\\\") ∧
      (parseProperties (js "a=1\\\\" ++ LF :: js "k=v")).entries = [(js "a", js "1k=v")] ∧
      parseProperties (js "a=1\\\\" ++ LF :: js "k=v") ≠
        (parseProperties (js "a=1\\\\")).override (parseProperties (js "k=v")) := by
  refine ⟨⟨.of_noCr (by decide) (by decide), by decide, fun h => ?_⟩, .of_noCr (by decide) (by decide),
    by decide, fun h => ?_⟩
  · exact absurd (congrArg entries h) (by decide)
  · exact absurd (congrArg entries h) (by decide)

end UID
