import Mathlib.Tactic

/-! JSON texts, in UTF-16 code units, that are objects whose members are strings. A text
is cut into tokens, and the tokens are read as members; white space and the escapes of
strings are those of the grammar. -/

namespace Json

inductive Token
  | beginObject
  | endObject
  | nameSeparator
  | valueSeparator
  | string (chars : List UInt16)
  deriving DecidableEq

def QUOTE : UInt16 := 0x22
def BACKSLASH : UInt16 := 0x5c

def isSpace (c : UInt16) : Bool := c = 0x20 ∨ c = 0x09 ∨ c = 0x0a ∨ c = 0x0d

def structural (c : UInt16) : Option Token :=
  if c = 0x7b then some .beginObject
  else if c = 0x7d then some .endObject
  else if c = 0x3a then some .nameSeparator
  else if c = 0x2c then some .valueSeparator
  else none

/-- The character of a two-character escape. -/
def escaped (c : UInt16) : Option UInt16 :=
  if c = QUOTE ∨ c = BACKSLASH ∨ c = 0x2f then some c
  else if c = 0x62 then some 0x08
  else if c = 0x66 then some 0x0c
  else if c = 0x6e then some 0x0a
  else if c = 0x72 then some 0x0d
  else if c = 0x74 then some 0x09
  else none

def hexDigit (c : UInt16) : Option ℕ :=
  if 0x30 ≤ c ∧ c ≤ 0x39 then some (c.toNat - 0x30)
  else if 0x41 ≤ c ∧ c ≤ 0x46 then some (c.toNat - 0x41 + 10)
  else if 0x61 ≤ c ∧ c ≤ 0x66 then some (c.toNat - 0x61 + 10)
  else none

def hexCode (a b c d : UInt16) : Option UInt16 := do
  return UInt16.ofNat ((((← hexDigit a) * 16 + (← hexDigit b)) * 16 + (← hexDigit c)) * 16 + (← hexDigit d))

/-- The tokens of a text. Within a string, `chars` are its characters so far, the last
one first. -/
def tokens : Option (List UInt16) → List UInt16 → Option (List Token)
  | none, [] => some []
  | some _, [] => none
  | none, c :: rest =>
    if isSpace c then tokens none rest
    else if c = QUOTE then tokens (some []) rest
    else
      match structural c with
      | some token => (tokens none rest).map (token :: ·)
      | none => none
  | some chars, c :: rest =>
    if c = QUOTE then (tokens none rest).map (.string chars.reverse :: ·)
    else if c = BACKSLASH then
      match rest with
      | 0x75 :: a :: b :: c :: d :: rest =>
        match hexCode a b c d with
        | some code => tokens (some (code :: chars)) rest
        | none => none
      | e :: rest =>
        match escaped e with
        | some char => tokens (some (char :: chars)) rest
        | none => none
      | [] => none
    else if c < 0x20 then none
    else tokens (some (c :: chars)) rest

/-- The members of an object after its opening brace: at least one. -/
def members : List Token → Option (List (List UInt16 × List UInt16))
  | [.string name, .nameSeparator, .string value, .endObject] => some [(name, value)]
  | .string name :: .nameSeparator :: .string value :: .valueSeparator :: rest =>
    (members rest).map ((name, value) :: ·)
  | _ => none

def readObject (text : List UInt16) : Option (List (List UInt16 × List UInt16)) :=
  match tokens none text with
  | some [.beginObject, .endObject] => some []
  | some (.beginObject :: rest) => members rest
  | _ => none

def IsPlain (c : UInt16) : Prop := c ≠ QUOTE ∧ c ≠ BACKSLASH ∧ ¬c < 0x20

def quote (chars : List UInt16) : List UInt16 := QUOTE :: (chars ++ [QUOTE])

theorem tokens_close (before rest : List UInt16) :
    tokens (some before) (QUOTE :: rest) =
      (tokens none rest).map (.string before.reverse :: ·) := by
  rw [tokens.eq_def]
  simp only [if_pos]

theorem tokens_char {c : UInt16} (h : IsPlain c) (before rest : List UInt16) :
    tokens (some before) (c :: rest) = tokens (some (c :: before)) rest := by
  obtain ⟨hquote, hbackslash, hspace⟩ := h
  rw [tokens.eq_def]
  simp only [if_neg hquote, if_neg hbackslash, if_neg hspace]

theorem tokens_plain {chars : List UInt16} (h : ∀ c ∈ chars, IsPlain c) (before rest : List UInt16) :
    tokens (some before) (chars ++ QUOTE :: rest) =
      (tokens none rest).map (.string (before.reverse ++ chars) :: ·) := by
  induction chars generalizing before with
  | nil => rw [List.nil_append, tokens_close, List.append_nil]
  | cons c chars ih =>
    have hnext := ih (fun d hd => h d (by simp [hd])) (c :: before)
    rw [List.cons_append, tokens_char (h c (by simp)), hnext]
    simp

theorem tokens_quote {chars : List UInt16} (h : ∀ c ∈ chars, IsPlain c) (rest : List UInt16) :
    tokens none (quote chars ++ rest) = (tokens none rest).map (.string chars :: ·) := by
  have hrest := tokens_plain h [] rest
  rw [quote, List.cons_append, List.append_assoc, List.singleton_append, tokens,
    if_neg (by decide), if_pos rfl, hrest]
  rfl

theorem tokens_structural {c : UInt16} (token : Token) (hspace : isSpace c = false) (hquote : c ≠ QUOTE)
    (hc : structural c = some token) (rest : List UInt16) :
    tokens none (c :: rest) = (tokens none rest).map (token :: ·) := by
  rw [tokens, if_neg (by simp [hspace]), if_neg hquote, hc]

def writeMembers : List (List UInt16 × List UInt16) → List UInt16
  | [] => []
  | [(name, value)] => quote name ++ 0x3a :: quote value
  | (name, value) :: next :: rest =>
    quote name ++ 0x3a :: quote value ++ 0x2c :: writeMembers (next :: rest)

def writeObject (object : List (List UInt16 × List UInt16)) : List UInt16 :=
  0x7b :: (writeMembers object ++ [0x7d])

/-- The tokens of a member. -/
theorem tokens_member {name value : List UInt16} (hname : ∀ c ∈ name, IsPlain c)
    (hvalue : ∀ c ∈ value, IsPlain c) (rest : List UInt16) :
    tokens none (quote name ++ 0x3a :: (quote value ++ rest)) =
      (tokens none rest).map (.string name :: .nameSeparator :: .string value :: ·) := by
  rw [tokens_quote hname, tokens_structural .nameSeparator (by decide) (by decide) (by decide),
    tokens_quote hvalue, Option.map_map, Option.map_map]
  rfl

theorem members_writeMembers {object : List (List UInt16 × List UInt16)} (hne : object ≠ [])
    (h : ∀ member ∈ object, (∀ c ∈ member.1, IsPlain c) ∧ ∀ c ∈ member.2, IsPlain c) :
    (tokens none (writeMembers object ++ [0x7d])).bind members = some object := by
  induction object with
  | nil => exact absurd rfl hne
  | cons member object ih =>
    obtain ⟨name, value⟩ := member
    obtain ⟨hname, hvalue⟩ := h (name, value) (by simp)
    cases object with
    | nil =>
      rw [writeMembers, List.append_assoc, List.cons_append, tokens_member hname hvalue]
      rfl
    | cons next object =>
      have hrest := ih (by simp) fun m hm => h m (List.mem_cons_of_mem _ hm)
      rw [writeMembers, List.append_assoc, List.append_assoc, List.cons_append, List.cons_append,
        tokens_member hname hvalue, tokens_structural .valueSeparator (by decide) (by decide)
          (by decide)]
      rw [Option.map_map, Option.bind_map]
      cases htokens : tokens none (writeMembers (next :: object) ++ [0x7d]) with
      | none => rw [htokens] at hrest; cases hrest
      | some rest =>
        rw [htokens, Option.bind_some] at hrest
        rw [Option.bind_some]
        simp only [Function.comp_apply, members, hrest, Option.map_some]

theorem readObject_writeObject {object : List (List UInt16 × List UInt16)} (hne : object ≠ [])
    (h : ∀ member ∈ object, (∀ c ∈ member.1, IsPlain c) ∧ ∀ c ∈ member.2, IsPlain c) :
    readObject (writeObject object) = some object := by
  have hmembers := members_writeMembers hne h
  rw [readObject, writeObject, tokens_structural .beginObject (by decide) (by decide)
    (by decide)]
  cases htokens : tokens none (writeMembers object ++ [0x7d]) with
  | none => rw [htokens] at hmembers; cases hmembers
  | some rest =>
    rw [htokens, Option.bind_some] at hmembers
    rw [Option.map_some]
    split
    · next heq =>
      simp only [Option.some.injEq, List.cons.injEq, true_and] at heq
      rw [heq] at hmembers
      cases hmembers
    · next heq =>
      simp only [Option.some.injEq, List.cons.injEq, true_and] at heq
      rwa [← heq]
    · next hother => exact absurd rfl (hother rest)

end Json
