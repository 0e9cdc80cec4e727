import Mathlib.Data.List.Nodup
import Mathlib.Tactic

/-! A map whose entries stand in the order in which their keys first came in, as those of
a JavaScript `Map` do. -/

variable {κ α : Type*} [DecidableEq κ]

@[ext] structure OrderedMap (κ α : Type*) where
  entries : List (κ × α)
  nodup : (entries.map Prod.fst).Nodup

namespace OrderedMap

/-- Write an entry in its place, or at the end where the key is new. -/
def setEntry (key : κ) (value : α) : List (κ × α) → List (κ × α)
  | [] => [(key, value)]
  | entry :: entries =>
    if entry.1 = key then (key, value) :: entries else entry :: setEntry key value entries

theorem mem_keys_setEntry {key k : κ} {value : α} {entries : List (κ × α)} :
    k ∈ (setEntry key value entries).map Prod.fst ↔ k = key ∨ k ∈ entries.map Prod.fst := by
  induction entries with
  | nil => simp [setEntry]
  | cons entry entries ih =>
    unfold setEntry
    split_ifs with heq
    · simp [heq]
    · rw [List.map_cons, List.mem_cons, ih, List.map_cons, List.mem_cons]
      tauto

theorem nodup_setEntry {key : κ} {value : α} {entries : List (κ × α)}
    (h : (entries.map Prod.fst).Nodup) : ((setEntry key value entries).map Prod.fst).Nodup := by
  induction entries with
  | nil => simp [setEntry]
  | cons entry entries ih =>
    obtain ⟨hnew, hrest⟩ := List.nodup_cons.1 h
    unfold setEntry
    split_ifs with heq
    · rw [List.map_cons, ← heq]
      exact h
    · refine List.nodup_cons.2 ⟨?_, ih hrest⟩
      rw [mem_keys_setEntry]
      exact fun hmem => hmem.elim heq hnew

def empty : OrderedMap κ α := ⟨[], List.nodup_nil⟩

def set (m : OrderedMap κ α) (key : κ) (value : α) : OrderedMap κ α :=
  ⟨setEntry key value m.entries, nodup_setEntry m.nodup⟩

def get (m : OrderedMap κ α) (key : κ) : Option α :=
  (m.entries.find? fun entry => entry.1 = key).map Prod.snd

def keys (m : OrderedMap κ α) : List κ := m.entries.map Prod.fst

def setAll (m : OrderedMap κ α) (entries : List (κ × α)) : OrderedMap κ α :=
  entries.foldl (fun m entry => m.set entry.1 entry.2) m

/-- The entries of `n` written over those of `m`. -/
def override (m n : OrderedMap κ α) : OrderedMap κ α := m.setAll n.entries

variable {m n : OrderedMap κ α} {key k : κ} {value v : α} {entries : List (κ × α)}

theorem mem_keys_set : k ∈ (m.set key value).keys ↔ k = key ∨ k ∈ m.keys := mem_keys_setEntry

theorem setAll_cons (m : OrderedMap κ α) (entry : κ × α) (entries : List (κ × α)) :
    m.setAll (entry :: entries) = (m.set entry.1 entry.2).setAll entries := rfl

theorem mem_keys_setAll : k ∈ (m.setAll entries).keys ↔ k ∈ m.keys ∨ k ∈ entries.map Prod.fst := by
  induction entries generalizing m with
  | nil => simp [setAll]
  | cons entry entries ih =>
    rw [setAll_cons, ih, mem_keys_set, List.map_cons, List.mem_cons]
    tauto

theorem setAll_append (m : OrderedMap κ α) (entries later : List (κ × α)) :
    m.setAll (entries ++ later) = (m.setAll entries).setAll later :=
  List.foldl_append

/-- A later entry of the same key is what stays. -/
theorem set_set (m : OrderedMap κ α) (key : κ) (value v : α) :
    (m.set key value).set key v = m.set key v := by
  apply OrderedMap.ext
  obtain ⟨entries, hnodup⟩ := m
  simp only [set]
  clear hnodup
  induction entries with
  | nil => simp [setEntry]
  | cons entry entries ih =>
    by_cases heq : entry.1 = key
    · simp [setEntry, heq]
    · simp [setEntry, heq, ih]

/-- Where one key is there already, it does not matter which of two is written first. -/
theorem set_comm (hne : k ≠ key) (hmem : key ∈ m.keys) :
    (m.set k v).set key value = (m.set key value).set k v := by
  apply OrderedMap.ext
  obtain ⟨entries, hnodup⟩ := m
  simp only [set, keys] at hmem ⊢
  clear hnodup
  induction entries with
  | nil => simp at hmem
  | cons entry entries ih =>
    by_cases hkey : entry.1 = key
    · have hk : entry.1 ≠ k := fun h => hne (h.symm.trans hkey)
      simp [setEntry, hkey, hne.symm]
    · by_cases hk : entry.1 = k
      · simp [setEntry, hk, hne]
      · have hmem' : key ∈ entries.map Prod.fst :=
          (List.mem_cons.1 hmem).resolve_left fun h => hkey h.symm
        simp [setEntry, hk, hkey, ih hmem']

theorem setAll_set_comm (hnew : key ∉ entries.map Prod.fst) (hmem : key ∈ m.keys) :
    (m.setAll entries).set key value = (m.set key value).setAll entries := by
  induction entries generalizing m with
  | nil => rfl
  | cons entry entries ih =>
    rw [List.map_cons, List.mem_cons, not_or] at hnew
    rw [setAll_cons, setAll_cons, ih hnew.2 (mem_keys_set.2 (Or.inr hmem)),
      set_comm (fun h => hnew.1 h.symm) hmem]

theorem setAll_setEntry (h : (entries.map Prod.fst).Nodup) :
    m.setAll (setEntry key value entries) = (m.setAll entries).set key value := by
  induction entries generalizing m with
  | nil => rfl
  | cons entry entries ih =>
    obtain ⟨hnew, hrest⟩ := List.nodup_cons.1 h
    by_cases heq : entry.1 = key
    · subst heq
      rw [setEntry, if_pos rfl, setAll_cons, setAll_cons,
        setAll_set_comm hnew (mem_keys_set.2 (Or.inl rfl)), set_set]
    · rw [setEntry, if_neg heq, setAll_cons, setAll_cons, ih hrest]

/-- Overriding by a map and one more entry. -/
theorem override_set (m n : OrderedMap κ α) (key : κ) (value : α) :
    m.override (n.set key value) = (m.override n).set key value :=
  setAll_setEntry n.nodup

/-- Entries written over a map are those of a map that overrides it. -/
theorem override_setAll (m n : OrderedMap κ α) (entries : List (κ × α)) :
    m.override (n.setAll entries) = (m.override n).setAll entries := by
  induction entries generalizing n with
  | nil => rfl
  | cons entry entries ih =>
    rw [setAll_cons, setAll_cons, ih, override_set]

theorem override_empty (m : OrderedMap κ α) : m.override empty = m := rfl

theorem override_assoc (m n p : OrderedMap κ α) :
    (m.override n).override p = m.override (n.override p) :=
  (override_setAll m n p.entries).symm

theorem get_set : (m.set key value).get k = if key = k then some value else m.get k := by
  obtain ⟨entries, hnodup⟩ := m
  simp only [set, get]
  clear hnodup
  induction entries with
  | nil =>
    by_cases heq : key = k
    · simp [setEntry, heq]
    · simp [setEntry, heq]
  | cons entry entries ih =>
    unfold setEntry
    split_ifs with hentry heq heq
    · simp [heq]
    · simp [heq, hentry]
    · rw [if_pos heq] at ih
      have hk : ¬entry.1 = k := fun h => hentry (h.trans heq.symm)
      rw [List.find?_cons_of_neg (by simpa using hk), ih]
    · rw [if_neg heq] at ih
      by_cases hk : entry.1 = k
      · simp [hk]
      · rw [List.find?_cons_of_neg (by simpa using hk), ih, List.find?_cons_of_neg (by simpa using hk)]

theorem get_eq_none (h : k ∉ m.keys) : m.get k = none := by
  rw [get, Option.map_eq_none_iff, List.find?_eq_none]
  intro entry hentry heq
  exact h (List.mem_map.2 ⟨entry, hentry, of_decide_eq_true heq⟩)

/-- An entry is looked up in the later map first. -/
theorem get_override : (m.override n).get k = (n.get k).or (m.get k) := by
  obtain ⟨entries, hnodup⟩ := n
  rw [override]
  induction entries generalizing m with
  | nil => rfl
  | cons entry entries ih =>
    obtain ⟨hnew, hrest⟩ := List.nodup_cons.1 hnodup
    have hget : get ⟨entry :: entries, hnodup⟩ k =
        if entry.1 = k then some entry.2 else get ⟨entries, hrest⟩ k := by
      by_cases heq : entry.1 = k
      · simp [get, heq]
      · simp [get, heq]
    rw [setAll_cons, ih hrest, get_set, hget]
    split_ifs with heq
    · subst heq
      rw [get_eq_none (m := ⟨entries, hrest⟩) hnew]
      rfl
    · rfl

theorem setEntry_of_notMem (h : key ∉ entries.map Prod.fst) :
    setEntry key value entries = entries ++ [(key, value)] := by
  induction entries with
  | nil => rfl
  | cons entry entries ih =>
    rw [List.map_cons, List.mem_cons, not_or] at h
    rw [setEntry, if_neg fun heq => h.1 heq.symm, ih h.2]
    rfl

/-- Nothing is overridden in the empty map. -/
theorem empty_override (m : OrderedMap κ α) : empty.override m = m := by
  have hsetAll : ∀ (n : OrderedMap κ α) (entries : List (κ × α)),
      ((n.entries ++ entries).map Prod.fst).Nodup → (n.setAll entries).entries = n.entries ++ entries := by
    intro n entries
    induction entries generalizing n with
    | nil => exact fun _ => (List.append_nil _).symm
    | cons entry entries ih =>
      intro hnodup
      have hnew : entry.1 ∉ n.entries.map Prod.fst := by
        rw [List.map_append, List.map_cons] at hnodup
        exact fun hmem => (List.disjoint_of_nodup_append hnodup) hmem List.mem_cons_self
      have hset : (n.set entry.1 entry.2).entries = n.entries ++ [entry] := setEntry_of_notMem hnew
      have happend : n.entries ++ entry :: entries = (n.set entry.1 entry.2).entries ++ entries := by
        rw [hset, List.append_assoc]
        rfl
      rw [setAll_cons, happend, ih]
      rwa [← happend]
  exact OrderedMap.ext (hsetAll empty m.entries m.nodup)

theorem length_setEntry (key : κ) (value : α) (entries : List (κ × α)) :
    (setEntry key value entries).length =
      if key ∈ entries.map Prod.fst then entries.length else entries.length + 1 := by
  split_ifs with hmem
  · induction entries with
    | nil => simp at hmem
    | cons entry entries ih =>
      unfold setEntry
      split_ifs with heq
      · rfl
      · have hrest : key ∈ entries.map Prod.fst :=
          (List.mem_cons.1 hmem).resolve_left fun h => heq h.symm
        rw [List.length_cons, ih hrest, List.length_cons]
  · rw [setEntry_of_notMem hmem, List.length_append, List.length_singleton]

theorem length_setAll_le (m : OrderedMap κ α) (entries : List (κ × α)) :
    (m.setAll entries).entries.length ≤ m.entries.length + entries.length := by
  induction entries generalizing m with
  | nil => exact le_rfl
  | cons entry entries ih =>
    have hset : (m.set entry.1 entry.2).entries.length ≤ m.entries.length + 1 := by
      rw [set, length_setEntry]
      split_ifs <;> omega
    have hrest := ih (m.set entry.1 entry.2)
    rw [setAll_cons, List.length_cons]
    omega

/-- No key is written twice where every entry that is written adds one. -/
theorem entries_setAll_of_length {m : OrderedMap κ α}
    (h : (m.setAll entries).entries.length = m.entries.length + entries.length) :
    (m.setAll entries).entries = m.entries ++ entries := by
  induction entries generalizing m with
  | nil => exact (List.append_nil _).symm
  | cons entry entries ih =>
    have hle := length_setAll_le (m.set entry.1 entry.2) entries
    rw [setAll_cons, List.length_cons] at h
    have hnew : entry.1 ∉ m.entries.map Prod.fst := by
      intro hmem
      have hsame : (m.set entry.1 entry.2).entries.length = m.entries.length := by
        rw [set, length_setEntry, if_pos hmem]
      omega
    have hset : (m.set entry.1 entry.2).entries = m.entries ++ [entry] := setEntry_of_notMem hnew
    rw [setAll_cons, ih (by rw [h, hset, List.length_append, List.length_singleton]; omega), hset,
      List.append_assoc, List.singleton_append]

/-- A map is written by no more entries than it has only if these are its entries. -/
theorem setAll_eq_iff {m : OrderedMap κ α} (h : entries.length ≤ m.entries.length) :
    empty.setAll entries = m ↔ entries = m.entries := by
  refine ⟨fun heq => ?_, fun heq => by rw [heq]; exact empty_override m⟩
  have hlen := length_setAll_le empty entries
  have hentries : (empty.setAll entries).entries = empty.entries ++ entries := by
    refine entries_setAll_of_length (le_antisymm hlen ?_)
    rw [heq]
    exact (Nat.zero_add _).trans_le h
  rw [← heq, hentries]
  rfl

end OrderedMap
