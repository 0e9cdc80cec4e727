import Mathlib.Data.Finset.Card
import Mathlib.Order.Interval.Finset.Nat
import Mathlib.Tactic

/-! A queue kept in the cells of a table. Item `p` of the queue lives in the cell
`slot p` from the moment it is put until its read is finished. Reads take two
steps: `claim` assigns the oldest unclaimed item to a reader, and `finish` empties
the cell of a claimed item, in any order. -/

namespace RingQueue

variable {ι α : Type*}

/-- Items that are claimed but not read yet, and items that are not claimed yet. -/
def unread (produced claimed : ℕ) (pending : Finset ℕ) : Finset ℕ :=
  pending ∪ Finset.Ico claimed produced

theorem mem_unread {produced claimed p : ℕ} {pending : Finset ℕ} :
    p ∈ unread produced claimed pending ↔ p ∈ pending ∨ claimed ≤ p ∧ p < produced := by
  simp [unread]

/-- The cells hold exactly the unread items, each in its own slot. -/
structure Holds (slot : ℕ → ι) (cell : ι → Option α) (items : List α) (claimed : ℕ)
    (pending : Finset ℕ) : Prop where
  claimed_le : claimed ≤ items.length
  pending_lt : ∀ p ∈ pending, p < claimed
  stored : ∀ p ∈ unread items.length claimed pending, cell (slot p) = items[p]?
  separate : ∀ p ∈ unread items.length claimed pending,
    ∀ q ∈ unread items.length claimed pending, slot p = slot q → p = q
  free : ∀ i, (∀ p ∈ unread items.length claimed pending, slot p ≠ i) → cell i = none

variable {slot : ℕ → ι} {cell : ι → Option α} {items : List α} {claimed : ℕ} {pending : Finset ℕ}

theorem holds_empty (slot : ℕ → ι) : Holds slot (fun _ => none) ([] : List α) 0 ∅ where
  claimed_le := le_rfl
  pending_lt := by simp
  stored := by simp [unread]
  separate := by simp [unread]
  free := by simp

theorem Holds.lt_length (h : Holds slot cell items claimed pending) {p : ℕ}
    (hp : p ∈ unread items.length claimed pending) : p < items.length := by
  rcases mem_unread.1 hp with hp | ⟨-, hp⟩
  · exact (h.pending_lt p hp).trans_le h.claimed_le
  · exact hp

/-- A slot is occupied exactly when it is the slot of an unread item. -/
theorem Holds.cell_eq_none (h : Holds slot cell items claimed pending) (i : ι) :
    cell i = none ↔ ∀ p ∈ unread items.length claimed pending, slot p ≠ i := by
  constructor
  · rintro hnone p hp rfl
    rw [h.stored p hp, List.getElem?_eq_none_iff] at hnone
    exact absurd (h.lt_length hp) (by omega)
  · exact h.free i

/-- There are no more unread items than slots. -/
theorem Holds.card_unread_le (h : Holds slot cell items claimed pending) {slots : Finset ι}
    (hslots : ∀ p, slot p ∈ slots) : (unread items.length claimed pending).card ≤ slots.card :=
  Finset.card_le_card_of_injOn slot (fun p _ => hslots p)
    fun p hp q hq => h.separate p hp q hq

theorem Holds.card_unread (h : Holds slot cell items claimed pending) :
    (unread items.length claimed pending).card = pending.card + (items.length - claimed) := by
  rw [unread, Finset.card_union_of_disjoint, Nat.card_Ico]
  rw [Finset.disjoint_left]
  intro p hp hq
  have := h.pending_lt p hp
  have := (Finset.mem_Ico.1 hq).1
  omega

theorem Holds.claim (h : Holds slot cell items claimed pending) (hlt : claimed < items.length) :
    Holds slot cell items (claimed + 1) (insert claimed pending) := by
  have hsame : unread items.length (claimed + 1) (insert claimed pending) =
      unread items.length claimed pending := by
    ext p
    by_cases hp : p ∈ pending <;> simp [mem_unread, hp]
    omega
  refine ⟨hlt, ?_, ?_, ?_, ?_⟩
  · intro p hp
    rcases Finset.mem_insert.1 hp with rfl | hp
    · exact Nat.lt_succ_self p
    · exact (h.pending_lt p hp).trans (Nat.lt_succ_self claimed)
  all_goals rw [hsame]
  · exact h.stored
  · exact h.separate
  · exact h.free

variable [DecidableEq ι]

theorem Holds.put (h : Holds slot cell items claimed pending) (x : α)
    (hfree : cell (slot items.length) = none) :
    Holds slot (Function.update cell (slot items.length) (some x)) (items ++ [x]) claimed
      pending := by
  have hother := (h.cell_eq_none _).1 hfree
  have hmem {p : ℕ} (hp : p ∈ unread (items ++ [x]).length claimed pending) :
      p = items.length ∨ p ∈ unread items.length claimed pending := by
    rw [List.length_append, List.length_singleton] at hp
    rcases mem_unread.1 hp with hp | ⟨hlo, hhi⟩
    · exact Or.inr (mem_unread.2 (Or.inl hp))
    · rcases Nat.lt_succ_iff_lt_or_eq.1 hhi with hlt | heq
      · exact Or.inr (mem_unread.2 (Or.inr ⟨hlo, hlt⟩))
      · exact Or.inl heq
  have hself : items.length ∈ unread (items ++ [x]).length claimed pending :=
    mem_unread.2 (Or.inr ⟨h.claimed_le, by simp⟩)
  have hold {p : ℕ} (hp : p ∈ unread items.length claimed pending) :
      p ∈ unread (items ++ [x]).length claimed pending := by
    rcases mem_unread.1 hp with hp | ⟨hlo, hhi⟩
    · exact mem_unread.2 (Or.inl hp)
    · exact mem_unread.2 (Or.inr ⟨hlo, by simp; omega⟩)
  refine ⟨by simp; have := h.claimed_le; omega, h.pending_lt, ?_, ?_, ?_⟩
  · intro p hp
    rcases hmem hp with rfl | hp
    · simp
    · rw [Function.update_of_ne (hother p hp), h.stored p hp,
        List.getElem?_append_left (h.lt_length hp)]
  · intro p hp q hq heq
    rcases hmem hp with rfl | hp <;> rcases hmem hq with rfl | hq
    · rfl
    · exact absurd heq.symm (hother q hq)
    · exact absurd heq (hother p hp)
    · exact h.separate p hp q hq heq
  · intro i hi
    rw [Function.update_of_ne fun heq => hi _ hself heq.symm]
    exact h.free i fun p hp => hi p (hold hp)

theorem Holds.finish (h : Holds slot cell items claimed pending) {p : ℕ} (hp : p ∈ pending) :
    Holds slot (Function.update cell (slot p) none) items claimed (pending.erase p) := by
  have hpu : p ∈ unread items.length claimed pending := mem_unread.2 (Or.inl hp)
  have hlt := h.pending_lt p hp
  have hmem {q : ℕ} : q ∈ unread items.length claimed (pending.erase p) ↔
      q ≠ p ∧ q ∈ unread items.length claimed pending := by
    by_cases hq : q ∈ pending <;> simp [mem_unread, hq] <;> omega
  refine ⟨h.claimed_le, fun q hq => h.pending_lt q (Finset.mem_of_mem_erase hq), ?_, ?_, ?_⟩
  · intro q hq
    obtain ⟨hne, hqu⟩ := hmem.1 hq
    rw [Function.update_of_ne fun heq => hne (h.separate q hqu p hpu heq), h.stored q hqu]
  · intro q hq r hr
    exact h.separate q (hmem.1 hq).2 r (hmem.1 hr).2
  · intro i hi
    by_cases heq : i = slot p
    · rw [heq, Function.update_self]
    · rw [Function.update_of_ne heq]
      apply h.free i
      intro q hq
      by_cases hqp : q = p
      · rw [hqp]
        exact Ne.symm heq
      · exact hi q (hmem.2 ⟨hqp, hq⟩)

end RingQueue
