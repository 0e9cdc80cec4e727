import Mathlib.Order.Bounds.Basic
import Mathlib.Tactic

/-! Items that come in whole batches. A store that wants some number of items asks for
one batch after another until it is given an item too many, and drops the rest of the
last batch: the next fill starts with a new batch. -/

namespace Batches

variable {α : Type*} {m n k : ℕ}

def items (f : ℕ → ℕ → α) (m k : ℕ) : List α :=
  (List.range k).flatMap fun i => (List.range m).map (f i)

theorem items_eq (f : ℕ → ℕ → α) (hm : 0 < m) (k : ℕ) :
    items f m k = (List.range (k * m)).map fun j => f (j / m) (j % m) := by
  induction k with
  | zero => simp [items]
  | succ k ih =>
    have hlast : ((List.range m).map fun j => f ((k * m + j) / m) ((k * m + j) % m)) =
        (List.range m).map (f k) := by
      apply List.map_congr_left
      intro j hj
      have hlt := List.mem_range.1 hj
      rw [Nat.mul_comm, Nat.mul_add_div hm, Nat.div_eq_of_lt hlt, Nat.mul_add_mod,
        Nat.mod_eq_of_lt hlt, Nat.add_zero]
    rw [items, List.range_succ, List.flatMap_append, List.flatMap_singleton, Nat.succ_mul,
      List.range_add, List.map_append, List.map_map, ← items, ih]
    exact congrArg _ hlast.symm

theorem length_items (f : ℕ → ℕ → α) (hm : 0 < m) (k : ℕ) : (items f m k).length = k * m := by
  rw [items_eq f hm, List.length_map, List.length_range]

theorem take_items (f : ℕ → ℕ → α) (hm : 0 < m) (hle : n ≤ k * m) :
    (items f m k).take n = (List.range n).map fun j => f (j / m) (j % m) := by
  rw [items_eq f hm, ← List.map_take, List.take_range, min_eq_left hle]

/-- How many batches are asked for: those with one item more than wanted. -/
theorem isLeast_batches (hm : 0 < m) (n : ℕ) : IsLeast {k | n < k * m} (n / m + 1) := by
  constructor
  · change n < (n / m + 1) * m
    rw [Nat.mul_comm]
    exact Nat.lt_mul_div_succ n hm
  · intro k hk
    exact Nat.succ_le_of_lt (Nat.div_lt_of_lt_mul (by rwa [Nat.mul_comm]))

/-- A store that is filled with `first` items, and from then on with `refill` items at a
time, from batches of `size` items. -/
structure Refills where
  size : ℕ
  first : ℕ
  refill : ℕ
  size_pos : 0 < size
  refill_pos : 0 < refill

namespace Refills

variable (R : Refills)

/-- The batches that the first fill and `k` refills have asked for. -/
def asked (k : ℕ) : ℕ := R.first / R.size + 1 + k * (R.refill / R.size + 1)

def batch (j : ℕ) : ℕ :=
  if j < R.first then j / R.size
  else R.asked ((j - R.first) / R.refill) + (j - R.first) % R.refill / R.size

def offset (j : ℕ) : ℕ :=
  if j < R.first then j % R.size else (j - R.first) % R.refill % R.size

/-- The refills that `taken` takes have made: one for every `refill` takes before the last. -/
def made (taken : ℕ) : ℕ := (taken - 1) / R.refill

def stream (f : ℕ → ℕ → α) (k : ℕ) : List α :=
  (List.range (R.first + k * R.refill)).map fun j => f (R.batch j) (R.offset j)

theorem length_stream (f : ℕ → ℕ → α) (k : ℕ) :
    (R.stream f k).length = R.first + k * R.refill := by
  rw [stream, List.length_map, List.length_range]

theorem asked_succ (k : ℕ) : R.asked (k + 1) = R.asked k + (R.refill / R.size + 1) := by
  rw [asked, asked, Nat.succ_mul]
  omega

theorem made_mul_le (taken : ℕ) : R.made taken * R.refill ≤ taken - 1 :=
  Nat.div_mul_le_self _ _

/-- The next take makes a refill, or the items of the last one are not all taken. -/
theorem made_succ_cases (taken : ℕ) :
    taken = R.made taken * R.refill + R.refill ∧ R.made (taken + 1) = R.made taken + 1 ∨
      taken < R.made taken * R.refill + R.refill ∧ R.made (taken + 1) = R.made taken := by
  have hle := R.made_mul_le taken
  have hlt := Nat.lt_mul_div_succ (taken - 1) R.refill_pos
  rw [Nat.mul_comm, Nat.succ_mul] at hlt
  change taken - 1 < R.made taken * R.refill + R.refill at hlt
  have hpos := R.refill_pos
  rcases Nat.lt_or_ge taken (R.made taken * R.refill + R.refill) with hfew | hall
  · refine Or.inr ⟨hfew, Nat.div_eq_of_lt_le (by omega) ?_⟩
    rw [Nat.succ_mul]
    omega
  · have heq : taken = R.made taken * R.refill + R.refill := by omega
    refine Or.inl ⟨heq, Nat.div_eq_of_eq_mul_left hpos ?_⟩
    rw [Nat.succ_mul]
    exact heq

/-- The first fill takes batches from the start. -/
theorem stream_zero (f : ℕ → ℕ → α) :
    R.stream f 0 = (items f R.size (R.first / R.size + 1)).take R.first := by
  rw [take_items f R.size_pos (isLeast_batches R.size_pos R.first).1.le, stream, Nat.zero_mul,
    Nat.add_zero]
  apply List.map_congr_left
  intro j hj
  have hlt := List.mem_range.1 hj
  rw [batch, offset, if_pos hlt, if_pos hlt]

/-- A refill goes on with the batches after those that have been asked for. -/
theorem stream_succ (f : ℕ → ℕ → α) (k : ℕ) :
    R.stream f (k + 1) = R.stream f k ++
      (items (fun i => f (R.asked k + i)) R.size (R.refill / R.size + 1)).take R.refill := by
  rw [take_items _ R.size_pos (isLeast_batches R.size_pos R.refill).1.le, stream, Nat.succ_mul,
    ← Nat.add_assoc, List.range_add, List.map_append, List.map_map, ← stream]
  congr 1
  apply List.map_congr_left
  intro o ho
  have hlt := List.mem_range.1 ho
  have hge : ¬R.first + k * R.refill + o < R.first := by omega
  have hrest : R.first + k * R.refill + o - R.first = o + R.refill * k := by
    rw [Nat.mul_comm]
    omega
  rw [Function.comp_apply, batch, offset, if_neg hge, if_neg hge, hrest,
    Nat.add_mul_div_left o k R.refill_pos, Nat.add_mul_mod_self_left, Nat.div_eq_of_lt hlt,
    Nat.mod_eq_of_lt hlt, Nat.zero_add]

end Refills

end Batches
