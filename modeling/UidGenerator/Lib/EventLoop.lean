import Mathlib.Logic.Function.Basic
import UidGenerator.Lib.Run

/-! Tasks on an event loop. A task executes commands at once and gives way only where it
yields; between two yields no other task runs. -/

namespace EventLoop

open Transition

variable {σ τ κ ρ α β ι : Type}

/-- Programs that execute commands `κ` with replies `ρ`. -/
inductive Task (κ ρ α : Type) where
  | done (result : α)
  | exec (command : κ) (next : ρ → Task κ ρ α)
  | yield (next : Task κ ρ α)

namespace Task

def bind : Task κ ρ α → (α → Task κ ρ β) → Task κ ρ β
  | done result, f => f result
  | exec command next, f => exec command fun reply => (next reply).bind f
  | yield next, f => yield (next.bind f)

instance : Monad (Task κ ρ) where
  pure := done
  bind := bind

def send (command : κ) : Task κ ρ ρ := exec command done

def pause : Task κ ρ Unit := yield (done ())

end Task

/-- A turn: the task runs until it yields or is done. -/
inductive Turn (execute : σ → κ → ρ → σ → Prop) : σ → Task κ ρ α → σ → Task κ ρ α → Prop
  | done {s : σ} {result : α} : Turn execute s (.done result) s (.done result)
  | yield {s : σ} {next : Task κ ρ α} : Turn execute s (.yield next) s (.yield next)
  | exec {s s₁ s₂ : σ} {command : κ} {reply : ρ} {next : ρ → Task κ ρ α} {rest : Task κ ρ α}
      (h : execute s command reply s₁) (turn : Turn execute s₁ (next reply) s₂ rest) :
      Turn execute s (.exec command next) s₂ rest

section
variable {execute : σ → κ → ρ → σ → Prop} {s s' : σ} {result : α} {command : κ}
  {next : ρ → Task κ ρ α} {task rest : Task κ ρ α}

theorem turn_done : Turn execute s (.done result) s' rest ↔ s' = s ∧ rest = .done result := by
  constructor
  · rintro ⟨⟩
    exact ⟨rfl, rfl⟩
  · rintro ⟨rfl, rfl⟩
    exact .done

theorem turn_yield : Turn execute s (.yield task) s' rest ↔ s' = s ∧ rest = .yield task := by
  constructor
  · rintro ⟨⟩
    exact ⟨rfl, rfl⟩
  · rintro ⟨rfl, rfl⟩
    exact .yield

theorem turn_exec : Turn execute s (.exec command next) s' rest ↔
    ∃ reply s₁, execute s command reply s₁ ∧ Turn execute s₁ (next reply) s' rest := by
  constructor
  · rintro ⟨⟩
    exact ⟨_, _, ‹_›, ‹_›⟩
  · rintro ⟨reply, s₁, h, turn⟩
    exact .exec h turn

/-- Where every command is answered, every task has a turn. -/
theorem exists_turn (answers : ∀ s command, ∃ reply s', execute s command reply s')
    (task : Task κ ρ α) (s : σ) : ∃ s' rest, Turn execute s task s' rest := by
  induction task generalizing s with
  | done result => exact ⟨s, _, .done⟩
  | yield next => exact ⟨s, _, .yield⟩
  | exec command next ih =>
    obtain ⟨reply, s₁, h⟩ := answers s command
    obtain ⟨s', rest, turn⟩ := ih reply s₁
    exact ⟨s', rest, .exec h turn⟩

/-- A turn on a server is one on what is seen of it. -/
theorem Turn.view {execute' : τ → κ → ρ → τ → Prop} {f : σ → τ}
    (hf : ∀ s command reply s', execute s command reply s' → execute' (f s) command reply (f s'))
    (h : Turn execute s task s' rest) : Turn execute' (f s) task (f s') rest := by
  induction h with
  | done => exact .done
  | yield => exact .yield
  | exec h _ ih => exact .exec (hf _ _ _ _ h) ih

end

structure Loop (σ κ ρ α : Type) where
  server : σ
  tasks : ℕ → Option (Task κ ρ α) := fun _ => none

def Loop.proceed (s : Loop σ κ ρ α) (server : σ) (task : ℕ) (rest : Task κ ρ α) : Loop σ κ ρ α where
  server := server
  tasks := Function.update s.tasks task (some rest)

@[simp] theorem Loop.proceed_self (s : Loop σ κ ρ α) (server : σ) (task : ℕ) (rest : Task κ ρ α) :
    (s.proceed server task rest).tasks task = some rest :=
  Function.update_self _ _ _

theorem Loop.proceed_of_ne (s : Loop σ κ ρ α) (server : σ) {task other : ℕ} (h : other ≠ task)
    (rest : Task κ ρ α) : (s.proceed server task rest).tasks other = s.tasks other :=
  Function.update_of_ne h _ _

inductive Event (ι : Type) where
  | start (task : ℕ) (job : ι)
  | resume (task : ℕ)

/-- The steps of tasks that start at `init`, over a server with the steps `execute`. -/
inductive Step (init : ι → Task κ ρ α) (execute : ℕ → σ → κ → ρ → σ → Prop) :
    Loop σ κ ρ α → Event ι → Loop σ κ ρ α → Prop
  | start {s : Loop σ κ ρ α} {task : ℕ} {job : ι} {server : σ} {rest : Task κ ρ α}
      (new : s.tasks task = none) (h : Turn (execute task) s.server (init job) server rest) :
      Step init execute s (.start task job) (s.proceed server task rest)
  | resume {s : Loop σ κ ρ α} {task : ℕ} {next : Task κ ρ α} {server : σ} {rest : Task κ ρ α}
      (yielded : s.tasks task = some (.yield next))
      (h : Turn (execute task) s.server next server rest) :
      Step init execute s (.resume task) (s.proceed server task rest)

section
variable {init : ι → Task κ ρ α} {execute : ℕ → σ → κ → ρ → σ → Prop} {s s' : Loop σ κ ρ α}
  {e : Event ι} {task : ℕ} {result : α}

/-- The task has its result, even if it still has to yield before it is done. -/
def Loop.HasResult (s : Loop σ κ ρ α) (task : ℕ) (result : α) : Prop :=
  s.tasks task = some (.yield (.done result)) ∨ s.tasks task = some (.done result)

theorem Loop.HasResult.eq_of_done {result' : α} (h : s.HasResult task result)
    (hdone : s.tasks task = some (.done result')) : result' = result := by
  rcases h with h | h
  · cases Option.some.inj (hdone.symm.trans h)
  · exact Task.done.inj (Option.some.inj (hdone.symm.trans h))

theorem Loop.HasResult.step (h : s.HasResult task result) (hs : Step init execute s e s') :
    s'.HasResult task result := by
  cases hs with
  | @start other job server rest new hturn =>
    have hne : task ≠ other := by
      rintro rfl
      rcases h with h | h <;> rw [new] at h <;> cases h
    rcases h with h | h
    · exact Or.inl ((s.proceed_of_ne server hne rest).trans h)
    · exact Or.inr ((s.proceed_of_ne server hne rest).trans h)
  | @resume other next server rest yielded hturn =>
    by_cases hother : task = other
    · subst hother
      rcases h with h | h
      · obtain rfl : next = .done result :=
          Task.yield.inj (Option.some.inj (yielded.symm.trans h))
        obtain ⟨rfl, rfl⟩ := turn_done.1 hturn
        exact Or.inr (s.proceed_self s.server task (.done result))
      · cases Option.some.inj (yielded.symm.trans h)
    · rcases h with h | h
      · exact Or.inl ((s.proceed_of_ne server hother rest).trans h)
      · exact Or.inr ((s.proceed_of_ne server hother rest).trans h)

/-- A task that has its result keeps it. -/
theorem Loop.HasResult.run {events : List (Event ι)} (h : s.HasResult task result)
    (hrun : Run (Step init execute) s events s') : s'.HasResult task result :=
  hrun.invariant (fun _ s' => s'.HasResult task result) h fun _ _ _ _ _ ih hs => ih.step hs

def Loop.view (f : σ → τ) (s : Loop σ κ ρ α) : Loop τ κ ρ α := ⟨f s.server, s.tasks⟩

variable {execute' : ℕ → τ → κ → ρ → τ → Prop} {f : σ → τ}

theorem Step.view (hf : ∀ task s command reply s', execute task s command reply s' →
      execute' task (f s) command reply (f s')) (h : Step init execute s e s') :
    Step init execute' (s.view f) e (s'.view f) := by
  cases h with
  | start new turn => exact .start new (turn.view (hf _))
  | resume yielded turn => exact .resume yielded (turn.view (hf _))

theorem run_view (hf : ∀ task s command reply s', execute task s command reply s' →
      execute' task (f s) command reply (f s')) {events : List (Event ι)}
    (h : Run (Step init execute) s events s') :
    Run (Step init execute') (s.view f) events (s'.view f) := by
  obtain ⟨_, rfl, hrun⟩ := h.simulate (R := fun s t => t = s.view f)
    (fun s e s' t ht hs => ⟨_, rfl, ht ▸ hs.view hf⟩) rfl
  exact hrun

end

end EventLoop
