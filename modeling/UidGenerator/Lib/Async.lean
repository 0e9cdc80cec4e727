import Mathlib.Logic.Function.Basic
import Mathlib.Tactic

/-! Asynchronous programs that share a connection. A program issues a command and waits
for the reply. The connection executes the commands of all programs one at a time, in
the order in which they were issued, and a program that has its reply goes on at any
time after that. -/

namespace Async

variable {σ κ ρ α β ι π τ : Type}

/-- Programs that await replies `ρ` to commands `κ`. -/
inductive Program (κ ρ α : Type) where
  | done (result : α)
  | await (command : κ) (next : ρ → Program κ ρ α)

namespace Program

def bind : Program κ ρ α → (α → Program κ ρ β) → Program κ ρ β
  | done result, f => f result
  | await command next, f => await command fun reply => (next reply).bind f

instance : Monad (Program κ ρ) where
  pure := done
  bind := bind

def send (command : κ) : Program κ ρ ρ := await command done

end Program

/-- How processes in states `π` behave: the command that each one waits for, none at the
end, and where it goes on with the reply. -/
structure Machine (κ ρ π : Type) where
  command : π → Option κ
  next : π → ρ → π

def Program.machine (κ ρ α : Type) : Machine κ ρ (Program κ ρ α) where
  command
    | done _ => none
    | await command _ => some command
  next
    | done result, _ => done result
    | await _ next, reply => next reply

/-- The processes with the replies that they have not gone on with, and the commands that
have been issued. -/
structure System (σ κ ρ π : Type) where
  server : σ
  queue : List (ℕ × κ) := []
  processes : ℕ → Option (π × Option ρ) := fun _ => none

inductive Event (ι κ ρ : Type) where
  | start (process : ℕ) (job : ι)
  | execute (process : ℕ) (command : κ) (reply : ρ)
  | resume (process : ℕ)

def System.proceed (M : Machine κ ρ π) (s : System σ κ ρ π) (process : ℕ) (state : π) :
    System σ κ ρ π :=
  { s with
    queue := s.queue ++ (M.command state).toList.map fun command => (process, command)
    processes := Function.update s.processes process (some (state, none)) }

def System.answer (s : System σ κ ρ π) (server : σ) (process : ℕ) (state : π) (reply : ρ) :
    System σ κ ρ π where
  server := server
  queue := s.queue.tail
  processes := Function.update s.processes process (some (state, some reply))

/-- The steps of processes that start at `init`, over a server with the steps `execute`. -/
inductive Step (M : Machine κ ρ π) (init : ι → π) (execute : σ → ℕ → κ → ρ → σ → Prop) :
    System σ κ ρ π → Event ι κ ρ → System σ κ ρ π → Prop
  | start {s : System σ κ ρ π} {process : ℕ} {job : ι} (new : s.processes process = none) :
      Step M init execute s (.start process job) (s.proceed M process (init job))
  | execute {s : System σ κ ρ π} {process : ℕ} {command : κ} {reply : ρ} {server : σ} {state : π}
      {last : Option ρ} (first : s.queue.head? = some (process, command))
      (waiting : s.processes process = some (state, last))
      (h : execute s.server process command reply server) :
      Step M init execute s (.execute process command reply) (s.answer server process state reply)
  | resume {s : System σ κ ρ π} {process : ℕ} {state : π} {reply : ρ}
      (replied : s.processes process = some (state, some reply)) :
      Step M init execute s (.resume process) (s.proceed M process (M.next state reply))

variable {M : Machine κ ρ π} {init : ι → π} {execute : σ → ℕ → κ → ρ → σ → Prop}
  {s s' : System σ κ ρ π} {e : Event ι κ ρ}

/-- The commands in the queue are those of different processes that wait for them. -/
structure Queued (M : Machine κ ρ π) (s : System σ κ ρ π) : Prop where
  nodup : (s.queue.map Prod.fst).Nodup
  waits : ∀ process command, (process, command) ∈ s.queue →
    ∃ state, s.processes process = some (state, none) ∧ M.command state = some command

theorem queued_empty (M : Machine κ ρ π) {server : σ} : Queued M { server := server } :=
  ⟨List.nodup_nil, by simp⟩

/-- A process that does not wait has no command in the queue. -/
theorem Queued.notMem (h : Queued M s) {process : ℕ}
    (hnot : ∀ state, s.processes process ≠ some (state, none)) :
    process ∉ s.queue.map Prod.fst := by
  intro hmem
  obtain ⟨⟨_, command⟩, hqueue, rfl⟩ := List.mem_map.1 hmem
  obtain ⟨state, hstate, -⟩ := h.waits _ command hqueue
  exact hnot state hstate

theorem Queued.proceed (h : Queued M s) {process : ℕ}
    (hnot : ∀ state, s.processes process ≠ some (state, none)) (state : π) :
    Queued M (s.proceed M process state) := by
  have hfresh := h.notMem hnot
  constructor
  · simp only [System.proceed, List.map_append, List.map_map]
    cases M.command state with
    | none => simpa using h.nodup
    | some command =>
      apply List.Nodup.append h.nodup (by simp)
      simpa using hfresh
  · intro i command hmem
    simp only [System.proceed, List.mem_append, List.mem_map, Option.mem_toList,
      Prod.mk.injEq] at hmem ⊢
    rcases hmem with hmem | ⟨_, hcommand, rfl, rfl⟩
    · have hne : i ≠ process := by
        rintro rfl
        exact hfresh (List.mem_map.2 ⟨_, hmem, rfl⟩)
      rw [Function.update_of_ne hne]
      exact h.waits i command hmem
    · exact ⟨state, Function.update_self _ _ _, hcommand⟩

/-- The first process in the queue waits for its command. -/
theorem Queued.first (h : Queued M s) {process : ℕ} {command : κ}
    (hfirst : s.queue.head? = some (process, command)) {state : π} {last : Option ρ}
    (hwaiting : s.processes process = some (state, last)) :
    last = none ∧ M.command state = some command := by
  obtain ⟨state', hstate, hcommand⟩ := h.waits process command (List.mem_of_mem_head? hfirst)
  rw [hwaiting, Option.some.injEq, Prod.mk.injEq] at hstate
  obtain ⟨rfl, rfl⟩ := hstate
  exact ⟨rfl, hcommand⟩

/-- Its answer leaves the others waiting. -/
theorem Queued.answer (h : Queued M s) {process : ℕ} {command : κ}
    (hfirst : s.queue.head? = some (process, command)) (server : σ) (state : π) (reply : ρ) :
    Queued M (s.answer server process state reply) := by
  obtain ⟨queue, hqueue⟩ : ∃ queue, s.queue = (process, command) :: queue :=
    ⟨_, List.eq_cons_of_mem_head? hfirst⟩
  have hnodup := h.nodup
  rw [hqueue, List.map_cons, List.nodup_cons] at hnodup
  constructor
  · simpa [System.answer, hqueue] using hnodup.2
  · intro i c hmem
    simp only [System.answer, hqueue, List.tail_cons] at hmem ⊢
    have hne : i ≠ process := by
      rintro rfl
      exact hnodup.1 (List.mem_map.2 ⟨_, hmem, rfl⟩)
    rw [Function.update_of_ne hne]
    exact h.waits i c (by rw [hqueue]; exact List.mem_cons_of_mem _ hmem)

theorem Queued.step (h : Queued M s) (hstep : Step M init execute s e s') : Queued M s' := by
  cases hstep with
  | start new => exact h.proceed (by simp [new]) _
  | execute first _ _ => exact h.answer first _ _ _
  | resume replied => exact h.proceed (by simp [replied]) _

/-- The states `τ` of the machine `M'` stand for states of `M`. -/
structure Simulates (M : Machine κ ρ π) (M' : Machine κ ρ τ) (f : τ → π) : Prop where
  command : ∀ t, M.command (f t) = M'.command t
  next : ∀ t reply, M.next (f t) reply = f (M'.next t reply)

def System.map (f : τ → π) (s : System σ κ ρ τ) : System σ κ ρ π where
  server := s.server
  queue := s.queue
  processes process := (s.processes process).map fun p => (f p.1, p.2)

variable {M' : Machine κ ρ τ} {init' : ι → τ} {f : τ → π} {t : System σ κ ρ τ}

theorem System.map_proceed (h : Simulates M M' f) (process : ℕ) (state : τ) :
    (t.proceed M' process state).map f = (t.map f).proceed M process (f state) := by
  simp only [System.map, System.proceed, h.command, System.mk.injEq, true_and]
  funext i
  by_cases hi : i = process
  · subst hi
    simp
  · simp [Function.update_of_ne hi]

theorem System.map_answer (server : σ) (process : ℕ) (state : τ) (reply : ρ) :
    (t.answer server process state reply).map f =
      (t.map f).answer server process (f state) reply := by
  simp only [System.map, System.answer, System.mk.injEq, true_and]
  funext i
  by_cases hi : i = process
  · subst hi
    simp
  · simp [Function.update_of_ne hi]

theorem System.map_eq_some {process : ℕ} {state : π} {last : Option ρ}
    (h : (t.map f).processes process = some (state, last)) :
    ∃ state', t.processes process = some (state', last) ∧ state = f state' := by
  obtain ⟨⟨state', last'⟩, hstate, heq⟩ := Option.map_eq_some_iff.1 h
  obtain ⟨rfl, rfl⟩ := Prod.mk.inj heq
  exact ⟨state', hstate, rfl⟩

/-- Every step of the processes is a step of what stands for them. -/
theorem Simulates.step (h : Simulates M M' f) (hinit : ∀ job, init job = f (init' job))
    (hstep : Step M init execute (t.map f) e s') :
    ∃ t', s' = t'.map f ∧ Step M' init' execute t e t' := by
  cases hstep with
  | @start process job new =>
    refine ⟨t.proceed M' process (init' job), ?_, .start (Option.map_eq_none_iff.1 new)⟩
    rw [System.map_proceed h, hinit]
  | execute first waiting hexecute =>
    obtain ⟨state', hstate, rfl⟩ := System.map_eq_some waiting
    exact ⟨_, (System.map_answer _ _ _ _).symm, .execute first hstate hexecute⟩
  | resume replied =>
    obtain ⟨state', hstate, rfl⟩ := System.map_eq_some replied
    refine ⟨_, ?_, .resume hstate⟩
    rw [System.map_proceed h, h.next]

/-- And the steps of what stands for the processes are theirs. -/
theorem Simulates.map_step (h : Simulates M M' f) (hinit : ∀ job, init job = f (init' job))
    {t' : System σ κ ρ τ} (hstep : Step M' init' execute t e t') :
    Step M init execute (t.map f) e (t'.map f) := by
  have hsome {process : ℕ} {state : τ} {last : Option ρ}
      (hstate : t.processes process = some (state, last)) :
      (t.map f).processes process = some (f state, last) := by
    simp only [System.map, hstate, Option.map_some]
  cases hstep with
  | start new =>
    rw [System.map_proceed h, ← hinit]
    exact .start (by simp only [System.map, new, Option.map_none])
  | execute first waiting hexecute =>
    rw [System.map_answer]
    exact .execute first (hsome waiting) hexecute
  | resume replied =>
    rw [System.map_proceed h, ← h.next]
    exact .resume (hsome replied)

theorem Simulates.trans {M : Machine κ ρ π} {M' : Machine κ ρ τ} {M'' : Machine κ ρ α} {f : τ → π}
    {f' : α → τ} (h : Simulates M M' f) (h' : Simulates M' M'' f') :
    Simulates M M'' (f ∘ f') where
  command a := (h.command (f' a)).trans (h'.command a)
  next a reply := (h.next (f' a) reply).trans (congrArg f (h'.next a reply))

namespace Program

def map (f : α → β) : Program κ ρ α → Program κ ρ β
  | done result => done (f result)
  | await command next => await command fun reply => (next reply).map f

theorem bind_done (f : α → β) (p : Program κ ρ α) : p.bind (fun result => done (f result)) = p.map f := by
  induction p with
  | done result => rfl
  | await command next ih =>
    simp only [bind, map, await.injEq, true_and]
    funext reply
    exact ih reply

theorem map_simulates (f : α → β) : Simulates (machine κ ρ β) (machine κ ρ α) (map f) where
  command p := by cases p <;> rfl
  next p reply := by cases p <;> rfl

end Program

end Async
