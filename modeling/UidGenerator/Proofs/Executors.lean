import UidGenerator.Proofs.Long
import UidGenerator.Spec.Executors

/-! Every thread that a factory makes has a name of its own, and a pool goes through its
workers in turn; so tasks run under one name exactly if they are of the same pool and their
places in it agree modulo its size. -/

namespace UID

open OrderedMap Transition

/-- The last hyphen ends the prefix. -/
theorem threadName_inj {pre₁ pre₂ : String} {m n : ℕ}
    (h : pre₁ ++ "-" ++ toString m = pre₂ ++ "-" ++ toString n) : pre₁ = pre₂ ∧ m = n := by
  have hdigits (k : ℕ) : ∀ c ∈ (Nat.repr k).toList.reverse, decide (c ≠ '-') = true := by
    intro c hc
    rw [List.mem_reverse, Nat.toList_repr] at hc
    refine decide_eq_true ?_
    rintro rfl
    exact absurd (Nat.isDigit_of_mem_toDigits (by decide) (by decide) hc) (by decide)
  have hnumber (k : ℕ) (rest : List Char) :
      ((Nat.repr k).toList.reverse ++ '-' :: rest).takeWhile (· ≠ '-') = (Nat.repr k).toList.reverse := by
    rw [List.takeWhile_append_of_pos (hdigits k), List.takeWhile_cons_of_neg (by decide), List.append_nil]
  have hlist : (Nat.repr m).toList.reverse ++ '-' :: pre₁.toList.reverse =
      (Nat.repr n).toList.reverse ++ '-' :: pre₂.toList.reverse := by
    have hreverse := congrArg (List.reverse ∘ String.toList) h
    simp only [Function.comp_apply, String.toList_append, List.reverse_append] at hreverse
    exact hreverse
  have hrepr := congrArg (List.takeWhile (· ≠ '-')) hlist
  rw [hnumber, hnumber, List.reverse_inj, Nat.toList_repr, Nat.toList_repr] at hrepr
  obtain rfl : m = n := by
    rw [← @Nat.ofDigitChars_ten_toDigits m, hrepr, Nat.ofDigitChars_ten_toDigits]
  have hprefix := (List.cons_inj_right '-').1 (List.append_cancel_left hlist)
  exact ⟨String.toList_inj.1 (List.reverse_inj.1 hprefix), rfl⟩

namespace NamingThreadFactory

variable {f f' : NamingThreadFactory} {invoker name pre : String} {thread : Thread}

def count (f : NamingThreadFactory) (pre : String) : ℤ := (f.sequences.get pre).getD 0

def HasGiven (f : NamingThreadFactory) (name : String) : Prop :=
  ∃ (pre : String) (sequence : ℕ), 0 < sequence ∧ sequence ≤ f.count pre ∧
    name = pre ++ "-" ++ toString sequence

def CountsUpTo (f : NamingThreadFactory) (bound : ℕ) : Prop :=
  ∀ pre, 0 ≤ f.count pre ∧ f.count pre ≤ bound

theorem HasGiven.mono (h : f.HasGiven name) (hle : ∀ pre, f.count pre ≤ f'.count pre) :
    f'.HasGiven name := by
  obtain ⟨pre, sequence, hpos, hcount, rfl⟩ := h
  exact ⟨pre, sequence, hpos, hcount.trans (hle pre), rfl⟩

/-- The counter of one prefix goes up, and the name carries its new value. -/
theorem newThread_count {bound : ℕ} (hcounts : f.CountsUpTo bound) (hbound : bound + 1 < 2 ^ 63)
    (h : f.newThread invoker = (thread, f')) :
    (∀ pre, f'.count pre = f.count pre + if f.threadPrefix invoker = pre then 1 else 0) ∧
      thread.name = f.threadPrefix invoker ++ "-" ++ toString (f.count (f.threadPrefix invoker) + 1) := by
  obtain ⟨h0, hle⟩ := hcounts (f.threadPrefix invoker)
  have hlong : toLong (f.count (f.threadPrefix invoker) + 1) = f.count (f.threadPrefix invoker) + 1 :=
    toLong_eq_self ⟨by omega, by omega⟩
  obtain ⟨rfl, rfl⟩ := Prod.mk.inj h
  refine ⟨fun pre => ?_, ?_⟩
  · rw [count, getSequence]
    simp only
    rw [get_set]
    split_ifs with heq
    · rw [← heq]
      exact hlong
    · exact (add_zero _).symm
  · exact congrArg (fun n => f.threadPrefix invoker ++ "-" ++ toString n) hlong

/-- The name is new, and the factory will not give it again. -/
theorem newThread_name {bound : ℕ} (hcounts : f.CountsUpTo bound) (hbound : bound + 1 < 2 ^ 63)
    (h : f.newThread invoker = (thread, f')) :
    ¬f.HasGiven thread.name ∧ f'.HasGiven thread.name ∧ f'.CountsUpTo (bound + 1) ∧
      ∀ name, f.HasGiven name → f'.HasGiven name := by
  obtain ⟨hcount, hname⟩ := newThread_count hcounts hbound h
  obtain ⟨n, hn⟩ := Int.eq_ofNat_of_zero_le (hcounts (f.threadPrefix invoker)).1
  have hname' : thread.name = f.threadPrefix invoker ++ "-" ++ toString (n + 1) := by
    rw [hname, hn]
    rfl
  refine ⟨?_, ⟨f.threadPrefix invoker, n + 1, n.succ_pos, ?_, hname'⟩, fun pre => ?_,
    fun name hgiven => hgiven.mono fun pre => ?_⟩
  · rintro ⟨pre, sequence, hpos, hle, heq⟩
    obtain ⟨rfl, rfl⟩ := threadName_inj (hname'.symm.trans heq)
    omega
  · rw [hcount, if_pos rfl, hn]
    rfl
  · obtain ⟨h0, hle⟩ := hcounts pre
    rw [hcount]
    split_ifs <;> omega
  · rw [hcount]
    split_ifs <;> omega

end NamingThreadFactory

/-- The turn that a pool has come to with its tasks. -/
structure ExecutorService.Rotates (e : ExecutorService) (tasks : List Thread) : Prop where
  length : e.workers.length = min tasks.length e.poolSize
  filling : tasks.length < e.poolSize → e.nextWorker = 0
  next : 0 < e.poolSize → e.poolSize ≤ tasks.length → e.nextWorker = tasks.length % e.poolSize
  turn : ∀ (i : ℕ) (thread : Thread), tasks[i]? = some thread →
    e.workers[i % e.poolSize]? = some thread

namespace ExecutorService

variable {e e' : ExecutorService} {f f' : NamingThreadFactory} {invoker : String}
  {tasks : List Thread} {worker : Option Thread}

inductive NextCases (e : ExecutorService) (f : NamingThreadFactory) (invoker : String) :
    Option Thread → ExecutorService → NamingThreadFactory → Prop
  | made (thread : Thread) (f' : NamingThreadFactory) (room : e.workers.length < e.poolSize)
      (h : f.newThread invoker = (thread, f')) :
      NextCases e f invoker (some thread) { e with workers := e.workers ++ [thread] } f'
  | reused (full : e.poolSize ≤ e.workers.length) :
      NextCases e f invoker e.workers[e.nextWorker % e.poolSize]?
        { e with nextWorker := (e.nextWorker + 1) % e.poolSize } f

theorem nextThread_cases (h : e.nextThread f invoker = (worker, e', f')) :
    NextCases e f invoker worker e' f' := by
  unfold nextThread at h
  split_ifs at h with hroom
  · simp only [Prod.mk.injEq] at h
    obtain ⟨rfl, rfl, rfl⟩ := h
    exact .made _ _ hroom rfl
  · simp only [Prod.mk.injEq] at h
    obtain ⟨rfl, rfl, rfl⟩ := h
    exact .reused (not_lt.1 hroom)

theorem Rotates.next_task (h : e.Rotates tasks) (hcases : NextCases e f invoker worker e' f') :
    e'.Rotates (tasks ++ worker.toList) ∧ e'.poolSize = e.poolSize := by
  have hlength := h.length
  have hsucc (thread : Thread) : (tasks ++ (some thread).toList).length = tasks.length + 1 :=
    List.length_append
  cases hcases with
  | made thread _ hroom _ =>
    have htasks : e.workers.length = tasks.length := by omega
    refine ⟨⟨?_, fun hfill => h.filling ?_, fun hpos hfull => ?_, fun i t ht => ?_⟩, rfl⟩
    · rw [hsucc, List.length_append, List.length_singleton]
      simp only
      omega
    · rw [hsucc] at hfill
      simp only at hfill
      omega
    · rw [hsucc] at hfull ⊢
      simp only at hfull ⊢
      have hsize : tasks.length + 1 = e.poolSize := by omega
      rw [h.filling (by omega), hsize, Nat.mod_self]
    · have hi : i < e.poolSize := by
        have hlt := (List.getElem?_eq_some_iff.1 ht).1
        rw [hsucc] at hlt
        omega
      simp only [Option.toList_some] at ht ⊢
      rcases Nat.lt_or_ge i tasks.length with hold | hnew
      · rw [List.getElem?_append_left hold] at ht
        rw [List.getElem?_append_left (by rw [Nat.mod_eq_of_lt hi]; omega)]
        exact h.turn i t ht
      · rw [Nat.mod_eq_of_lt hi]
        rw [List.getElem?_append_right hnew] at ht
        rwa [List.getElem?_append_right (by omega), htasks]
  | reused hfull =>
    rcases Nat.eq_zero_or_pos e.poolSize with hzero | hpos
    · have hnone : e.workers = [] := List.eq_nil_of_length_eq_zero (by omega)
      have hnil : tasks ++ (e.workers[e.nextWorker % e.poolSize]?).toList = tasks := by
        rw [hnone, List.getElem?_nil, Option.toList_none, List.append_nil]
      rw [hnil]
      exact ⟨⟨hlength, fun hfill => absurd hfill (by simp only; omega), fun hpos => absurd hpos (by
        simp only; omega), h.turn⟩, rfl⟩
    · have hnext := h.next hpos (by omega)
      have hmod : tasks.length % e.poolSize < e.poolSize := Nat.mod_lt _ hpos
      obtain ⟨thread, hthread⟩ : ∃ thread, e.workers[tasks.length % e.poolSize]? = some thread :=
        ⟨_, List.getElem?_eq_getElem (by omega)⟩
      have hworker : e.workers[e.nextWorker % e.poolSize]? = some thread := by
        rw [hnext, Nat.mod_mod, hthread]
      refine ⟨⟨?_, fun hfill => ?_, fun _ _ => ?_, fun i t ht => ?_⟩, rfl⟩
      · rw [hworker, hsucc]
        simp only
        omega
      · rw [hworker, hsucc] at hfill
        simp only at hfill
        omega
      · rw [hworker, hsucc, hnext]
        exact Nat.mod_add_mod _ _ _
      · rcases Nat.lt_or_ge i tasks.length with hold | hnew
        · rw [List.getElem?_append_left hold] at ht
          exact h.turn i t ht
        · rw [hworker, List.getElem?_append_right hnew, Option.toList_some,
            List.getElem?_singleton] at ht
          split_ifs at ht with hi
          obtain rfl : i = tasks.length := by omega
          rw [← ht, hthread]

/-- A pool that is shut down refuses the task. -/
theorem submit_cases {outcome : Except Throwable (Option Thread)}
    (h : e.submit f invoker = (outcome, e', f')) :
    (outcome = .error taskRejected ∧ e' = e ∧ f' = f) ∨
      ∃ worker, outcome = .ok worker ∧ NextCases e f invoker worker e' f' := by
  unfold submit at h
  split_ifs at h
  · simp only [Prod.mk.injEq] at h
    obtain ⟨rfl, rfl, rfl⟩ := h
    exact Or.inl ⟨rfl, rfl, rfl⟩
  · obtain ⟨rfl, hnext⟩ := Prod.mk.inj h
    exact Or.inr ⟨_, rfl, nextThread_cases (Prod.ext rfl hnext)⟩

end ExecutorService

/-- The threads that one user of the factory had made: a pool, or any other. -/
def threadsOf (user : Option ℕ) (made : List (Option ℕ × Thread)) : List Thread :=
  made.filterMap fun x => if x.1 = user then some x.2 else none

theorem mem_threadsOf {user : Option ℕ} {made : List (Option ℕ × Thread)} {thread : Thread} :
    thread ∈ threadsOf user made ↔ (user, thread) ∈ made := by
  rw [threadsOf, List.mem_filterMap]
  constructor
  · rintro ⟨⟨user', thread'⟩, hmem, heq⟩
    split_ifs at heq with huser
    · obtain rfl := huser
      obtain rfl := Option.some.inj heq
      exact hmem
  · exact fun hmem => ⟨_, hmem, if_pos rfl⟩

theorem threadsOf_snoc (user other : Option ℕ) (made : List (Option ℕ × Thread)) (thread : Thread) :
    threadsOf user (made ++ [(other, thread)]) =
      threadsOf user made ++ if other = user then [thread] else [] := by
  rw [threadsOf, filterMap_snoc]
  split_ifs <;> rfl

theorem names_threadsOf (user : Option ℕ) (made : List (Option ℕ × Thread)) :
    ((threadsOf user made).map Thread.name).Sublist (made.map (·.2.name)) := by
  induction made with
  | nil => exact List.Sublist.slnil
  | cons x made ih =>
    by_cases hx : x.1 = user
    · rw [threadsOf, List.filterMap_cons, if_pos hx]
      exact ih.cons_cons _
    · rw [threadsOf, List.filterMap_cons, if_neg hx]
      exact ih.cons _

/-- All threads that the factory has made have different names. -/
structure NamingThreadFactory.Made (f : NamingThreadFactory) (bound : ℕ)
    (made : List (Option ℕ × Thread)) : Prop where
  counts : f.CountsUpTo bound
  given : ∀ x ∈ made, f.HasGiven x.2.name
  nodup : (made.map (·.2.name)).Nodup

namespace NamingThreadFactory.Made

variable {f f' : NamingThreadFactory} {bound : ℕ} {made : List (Option ℕ × Thread)}

theorem succ (h : f.Made bound made) : f.Made (bound + 1) made :=
  { h with counts := fun pre => ⟨(h.counts pre).1, by have := (h.counts pre).2; omega⟩ }

theorem newThread (h : f.Made bound made) (hbound : bound + 1 < 2 ^ 63) {invoker : String}
    {thread : Thread} (hnew : f.newThread invoker = (thread, f')) (user : Option ℕ) :
    f'.Made (bound + 1) (made ++ [(user, thread)]) := by
  obtain ⟨hfresh, hgiven, hcounts, hkeeps⟩ := newThread_name h.counts hbound hnew
  refine ⟨hcounts, fun x hx => ?_, ?_⟩
  · rcases List.mem_append.1 hx with hx | hx
    · exact hkeeps _ (h.given x hx)
    · rw [List.mem_singleton.1 hx]
      exact hgiven
  · rw [List.map_append, List.map_singleton, List.nodup_append]
    refine ⟨h.nodup, List.nodup_singleton _, fun name hname _ hlast heq => ?_⟩
    obtain ⟨x, hx, rfl⟩ := List.mem_map.1 hname
    rw [List.mem_singleton.1 hlast] at heq
    exact hfresh (heq ▸ h.given x hx)

end NamingThreadFactory.Made

structure Pools.Staffed (poolSize : ℕ → ℕ) (events : List PoolEvent) (s : Pools)
    (made : List (Option ℕ × Thread)) : Prop where
  factory : s.factory.Made events.length made
  workers : ∀ pool, (s.pools pool).workers = threadsOf (some pool) made
  others : otherThreads events = threadsOf none made
  poolSize : ∀ pool, (s.pools pool).poolSize = poolSize pool
  rotates : ∀ pool, (s.pools pool).Rotates (workersOf pool events)

section
variable {poolSize : ℕ → ℕ} {events : List PoolEvent} {s s' : Pools} {event : PoolEvent}
  {made : List (Option ℕ × Thread)}

theorem workersOf_snoc (pool : ℕ) (events : List PoolEvent) (event : PoolEvent) :
    workersOf pool (events ++ [event]) = workersOf pool events ++ (event.workerOf pool).toList :=
  filterMap_snoc _ _ _

theorem otherThreads_snoc (events : List PoolEvent) (event : PoolEvent) :
    otherThreads (events ++ [event]) = otherThreads events ++ event.thread.toList :=
  filterMap_snoc _ _ _

/-- An event that runs no task and makes no thread. -/
theorem Pools.Staffed.idle (h : s.Staffed poolSize events made)
    (hworkers : ∀ pool, event.workerOf pool = none) (hthread : event.thread = none)
    (hsequences : s'.factory.sequences = s.factory.sequences)
    (hpools : ∀ pool, ∃ shutdown, s'.pools pool = { s.pools pool with shutdown }) :
    s'.Staffed poolSize (events ++ [event]) made := by
  have hcount (pre : String) : s'.factory.count pre = s.factory.count pre := by
    rw [NamingThreadFactory.count, hsequences]
    rfl
  refine ⟨⟨fun pre => ?_, fun x hx => ?_, h.factory.nodup⟩, fun pool => ?_, ?_, fun pool => ?_,
    fun pool => ?_⟩
  · rw [hcount, List.length_append]
    exact h.factory.succ.counts pre
  · exact (h.factory.given x hx).mono fun pre => (hcount pre).ge
  · obtain ⟨shutdown, heq⟩ := hpools pool
    rw [heq]
    exact h.workers pool
  · rw [otherThreads_snoc, hthread, Option.toList_none, List.append_nil]
    exact h.others
  · obtain ⟨shutdown, heq⟩ := hpools pool
    rw [heq]
    exact h.poolSize pool
  · obtain ⟨shutdown, heq⟩ := hpools pool
    rw [workersOf_snoc, hworkers, Option.toList_none, List.append_nil, heq]
    have hrotates := h.rotates pool
    exact ⟨hrotates.length, hrotates.filling, hrotates.next, hrotates.turn⟩

/-- A task that the pool does not refuse. -/
theorem Pools.Staffed.task (h : s.Staffed poolSize events made) (hbound : events.length + 1 < 2 ^ 63)
    {pool : ℕ} {invoker : String} {worker : Option Thread} {e : ExecutorService}
    {f : NamingThreadFactory} (hcases : (s.pools pool).NextCases s.factory invoker worker e f) :
    ∃ made', ({ s with factory := f }.setPool pool e).Staffed poolSize
      (events ++ [PoolEvent.submit pool invoker (.ok worker)]) made' := by
  obtain ⟨hrotates, hsize⟩ := (h.rotates pool).next_task hcases
  have hpool : ({ s with factory := f }.setPool pool e).pools pool = e := Function.update_self _ _ _
  have hother {other : ℕ} (hne : other ≠ pool) :
      ({ s with factory := f }.setPool pool e).pools other = s.pools other :=
    Function.update_of_ne hne _ _
  have hworker (p : ℕ) : (PoolEvent.submit pool invoker (.ok worker)).workerOf p =
      if pool = p then worker else none := rfl
  have hothers : otherThreads (events ++ [PoolEvent.submit pool invoker (.ok worker)]) =
      otherThreads events := by
    rw [otherThreads_snoc]
    exact List.append_nil _
  have hsizes (p : ℕ) : (({ s with factory := f }.setPool pool e).pools p).poolSize = poolSize p := by
    by_cases hp : p = pool
    · rw [hp, hpool, hsize]
      exact h.poolSize pool
    · rw [hother hp]
      exact h.poolSize p
  have hturns (p : ℕ) : (({ s with factory := f }.setPool pool e).pools p).Rotates
      (workersOf p (events ++ [PoolEvent.submit pool invoker (.ok worker)])) := by
    rw [workersOf_snoc, hworker]
    by_cases hp : p = pool
    · rw [hp, hpool, if_pos rfl]
      exact hrotates
    · rw [hother hp, if_neg (Ne.symm hp), Option.toList_none, List.append_nil]
      exact h.rotates p
  cases hcases with
  | made thread _ hroom hnew =>
    refine ⟨made ++ [(some pool, thread)], ?_, fun p => ?_, ?_, hsizes, hturns⟩
    · rw [List.length_append]
      exact h.factory.newThread hbound hnew (some pool)
    · rw [threadsOf_snoc]
      by_cases hp : p = pool
      · rw [hp, hpool, if_pos rfl, ← h.workers pool]
      · rw [hother hp, if_neg fun heq => hp (Option.some.inj heq).symm, List.append_nil]
        exact h.workers p
    · rw [hothers, threadsOf_snoc, if_neg nofun, List.append_nil]
      exact h.others
  | reused hfull =>
    refine ⟨made, ?_, fun p => ?_, hothers.trans h.others, hsizes, hturns⟩
    · rw [List.length_append]
      exact h.factory.succ
    · by_cases hp : p = pool
      · rw [hp, hpool]
        exact h.workers pool
      · rw [hother hp]
        exact h.workers p

theorem Pools.Staffed.step (h : s.Staffed poolSize events made) (hbound : events.length + 1 < 2 ^ 63)
    (hstep : PoolStep s event s') : ∃ made', s'.Staffed poolSize (events ++ [event]) made' := by
  cases hstep with
  | @submit pool invoker outcome e f hsubmit =>
    rcases ExecutorService.submit_cases hsubmit with ⟨rfl, rfl, rfl⟩ | ⟨worker, rfl, hcases⟩
    · refine ⟨made, h.idle (fun _ => rfl) rfl rfl fun p => ⟨(s.pools p).shutdown, ?_⟩⟩
      rw [Pools.setPool, Function.update_eq_self]
    · exact h.task hbound hcases
  | @shutdownNow pool =>
    refine ⟨made, h.idle (fun _ => rfl) rfl rfl fun p => ?_⟩
    by_cases hp : p = pool
    · obtain rfl := hp
      exact ⟨true, Function.update_self _ _ _⟩
    · exact ⟨(s.pools p).shutdown, Function.update_of_ne hp _ _⟩
  | @newThread invoker thread f hnew =>
    refine ⟨made ++ [(none, thread)], ?_, fun p => ?_, ?_, h.poolSize, fun p => ?_⟩
    · rw [List.length_append]
      exact h.factory.newThread hbound hnew none
    · rw [threadsOf_snoc, if_neg nofun, List.append_nil]
      exact h.workers p
    · rw [otherThreads_snoc, threadsOf_snoc, if_pos rfl, h.others]
      rfl
    · rw [workersOf_snoc]
      exact (List.append_nil _).symm ▸ h.rotates p
  | setName | setDaemon =>
    exact ⟨made, h.idle (fun _ => rfl) rfl rfl fun p => ⟨(s.pools p).shutdown, rfl⟩⟩

theorem staffed_run {name : Option String} {daemon : Bool}
    (hrun : Run PoolStep (Pools.new { name, daemon } poolSize) events s)
    (hlength : events.length < 2 ^ 63) : ∃ made, s.Staffed poolSize events made := by
  induction hrun with
  | nil =>
    have hempty (pre : String) :
        (Pools.new { name, daemon } poolSize).factory.count pre = 0 := rfl
    refine ⟨[], ⟨fun pre => ?_, List.forall_mem_nil _, List.nodup_nil⟩, fun _ => rfl, rfl, fun _ => rfl,
      fun pool => ⟨(Nat.zero_min _).symm, fun _ => rfl, fun _ _ => (Nat.zero_mod _).symm, ?_⟩⟩
    · rw [hempty]
      exact ⟨le_rfl, le_rfl⟩
    · exact fun i thread hi => absurd hi nofun
  | snoc _ hstep ih =>
    rw [List.length_append, List.length_singleton] at hlength
    obtain ⟨made, hstaffed⟩ := ih (by omega)
    exact hstaffed.step hlength hstep

/-- Tasks run under one name exactly if they are of the same pool, and their places in it
agree modulo its size; no thread that is no worker has that name, nor that of another. -/
theorem workers_named {name : Option String} {daemon : Bool}
    (hrun : Run PoolStep (Pools.new { name, daemon } poolSize) events s)
    (hlength : events.length < 2 ^ 63) :
    (∀ pool₁ pool₂ i j worker₁ worker₂, (workersOf pool₁ events)[i]? = some worker₁ →
      (workersOf pool₂ events)[j]? = some worker₂ →
        (worker₁.name = worker₂.name ↔
          pool₁ = pool₂ ∧ i % poolSize pool₁ = j % poolSize pool₁)) ∧
      (∀ pool, ∀ worker ∈ workersOf pool events, ∀ other ∈ otherThreads events,
        worker.name ≠ other.name) ∧
      ((otherThreads events).map Thread.name).Nodup := by
  obtain ⟨made, h⟩ := staffed_run hrun hlength
  have hinj {x y : Option ℕ × Thread} (hx : x ∈ made) (hy : y ∈ made) (heq : x.2.name = y.2.name) :
      x = y :=
    List.inj_on_of_nodup_map h.factory.nodup hx hy heq
  have hturn {pool i : ℕ} {worker : Thread} (hworker : (workersOf pool events)[i]? = some worker) :
      (threadsOf (some pool) made)[i % poolSize pool]? = some worker := by
    rw [← h.workers pool, ← h.poolSize pool]
    exact (h.rotates pool).turn i worker hworker
  have hmade {pool i : ℕ} {worker : Thread} (hworker : (workersOf pool events)[i]? = some worker) :
      (some pool, worker) ∈ made :=
    mem_threadsOf.1 (List.mem_of_getElem? (hturn hworker))
  refine ⟨?_, ?_, ?_⟩
  · intro pool₁ pool₂ i j worker₁ worker₂ hworker₁ hworker₂
    constructor
    · intro heq
      obtain ⟨hpool, rfl⟩ := Prod.mk.inj (hinj (hmade hworker₁) (hmade hworker₂) heq)
      obtain rfl := Option.some.inj hpool
      refine ⟨rfl, ?_⟩
      have hnodup := (h.factory.nodup.sublist (names_threadsOf (some pool₁) made)).of_map
      have hi := hturn hworker₁
      exact (List.getElem?_inj (List.getElem?_eq_some_iff.1 hi).1 hnodup).1
        (hi.trans (hturn hworker₂).symm)
    · rintro ⟨rfl, hmod⟩
      have hsame := hturn hworker₁
      rw [hmod, hturn hworker₂] at hsame
      rw [Option.some.inj hsame]
  · intro pool worker hworker other hother heq
    obtain ⟨i, hi⟩ := List.mem_iff_getElem?.1 hworker
    rw [h.others, mem_threadsOf] at hother
    exact nomatch (Prod.mk.inj (hinj (hmade hi) hother heq)).1
  · rw [h.others]
    exact h.factory.nodup.sublist (names_threadsOf none made)

end

def paddingWorker (name : String) : Thread := { name, daemon := false }

def paddingTasks : List PoolEvent :=
  [.submit 0 "" (.ok (some (paddingWorker "RingBuffer-Padding-Worker-1"))),
    .newThread "" (paddingWorker "RingBuffer-Padding-Worker-2"),
    .submit 0 "" (.ok (some (paddingWorker "RingBuffer-Padding-Worker-3"))),
    .submit 0 "" (.ok (some (paddingWorker "RingBuffer-Padding-Worker-1")))]

theorem workers_named_paddingTasks :
    ∃ s, Run PoolStep (Pools.new { name := some "RingBuffer-Padding-Worker" } fun _ => 2)
        paddingTasks s ∧
      (workersOf 0 paddingTasks).map Thread.name = ["RingBuffer-Padding-Worker-1",
        "RingBuffer-Padding-Worker-3", "RingBuffer-Padding-Worker-1"] ∧
      "RingBuffer-Padding-Worker-1" ≠ "RingBuffer-Padding-Worker-3" ∧
      "RingBuffer-Padding-Worker-1" ≠ "RingBuffer-Padding-Worker-2" := by
  obtain ⟨s, hrun⟩ : ∃ s, Run PoolStep
      (Pools.new { name := some "RingBuffer-Padding-Worker" } fun _ => 2) paddingTasks s :=
    ⟨_, .cons (.submit rfl) (.cons (.newThread rfl) (.cons (.submit rfl) (.cons (.submit rfl) .nil)))⟩
  obtain ⟨hturns, hothers, -⟩ := workers_named hrun (by decide)
  refine ⟨s, hrun, rfl, fun heq => ?_, hothers 0 _ (.head _) _ (.head _)⟩
  have hturn := (hturns 0 0 0 1 _ _ rfl rfl).1 heq
  exact absurd hturn.2 (by decide)

end UID
