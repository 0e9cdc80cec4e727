import Mathlib.Tactic

/-! Runs of a labelled transition system: a finite list of events and the state
they lead to. Events are added at the end, so a claim about a run is an invariant
of the events seen so far and the state they reached. -/

namespace Transition

variable {σ ε : Type*} {step : σ → ε → σ → Prop} {s₀ : σ}

inductive Run (step : σ → ε → σ → Prop) (s₀ : σ) : List ε → σ → Prop
  | nil : Run step s₀ [] s₀
  | snoc {es : List ε} {s s' : σ} {e : ε} :
      Run step s₀ es s → step s e s' → Run step s₀ (es ++ [e]) s'

/-- An invariant of the history and the state holds after every run. -/
theorem Run.invariant (I : List ε → σ → Prop) (h0 : I [] s₀)
    (hstep : ∀ es s e s', Run step s₀ es s → I es s → step s e s' → I (es ++ [e]) s')
    {es : List ε} {s : σ} (h : Run step s₀ es s) : I es s := by
  induction h with
  | nil => exact h0
  | snoc hr hs ih => exact hstep _ _ _ _ hr ih hs

theorem run_nil {s : σ} : Run step s₀ [] s ↔ s = s₀ := by
  constructor
  · intro h
    generalize hes : ([] : List ε) = es at h
    cases h with
    | nil => rfl
    | snoc _ _ => simp at hes
  · rintro rfl
    exact Run.nil

theorem run_snoc {es : List ε} {e : ε} {s' : σ} :
    Run step s₀ (es ++ [e]) s' ↔ ∃ s, Run step s₀ es s ∧ step s e s' := by
  constructor
  · intro h
    generalize hes : es ++ [e] = all at h
    cases h with
    | nil => simp at hes
    | snoc hr hs =>
      obtain ⟨rfl, he⟩ := List.append_inj' hes rfl
      simp only [List.cons.injEq, and_true] at he
      subst he
      exact ⟨_, hr, hs⟩
  · rintro ⟨s, hr, hs⟩
    exact Run.snoc hr hs

/-- A run splits at every point of its history. -/
theorem run_append {es₁ es₂ : List ε} {s : σ} :
    Run step s₀ (es₁ ++ es₂) s ↔ ∃ s₁, Run step s₀ es₁ s₁ ∧ Run step s₁ es₂ s := by
  induction es₂ using List.reverseRecOn generalizing s with
  | nil => simp [run_nil]
  | append_singleton es₂ e ih =>
    rw [← List.append_assoc, run_snoc]
    simp only [ih, run_snoc]
    constructor
    · rintro ⟨s', ⟨s₁, h₁, h₂⟩, hs⟩
      exact ⟨s₁, h₁, s', h₂, hs⟩
    · rintro ⟨s₁, h₁, s', h₂, hs⟩
      exact ⟨s', ⟨s₁, h₁, h₂⟩, hs⟩

theorem run_singleton {e : ε} {s : σ} : Run step s₀ [e] s ↔ step s₀ e s := by
  rw [← List.nil_append [e], run_snoc]
  simp [run_nil]

theorem Run.cons {e : ε} {es : List ε} {s₁ s : σ} (he : step s₀ e s₁) (h : Run step s₁ es s) :
    Run step s₀ (e :: es) s := by
  rw [← List.singleton_append]
  exact run_append.2 ⟨s₁, run_singleton.2 he, h⟩

/-- Every event of a run is a step between two states of the run. -/
theorem Run.split {pre post : List ε} {e : ε} {s : σ} (h : Run step s₀ (pre ++ e :: post) s) :
    ∃ s₁ s₂, Run step s₀ pre s₁ ∧ step s₁ e s₂ ∧ Run step s₂ post s := by
  obtain ⟨s₁, hpre, hrest⟩ := run_append.1 h
  rw [← List.singleton_append] at hrest
  obtain ⟨s₂, he, hpost⟩ := run_append.1 hrest
  exact ⟨s₁, s₂, hpre, run_singleton.1 he, hpost⟩

/-- Deterministic steps lead a history to one state only. -/
theorem Run.functional (hdet : ∀ s e s₁ s₂, step s e s₁ → step s e s₂ → s₁ = s₂) {es : List ε}
    {s₁ s₂ : σ} (h₁ : Run step s₀ es s₁) (h₂ : Run step s₀ es s₂) : s₁ = s₂ := by
  induction h₁ generalizing s₂ with
  | nil => exact (run_nil.1 h₂).symm
  | snoc _ hs ih =>
    obtain ⟨s, hr, hs'⟩ := run_snoc.1 h₂
    rw [ih hr] at hs
    exact hdet _ _ _ _ hs hs'

/-- What is read off a history grows by what is read off its last event. -/
theorem filterMap_snoc {α β : Type*} (f : α → Option β) (xs : List α) (x : α) :
    (xs ++ [x]).filterMap f = xs.filterMap f ++ (f x).toList := by
  cases h : f x <;> simp [List.filterMap_append, h]

/-- The state that a computed outcome comes with. -/
theorem eq_some_of_map_fst {α β : Type*} {x : Option (α × β)} {a : α} (d : β)
    (h : x.map Prod.fst = some a) : x = some (a, (x.map Prod.snd).getD d) := by
  cases x with
  | none => cases h
  | some y => simpa using congrArg (fun a => (a, y.2)) (Option.some.inj h)

/-- Where every step is matched by a step between related states, so is every run. -/
theorem Run.simulate {τ : Type*} {step' : τ → ε → τ → Prop} {R : σ → τ → Prop}
    (hstep : ∀ s e s' t, R s t → step s e s' → ∃ t', R s' t' ∧ step' t e t') {t₀ : τ} (h0 : R s₀ t₀)
    {es : List ε} {s : σ} (h : Run step s₀ es s) : ∃ t, R s t ∧ Run step' t₀ es t := by
  induction h with
  | nil => exact ⟨t₀, h0, Run.nil⟩
  | snoc _ hs ih =>
    obtain ⟨mid, hmid, hrun⟩ := ih
    obtain ⟨t, ht, hs'⟩ := hstep _ _ _ _ hmid hs
    exact ⟨t, ht, hrun.snoc hs'⟩

/-- A run of what is embedded in another system is a run of its own. -/
theorem Run.of_embedded {τ ζ : Type*} {step' : τ → ζ → τ → Prop} {f : τ → σ} {k : ζ → ε}
    (hstep : ∀ t e s', step (f t) e s' → ∃ e' t', e = k e' ∧ s' = f t' ∧ step' t e' t') {t₀ : τ}
    {es : List ε} {s : σ} (h : Run step (f t₀) es s) :
    ∃ es' t, es = es'.map k ∧ s = f t ∧ Run step' t₀ es' t := by
  induction h with
  | nil => exact ⟨[], t₀, rfl, rfl, Run.nil⟩
  | snoc _ hs ih =>
    obtain ⟨es', t, rfl, rfl, hrun⟩ := ih
    obtain ⟨e', t', rfl, rfl, hs'⟩ := hstep _ _ _ hs
    exact ⟨es' ++ [e'], t', by rw [List.map_append, List.map_singleton], rfl, hrun.snoc hs'⟩

/-- What is done by several parties is all different if that of each party is, and no two
parties do the same. -/
theorem nodup_of_parties {ι α : Type*} [DecidableEq ι] {xs : List (ι × α)}
    (h : ∀ i, (xs.filterMap fun x => if x.1 = i then some x.2 else none).Nodup)
    (hne : ∀ x ∈ xs, ∀ y ∈ xs, x.1 ≠ y.1 → x.2 ≠ y.2) : (xs.map Prod.snd).Nodup := by
  induction xs with
  | nil => exact List.nodup_nil
  | cons x xs ih =>
    have hrest (i : ι) : (xs.filterMap fun x => if x.1 = i then some x.2 else none).Nodup :=
      List.Nodup.sublist ((List.sublist_cons_self x xs).filterMap _) (h i)
    rw [List.map_cons, List.nodup_cons]
    refine ⟨fun hmem => ?_, ih hrest fun y hy z hz => hne y (by simp [hy]) z (by simp [hz])⟩
    obtain ⟨y, hy, heq⟩ := List.mem_map.1 hmem
    by_cases hparty : x.1 = y.1
    · have hx := h x.1
      rw [List.filterMap_cons, if_pos rfl, List.nodup_cons] at hx
      refine hx.1 (List.mem_filterMap.2 ⟨y, hy, ?_⟩)
      rw [if_pos hparty.symm, heq]
    · exact hne x (by simp) y (by simp [hy]) hparty heq.symm

/-- The steps that lead to a state of `P`. -/
def Within (step : σ → ε → σ → Prop) (P : σ → Prop) (s : σ) (e : ε) (s' : σ) : Prop :=
  step s e s' ∧ P s'

theorem Run.last {P : σ → Prop} {es : List ε} {s : σ} (h : Run (Within step P) s₀ es s)
    (h0 : P s₀) : P s :=
  h.invariant (fun _ s => P s) h0 fun _ _ _ _ _ _ hs => hs.2

theorem Run.mono {step' : σ → ε → σ → Prop} (hle : ∀ s e s', step s e s' → step' s e s')
    {es : List ε} {s : σ} (h : Run step s₀ es s) : Run step' s₀ es s := by
  induction h with
  | nil => exact Run.nil
  | snoc _ hs ih => exact ih.snoc (hle _ _ _ hs)

end Transition
