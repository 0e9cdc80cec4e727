import UidGenerator.Spec.DockerUtils

/-! Histories of `retrieveFromEnv`. A call that throws leaves `isDocker` as an earlier call
has set it, next to a host or a port that is blank. -/

namespace UID

open Transition

variable {d d' : DockerUtils} {call : RetrieveCall} {calls : List RetrieveCall}

namespace DockerUtils

def Found (d : DockerUtils) : Prop := isNotBlank d.dockerHost = true ∧ isNotBlank d.dockerPort = true

instance (d : DockerUtils) : Decidable d.Found := inferInstanceAs (Decidable (_ ∧ _))

/-- `isDocker` says whether both are there, and no container is registered without them. -/
structure Sound (d : DockerUtils) : Prop where
  isDocker_iff : d.isDocker = true ↔ d.Found
  container : ∀ localAddress launchDate now random,
    (d.buildWorkerNode localAddress launchDate now random).type = WorkerNodeType.CONTAINER.value →
    ∃ host port, (d.buildWorkerNode localAddress launchDate now random).hostName = some host ∧
      (d.buildWorkerNode localAddress launchDate now random).port = some port ∧
      isNotBlank host = true ∧ isNotBlank port = true

theorem sound_iff (d : DockerUtils) : d.Sound ↔ (d.isDocker = true ↔ d.Found) := by
  refine ⟨?_, ?_⟩
  · exact fun h => h.isDocker_iff
  · intro h
    refine ⟨h, fun localAddress launchDate now random htype => ?_⟩
    by_cases hdocker : d.isDocker = true
    · obtain ⟨hhost, hport⟩ := h.1 hdocker
      refine ⟨d.dockerHost, d.dockerPort, ?_, ?_, hhost, hport⟩ <;>
        simp only [buildWorkerNode, if_pos hdocker]
    · simp only [buildWorkerNode, if_neg hdocker] at htype
      cases htype

/-- The port of the environment, looked for under both its names. -/
def portOf (env : Environment) : String :=
  if isBlank ((env ENV_KEY_PORT).getD "") then (env ENV_KEY_PORT_ORIGINAL).getD ""
  else (env ENV_KEY_PORT).getD ""

/-- The environment has a host or a port, but not both. -/
def MissesOne (env : Environment) : Prop :=
  isNotBlank ((env ENV_KEY_HOST).getD "") ≠ isNotBlank (portOf env)

/-- What a call comes to. Only one that throws leaves `isDocker` as it was. -/
inductive RetrieveSteps (d : DockerUtils) (call : RetrieveCall) (d' : DockerUtils) : Prop
  | set (both : ¬MissesOne call.env) (outcome : call.outcome = .ok ())
      (isDocker_iff : d'.isDocker = true ↔ d'.Found)
  | threw (e : Throwable) (one : MissesOne call.env) (outcome : call.outcome = .error e)
      (isDocker : d'.isDocker = d.isDocker) (lost : ¬d'.Found)

theorem retrieveFromEnv_steps (hstep : RetrieveStep d call d') : RetrieveSteps d call d' := by
  have hresult : d.retrieveFromEnv call.env = (call.outcome, d') := hstep
  rw [retrieveFromEnv, ← portOf] at hresult
  generalize hhost : isNotBlank ((call.env ENV_KEY_HOST).getD "") = hasEnvHost at hresult
  generalize hport : isNotBlank (portOf call.env) = hasEnvPort at hresult
  have hone : MissesOne call.env ↔ hasEnvHost ≠ hasEnvPort := by rw [MissesOne, hhost, hport]
  cases hasEnvHost <;> cases hasEnvPort <;>
    simp only [Bool.not_true, Bool.not_false, Bool.and_self, Bool.and_true, Bool.and_false,
      Bool.false_eq_true, if_true, if_false, Prod.mk.injEq] at hresult <;>
    obtain ⟨hout, rfl⟩ := hresult
  · exact .set (by simp [hone]) hout.symm (by simp [Found, hhost])
  · exact .threw _ (by simp [hone]) hout.symm rfl (by simp [Found, hhost])
  · exact .threw _ (by simp [hone]) hout.symm rfl (by simp [Found, hport])
  · exact .set (by simp [hone]) hout.symm (by simp [Found, hhost, hport])

/-- A call leaves the variables sound unless it throws in what was a container. -/
theorem sound_step_iff (hstep : RetrieveStep d call d') :
    d'.Sound ↔ ¬(d.isDocker = true ∧ MissesOne call.env) := by
  rw [sound_iff]
  cases retrieveFromEnv_steps hstep with
  | set both _ isDocker_iff => exact iff_of_true isDocker_iff fun h => both h.2
  | threw _ one _ isDocker lost => simp [isDocker, lost, one]

end DockerUtils

open DockerUtils

/-- The variables are sound after every call of a history, exactly when no call finds
one of host and port without the other while `isDocker` is set. -/
theorem docker_sound_iff (hrun : Retrieves calls d) :
    (∀ pre d₁, pre <+: calls → Retrieves pre d₁ → d₁.Sound) ↔
      ∀ pre call d₁, pre ++ [call] <+: calls → Retrieves pre d₁ →
        ¬(d₁.isDocker = true ∧ MissesOne call.env) := by
  refine ⟨?_, ?_⟩
  · rintro hsound pre call d₁ hprefix hpre
    obtain ⟨post, rfl⟩ := hprefix
    obtain ⟨d₂, hbefore, -⟩ := run_append.1 hrun
    obtain ⟨d₁', hpre', hstep⟩ := run_snoc.1 hbefore
    obtain rfl : d₁ = d₁' := hpre.functional (fun s c s₁ s₂ h₁ h₂ =>
      (Prod.mk.inj (h₁.symm.trans h₂)).2) hpre'
    exact (sound_step_iff hstep).1 (hsound _ d₂ (List.prefix_append _ _) hbefore)
  · intro hkeeps pre d₁ hprefix hpre
    induction hpre with
    | nil => exact (sound_iff {}).2 (by decide +kernel)
    | snoc hpre hstep _ => exact (sound_step_iff hstep).2 (hkeeps _ _ _ hprefix hpre)

def containerEnv : Environment := fun key =>
  if key = ENV_KEY_HOST then some "container-7"
  else if key = ENV_KEY_PORT then some "8080"
  else none

def hostlessEnv : Environment := fun key => if key = ENV_KEY_PORT then some "8080" else none

def hostless : DockerUtils := ⟨"", "8080", true⟩

theorem retrieve_containerEnv :
    RetrieveStep {} ⟨containerEnv, .ok ()⟩ ⟨"container-7", "8080", true⟩ := by
  unfold RetrieveStep
  decide +kernel

/-- A call that throws before there is a container leaves the variables sound, and so does the
call that finds one. -/
theorem docker_sound_recovered :
    ∃ (calls : List RetrieveCall) (d : DockerUtils) (e : Throwable), Retrieves calls d ∧
      calls.map (·.outcome) = [.error e, .ok ()] ∧ d = ⟨"container-7", "8080", true⟩ ∧
      ∀ pre d₁, pre <+: calls → Retrieves pre d₁ → d₁.Sound := by
  have hmissed : RetrieveStep {} ⟨hostlessEnv, .error (missingHostOrPort "" "8080")⟩
      ⟨"", "8080", false⟩ := by
    unfold RetrieveStep
    decide +kernel
  have hfound : RetrieveStep ⟨"", "8080", false⟩ ⟨containerEnv, .ok ()⟩
      ⟨"container-7", "8080", true⟩ := by
    unfold RetrieveStep
    decide +kernel
  have hrun := (run_singleton.2 hmissed).snoc hfound
  refine ⟨_, _, _, hrun, rfl, rfl, (docker_sound_iff hrun).2 ?_⟩
  rintro pre call d₁ hprefix hpre ⟨hdocker, hmisses⟩
  rcases pre with - | ⟨first, - | ⟨second, rest⟩⟩
  · rw [run_nil.1 hpre] at hdocker
    cases hdocker
  · obtain ⟨rfl, rfl⟩ : first = _ ∧ call = _ := by simpa using hprefix
    exact absurd hmisses (by unfold MissesOne; decide +kernel)
  · exact absurd hprefix.length_le (by simp)

/-- After the second call throws, `isDocker` is set without a host, and a container is
registered under a blank name. -/
theorem docker_host_lost :
    ∃ (calls : List RetrieveCall) (d : DockerUtils) (e : Throwable), Retrieves calls d ∧
      calls.map (·.outcome) = [.ok (), .error e] ∧ d.isDocker = true ∧ d.dockerHost = "" ∧
      (d.buildWorkerNode "10.0.0.1" 0 0 0).type = WorkerNodeType.CONTAINER.value ∧
      (d.buildWorkerNode "10.0.0.1" 0 0 0).hostName = some "" ∧ ¬d.Sound := by
  have hlost : RetrieveStep ⟨"container-7", "8080", true⟩
      ⟨hostlessEnv, .error (missingHostOrPort "" "8080")⟩ hostless := by
    unfold RetrieveStep
    decide +kernel
  refine ⟨_, hostless, _, (run_singleton.2 retrieve_containerEnv).snoc hlost, rfl, rfl, rfl, rfl, rfl,
    ?_⟩
  intro hsound
  exact absurd (hsound.isDocker_iff.1 rfl) (by decide +kernel)

end UID
