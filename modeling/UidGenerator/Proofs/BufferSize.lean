import UidGenerator.Proofs.Stream

/-! The size of the ring that a `CachedUidGenerator` makes. `<<` reads the boost power
modulo 32 and the result as a 32-bit number; the checks of the ring refuse what has
overflowed, but not a boost power that was reduced. -/

namespace UID

open RingBuffer

namespace CachedUidGenerator

variable {settings : CachedSettings} {workerId now : ℤ} {g : CachedUidGenerator} {L : Layout}
  {filled : PaddedRing}

theorem assigned_of_init {assigned : Except Throwable ℤ} {fuel : ℕ}
    (h : (configured settings).afterPropertiesSet assigned now fuel = some (.ok (), g)) :
    ∃ workerId, assigned = .ok workerId := by
  unfold afterPropertiesSet at h
  cases hsuper : (configured settings).toDefaultUidGenerator.afterPropertiesSet assigned with
  | mk out super =>
    cases out with
    | error e => simp [hsuper] at h
    | ok _ =>
      obtain ⟨-, workerId, rfl, -⟩ := DefaultUidGenerator.afterPropertiesSet_ok hsuper
      exact ⟨workerId, rfl⟩

/-- The ring has the bits that the reduced shift leaves. -/
theorem Ready.bufferSize (h : Ready settings workerId now L g filled) :
    L.s + (settings.boostPower % 32).toNat ≤ 30 ∧ ∃ p, g.padded = some p ∧
      p.ringBuffer.bufferSize = 2 ^ (L.s + (settings.boostPower % 32).toNat) := by
  obtain ⟨r, fuel, hnew, hpad⟩ := h.fill
  obtain ⟨p, hstart, hp⟩ := h.start
  obtain ⟨hrep, hsize, -⟩ := represents_new hnew
  obtain ⟨k, added, hborrows, -⟩ := paddingBuffer_cases
    (p := ⟨r, .new now settings.scheduleInterval.isSome, true⟩) hrep hpad
  have hkeep : p.ringBuffer = filled.ringBuffer := (start_sameQueue hstart).1
  have hpos := r.bufferSize_pos
  rw [hsize] at hpos
  have hfits := fits_of_numberShiftLeft hpos
  refine ⟨hfits, p, hp, ?_⟩
  rw [hkeep, hborrows.ring.shape.1, hsize, numberShiftLeft_of_fits hfits]

/-- An initialization that resolves has made a ring of exactly `2 ^ (seqBits + boostPower)` slots. -/
def SizesExactly (seqBits boostPower : ℤ) : Prop :=
  ∀ (settings : CachedSettings) (assigned : Except Throwable ℤ) (now : ℤ) (fuel : ℕ)
    (g : CachedUidGenerator), settings.seqBits = seqBits → settings.boostPower = boostPower →
    (configured settings).afterPropertiesSet assigned now fuel = some (.ok (), g) →
    ∃ p, g.padded = some p ∧ p.ringBuffer.bufferSize = 2 ^ (seqBits + boostPower).toNat

def boosted (seqBits boostPower : ℤ) (hseq : 0 < seqBits) (hfits : seqBits ≤ 30)
    (hboost : 0 < boostPower) : CachedSettings where
  timeBits := 62 - seqBits
  workerBits := 1
  seqBits := seqBits
  timeBits_pos := by omega
  workerBits_pos := Int.one_pos
  seqBits_pos := hseq
  boostPower := boostPower
  boostPower_pos := hboost
  scheduleInterval_pos := fourSlots.scheduleInterval_pos

theorem boosted_init {s : ℕ} {boostPower : ℤ} (hseq : (0 : ℤ) < s) (hle : (s : ℤ) ≤ 30)
    (hboost : 0 < boostPower) (hfits : s + (boostPower % 32).toNat ≤ 30) :
    ∃ fuel g, (configured (boosted s boostPower hseq hle hboost)).afterPropertiesSet (.ok 0) 0 fuel =
      some (.ok (), g) := by
  let L : Layout := ⟨62 - s, 1, s, by omega, by omega, by omega, by omega⟩
  have ht : (62 : ℤ) - s = (L.t : ℤ) := by
    change (62 : ℤ) - s = ((62 - s : ℕ) : ℤ)
    omega
  have hfactor : (boosted s boostPower hseq hle hboost).paddingFactor = ((50 : ℕ) : ℤ) := rfl
  exact init_total (L := L) ht rfl rfl (numberShiftLeft_of_fits hfits) (Nat.le_add_right _ _) hfits
    hfactor (by norm_num) (by norm_num) rfl rfl rfl (by positivity)

/-- Exactly the boost powers below 32, and those whose ring is refused for its size, never
make a ring of another size. -/
theorem sizesExactly_iff {seqBits boostPower : ℤ} (hseq : 0 < seqBits) (hboost : 0 < boostPower) :
    SizesExactly seqBits boostPower ↔ boostPower < 32 ∨ 30 < seqBits + boostPower % 32 := by
  refine ⟨?_, ?_⟩
  · intro hexact
    by_contra hcond
    obtain ⟨hlarge, hfits⟩ := not_or.1 hcond
    lift seqBits to ℕ using hseq.le
    obtain ⟨fuel, g, hinit⟩ := boosted_init hseq (by omega) hboost (by omega)
    obtain ⟨p, hp, hsize⟩ := hexact _ _ _ _ _ rfl rfl hinit
    obtain ⟨L, filled, hready⟩ := ready_of_init hinit
    obtain ⟨-, p', hp', hsize'⟩ := hready.bufferSize
    obtain rfl := Option.some.inj (hp.symm.trans hp')
    have hs : seqBits = L.s := Int.natCast_inj.1 hready.seqBits
    rw [← hs] at hsize'
    have hpow : (2 : ℤ) ^ (seqBits + boostPower).toNat =
        2 ^ (seqBits + (boostPower % 32).toNat) := hsize.symm.trans hsize'
    have hbits := pow_right_injective₀ (by norm_num : (0 : ℤ) < 2) (by norm_num) hpow
    omega
  · rintro hcond settings assigned now fuel g rfl rfl hinit
    obtain ⟨workerId, rfl⟩ := assigned_of_init hinit
    obtain ⟨L, filled, hready⟩ := ready_of_init hinit
    obtain ⟨hfits, p, hp, hsize⟩ := hready.bufferSize
    have hs := hready.seqBits
    refine ⟨p, hp, ?_⟩
    rw [hsize]
    congr 1
    omega

theorem sizesExactly_default : SizesExactly 13 3 :=
  (sizesExactly_iff (by decide) (by decide)).2 (by decide)

/-- Boost power 32 is accepted and boosts nothing: the ring holds the UIDs of one second. -/
theorem boostPower_reduced :
    ∃ (settings : CachedSettings) (g : CachedUidGenerator) (p : PaddedRing),
      settings.seqBits = 1 ∧ settings.boostPower = 32 ∧
      (configured settings).afterPropertiesSet (.ok 1) 0 3 = some (.ok (), g) ∧
      g.padded = some p ∧ p.ringBuffer.bufferSize = 2 ∧ ¬SizesExactly 1 32 := by
  let settings : CachedSettings := { fourSlots with boostPower := 32, boostPower_pos := by decide }
  have hinit : (configured settings).afterPropertiesSet (.ok 1) 0 3 =
      some (.ok (), initialized settings) :=
    Transition.eq_some_of_map_fst _ (by decide +kernel)
  have hring : (initialized settings).padded.map (·.ringBuffer.bufferSize) = some 2 := by
    decide +kernel
  obtain ⟨p, hp, hsize⟩ := Option.map_eq_some_iff.1 hring
  refine ⟨settings, _, p, rfl, rfl, hinit, hp, hsize, ?_⟩
  intro hexact
  obtain ⟨p', hp', hsize'⟩ := hexact settings _ _ _ _ rfl rfl hinit
  obtain rfl := Option.some.inj (hp.symm.trans hp')
  rw [hsize, show ((1 : ℤ) + 32).toNat = 33 from rfl] at hsize'
  norm_num at hsize'

end CachedUidGenerator

end UID
