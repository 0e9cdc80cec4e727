import UidGenerator.Proofs.Calls

/-! Runs of a `DefaultUidGenerator` over an arbitrary clock. A run issues stamps,
pairs of a second and a sequence, in strictly increasing lexicographic order; the
UIDs are their packed images. -/

namespace UID

open BitField Transition

structure Stamp where
  second : ℤ
  sequence : ℤ

/-- Lexicographic order, the order in which stamps are issued. -/
def Stamp.Before (a b : Stamp) : Prop :=
  a.second < b.second ∨ a.second = b.second ∧ a.sequence < b.sequence

/-- Seconds the timestamp field can hold, with a sequence that fits. -/
structure Stamp.Fits (L : Layout) (epochSeconds : ℤ) (a : Stamp) : Prop where
  epoch : epochSeconds ≤ a.second
  range : a.second - epochSeconds < 2 ^ L.t
  sequence_nonneg : 0 ≤ a.sequence
  sequence_lt : a.sequence < 2 ^ L.s

theorem and_maxSequence (L : Layout) (x : ℤ) : and x L.allocator.maxSequence = x % 2 ^ L.s := by
  have h := toLong_field 0 (show L.s ≤ 63 by have := L.bits_sum; omega) x
  rw [field_zero_low] at h
  rw [and, show L.allocator.maxSequence = 2 ^ L.s - 1 from rfl, land_two_pow_sub_one, h]

namespace DefaultUidGenerator

def uidOf (g : DefaultUidGenerator) (A : BitsAllocator) (a : Stamp) : ℤ :=
  A.allocate (subtract a.second g.epochSeconds) g.workerId a.sequence

theorem uidOf_eq {L : Layout} {g : DefaultUidGenerator} {a : Stamp} (ha : a.Fits L g.epochSeconds) :
    g.uidOf L.allocator a =
      L.allocator.allocate (a.second - g.epochSeconds) g.workerId a.sequence := by
  have hpow : (2 : ℤ) ^ L.t ≤ 2 ^ 63 :=
    pow_le_pow_right₀ (by norm_num) (by have := L.bits_sum; omega)
  rw [uidOf, subtract,
    toLong_eq_self ⟨by have := ha.epoch; omega, by have := ha.range; omega⟩]

/-- Before the run ends in the wait loop: `readings` starts at the current second
with the sequence used up, and a later reading is past the range. -/
def WaitsPastRange (g : DefaultUidGenerator) (A : BitsAllocator) (readings : List ℤ) : Prop :=
  ∃ now rest, readings = now :: rest ∧ toSeconds now = g.lastSecond ∧
    g.sequence = A.maxSequence ∧ ∃ r ∈ rest, g.PastRange A r

/-- What every run keeps: its configuration, and the sequence within its field. -/
structure Framed (L : Layout) (g₁ g : DefaultUidGenerator) : Prop where
  frame : g = { g₁ with sequence := g.sequence, lastSecond := g.lastSecond }
  sequence_nonneg : 0 ≤ g.sequence
  sequence_lt : g.sequence < 2 ^ L.s

structure Issued (L : Layout) (g₁ : DefaultUidGenerator) (calls : List Call)
    (g : DefaultUidGenerator) (stamps : List Stamp) : Prop extends Framed L g₁ g where
  returned : returned calls = stamps.map (g₁.uidOf L.allocator)
  ordered : stamps.Pairwise Stamp.Before
  bounded : ∀ a ∈ stamps, a.second < g.lastSecond ∨
    a.second = g.lastSecond ∧ a.sequence ≤ g.sequence
  fits : ∀ a ∈ stamps, a.Fits L g₁.epochSeconds

variable {L : Layout} {g₁ g g' : DefaultUidGenerator} {calls : List Call} {c : Call}
  {stamps : List Stamp}

theorem returned_snoc (calls : List Call) (c : Call) :
    returned (calls ++ [c]) = returned calls ++ c.outcome.toOption.toList :=
  filterMap_snoc _ _ _

theorem wraps_iff {q : ℤ} (h0 : 0 ≤ q) (hlt : q < 2 ^ L.s) :
    and (q + 1) L.allocator.maxSequence = 0 ↔ q = L.allocator.maxSequence := by
  have hmax : L.allocator.maxSequence = 2 ^ L.s - 1 := rfl
  rw [and_maxSequence, hmax]
  constructor
  · intro hz
    by_contra hne
    rw [Int.emod_eq_of_lt (by omega) (by omega)] at hz
    omega
  · intro he
    rw [he, sub_add_cancel, Int.emod_self]

theorem Issued.epoch (h : Issued L g₁ calls g stamps) : g.epochSeconds = g₁.epochSeconds := by
  rw [h.frame]

theorem Issued.refuse (h : Issued L g₁ calls g stamps) {e : Throwable}
    (hc : c.outcome = .error e) : Issued L g₁ (calls ++ [c]) g stamps := by
  refine { h with returned := ?_ }
  rw [returned_snoc, hc, h.returned]
  simp [Except.toOption]

/-- A new stamp comes after all earlier ones. -/
theorem Issued.issue (h : Issued L g₁ calls g stamps) {a : Stamp} (ha : a.Fits L g₁.epochSeconds)
    (hnext : g.lastSecond < a.second ∨ a.second = g.lastSecond ∧ g.sequence < a.sequence)
    (hc : c.outcome = .ok (g₁.uidOf L.allocator a)) :
    Issued L g₁ (calls ++ [c]) { g with sequence := a.sequence, lastSecond := a.second }
      (stamps ++ [a]) where
  frame := by rw [h.frame]
  returned := by rw [returned_snoc, hc, h.returned, List.map_append]; rfl
  ordered := by
    refine List.pairwise_append.2 ⟨h.ordered, List.pairwise_singleton _ _, ?_⟩
    intro b hb a' ha'
    rw [List.mem_singleton.1 ha']
    unfold Stamp.Before
    rcases h.bounded b hb with hlt | ⟨heq, hle⟩ <;> omega
  bounded := by
    intro b hb
    rcases List.mem_append.1 hb with hb | hb
    · rcases h.bounded b hb with hlt | ⟨heq, hle⟩ <;> simp only <;> omega
    · rw [List.mem_singleton.1 hb]
      exact Or.inr ⟨rfl, le_rfl⟩
  fits := by
    intro b hb
    rcases List.mem_append.1 hb with hb | hb
    · exact h.fits b hb
    · rwa [List.mem_singleton.1 hb]
  sequence_nonneg := ha.sequence_nonneg
  sequence_lt := ha.sequence_lt

/-- One call from a state of such a run. -/
theorem Issued.call (h : Issued L g₁ calls g stamps) (hc : CallCases g L.allocator c g')
    (hepoch : ∀ second ∈ c.seconds, g₁.epochSeconds ≤ second)
    (hwait : ¬g.WaitsPastRange L.allocator c.readings) :
    ((∃ e, c.outcome = .error e) ∧ g' = g ∧ Issued L g₁ (calls ++ [c]) g stamps) ∨
    ∃ a : Stamp, a.second ∈ c.seconds ∧ a.Fits L g₁.epochSeconds ∧
      c.outcome = .ok (g₁.uidOf L.allocator a) ∧
      (g.lastSecond < a.second ∧ a.sequence = 0 ∨
        a.second = g.lastSecond ∧ a.sequence = g.sequence + 1) ∧
      g' = { g with sequence := a.sequence, lastSecond := a.second } ∧
      Issued L g₁ (calls ++ [c]) g' (stamps ++ [a]) := by
  cases hc with
  | refused now e hreadings _ hout => exact Or.inl ⟨⟨e, hout⟩, rfl, h.refuse hout⟩
  | exhausted now waited last hreadings hcurrent hwrap hpast hout =>
    have hfull := (wraps_iff h.sequence_nonneg h.sequence_lt).1 hwrap
    exact absurd ⟨now, waited ++ [last], by simpa using hreadings, hcurrent, hfull, last, by simp,
      hpast⟩ hwait
  | issued second sequence hread _ hrange hnext hout =>
    right
    have hsecond : second - g₁.epochSeconds < 2 ^ L.t := by
      obtain ⟨now, hnow, rfl⟩ := List.mem_map.1 hread
      have := hrange now hnow
      simp only [PastRange, h.epoch, show L.allocator.maxDeltaSeconds = 2 ^ L.t - 1 from rfl] at this
      omega
    have h0 := h.sequence_nonneg
    have hseq : g.lastSecond < second ∧ sequence = 0 ∨
        second = g.lastSecond ∧ sequence = g.sequence + 1 := by
      rcases hnext with hnew | ⟨heq, hne, hsame⟩
      · exact Or.inl hnew
      · refine Or.inr ⟨heq, ?_⟩
        have hlt := h.sequence_lt
        have hfull : ¬g.sequence = L.allocator.maxSequence := by
          rwa [← wraps_iff h0 hlt, ← hsame]
        rw [hsame, and_maxSequence]
        apply Int.emod_eq_of_lt (by omega)
        simp only [Layout.allocator] at hfull
        omega
    have hpos : (0 : ℤ) < 2 ^ L.s := by positivity
    have hfits : Stamp.Fits L g₁.epochSeconds ⟨second, sequence⟩ := by
      refine ⟨hepoch second hread, hsecond, ?_, ?_⟩
      · rcases hseq with ⟨-, rfl⟩ | ⟨-, rfl⟩ <;> simp only <;> omega
      · rcases hseq with ⟨-, rfl⟩ | ⟨heq, rfl⟩
        · exact hpos
        · rcases hnext with ⟨hlt, -⟩ | ⟨-, -, hsame⟩
          · omega
          · rw [and_maxSequence] at hsame
            simp only
            rw [hsame]
            exact Int.emod_lt_of_pos _ hpos
    have hout' : c.outcome = .ok (g₁.uidOf L.allocator ⟨second, sequence⟩) := by
      rw [hout, uidOf, h.frame]
    refine ⟨⟨second, sequence⟩, hread, hfits, hout', hseq, rfl, h.issue hfits ?_ hout'⟩
    simp only
    omega

theorem Framed.bitsAllocator (h : Framed L g₁ g) (hA : g₁.bitsAllocator = some L.allocator) :
    g.bitsAllocator = some L.allocator := by
  rw [h.frame, hA]

theorem Framed.call (h : Framed L g₁ g) (hA : g₁.bitsAllocator = some L.allocator)
    (hstep : CallStep g c g') : Framed L g₁ g' := by
  have hpos : (0 : ℤ) < 2 ^ L.s := by positivity
  have hframe := h.frame
  cases call_cases (h.bitsAllocator hA) hstep with
  | refused => exact h
  | exhausted => exact ⟨by rw [hframe], le_rfl, hpos⟩
  | issued second sequence _ _ _ hnext _ =>
    have hq : 0 ≤ sequence ∧ sequence < 2 ^ L.s := by
      rcases hnext with ⟨-, rfl⟩ | ⟨-, -, rfl⟩
      · exact ⟨le_rfl, hpos⟩
      · rw [and_maxSequence]
        exact ⟨Int.emod_nonneg _ hpos.ne', Int.emod_lt_of_pos _ hpos⟩
    exact ⟨by rw [hframe], hq.1, hq.2⟩

theorem framed_run (hA : g₁.bitsAllocator = some L.allocator) (hseq : g₁.sequence = 0)
    (hrun : Calls g₁ calls g) : Framed L g₁ g :=
  hrun.invariant (fun _ g => Framed L g₁ g) ⟨rfl, hseq.ge, hseq.trans_lt (by positivity)⟩
    fun _ _ _ _ _ h hstep => h.call hA hstep

/-- The run has issued as many stamps in its last second as its sequence says. -/
def Counted (g : DefaultUidGenerator) (stamps : List Stamp) : Prop :=
  stamps = [] ∧ g.lastSecond = -1 ∨
    (stamps.countP (·.second = g.lastSecond) : ℤ) = g.sequence + 1

/-- The sequence of a new stamp counts the earlier stamps of its second. -/
theorem Issued.count_eq (h : Issued L g₁ calls g stamps) (hcount : Counted g stamps) {a : Stamp}
    (hnonneg : 0 ≤ a.second)
    (hnext : g.lastSecond < a.second ∧ a.sequence = 0 ∨
      a.second = g.lastSecond ∧ a.sequence = g.sequence + 1) :
    (stamps.countP (·.second = a.second) : ℤ) = a.sequence := by
  rcases hnext with ⟨hlt, hzero⟩ | ⟨hsame, hsucc⟩
  · have hnone : stamps.countP (·.second = a.second) = 0 := by
      rw [List.countP_eq_zero]
      intro b hb
      simp only [decide_eq_true_eq]
      rcases h.bounded b hb with hb | ⟨hb, -⟩ <;> omega
    rw [hnone, hzero]
    rfl
  · rcases hcount with ⟨-, hstart⟩ | hcount
    · omega
    · rw [hsame, hcount, hsucc]

/-- While no call waits past the range, a run issues stamps in order, and counts
them as long as the clock is not before 1970. -/
theorem issued_run (hA : g₁.bitsAllocator = some L.allocator) (hseq : g₁.sequence = 0)
    (hlast : g₁.lastSecond = -1) (hrun : Calls g₁ calls g)
    (hepoch : ∀ c ∈ calls, ∀ second ∈ c.seconds, g₁.epochSeconds ≤ second)
    (hwait : ∀ pre c post mid mid', calls = pre ++ c :: post → Calls g₁ pre mid →
      CallStep mid c mid' → ¬mid.WaitsPastRange L.allocator c.readings) :
    ∃ stamps, Issued L g₁ calls g stamps ∧
      ((∀ c ∈ calls, ∀ second ∈ c.seconds, 0 ≤ second) → Counted g stamps) := by
  induction hrun with
  | nil =>
    refine ⟨[], ⟨⟨rfl, hseq.ge, hseq.trans_lt (by positivity)⟩, rfl, List.Pairwise.nil, by simp,
      by simp⟩, fun _ => Or.inl ⟨rfl, hlast⟩⟩
  | @snoc calls g g' c hrun hstep ih =>
    obtain ⟨stamps, h, hcount⟩ := ih (fun d hd => hepoch d (List.mem_append_left _ hd))
      (fun pre d post mid mid' hd => hwait pre d (post ++ [c]) mid mid' (by rw [hd]; simp))
    rcases h.call (call_cases ((framed_run hA hseq hrun).bitsAllocator hA) hstep)
      (hepoch c (by simp)) (hwait calls c [] g g' rfl hrun hstep) with
      ⟨-, rfl, h'⟩ | ⟨a, hread, -, -, hnext, rfl, h'⟩
    · exact ⟨_, h', fun hn => hcount fun d hd => hn d (List.mem_append_left _ hd)⟩
    · refine ⟨_, h', fun hn => Or.inr ?_⟩
      have heq := h.count_eq (hcount fun d hd => hn d (List.mem_append_left _ hd))
        (hn c (by simp) _ hread) hnext
      rw [List.countP_append, Nat.cast_add, heq]
      simp

theorem secondOf_uidOf {a : Stamp} (ha : a.Fits L g.epochSeconds) (hw : 0 ≤ g.workerId)
    (hw' : g.workerId < 2 ^ L.w) : g.secondOf L.allocator (g.uidOf L.allocator a) = a.second := by
  have hrange : a.second - g.epochSeconds < 2 ^ (L.t + 1) :=
    ha.range.trans (pow_lt_pow_right₀ (by norm_num) (by omega))
  rw [secondOf, uidOf_eq ha,
    L.parse_allocate_of_worker _ hw hw' ha.sequence_nonneg ha.sequence_lt]
  simp only [Int.emod_eq_of_lt (by have := ha.epoch; omega) hrange]
  omega

theorem uidOf_lt_uidOf {a b : Stamp} (ha : a.Fits L g.epochSeconds) (hb : b.Fits L g.epochSeconds)
    (hw : 0 ≤ g.workerId) (hw' : g.workerId < 2 ^ L.w) (h : a.Before b) :
    g.uidOf L.allocator a < g.uidOf L.allocator b := by
  have hpack {x : Stamp} (hx : x.Fits L g.epochSeconds) : g.uidOf L.allocator x =
      L.pack (x.second - g.epochSeconds) g.workerId x.sequence := by
    rw [uidOf_eq hx, L.allocate_eq_pack (by have := hx.epoch; omega) hx.range hw hw'
      hx.sequence_nonneg hx.sequence_lt]
  rw [hpack ha, hpack hb]
  rcases h with hlt | ⟨heq, hlt⟩
  · exact L.pack_lt_pack (by omega) hw' hw ha.sequence_lt hb.sequence_nonneg
  · rw [heq]
    unfold Layout.pack
    omega

/-- A stamp is determined by its UID when the worker id stays out of the delta field. -/
theorem uidOf_inj {a b : Stamp} (ha : a.Fits L g.epochSeconds) (hb : b.Fits L g.epochSeconds)
    (hclear : field L.w L.t g.workerId = 0)
    (h : g.uidOf L.allocator a = g.uidOf L.allocator b) :
    a.second = b.second ∧ a.sequence = b.sequence := by
  have hdelta {x : Stamp} (hx : x.Fits L g.epochSeconds) :
      field (L.w + L.s) L.t (g.uidOf L.allocator x) = x.second - g.epochSeconds := by
    rw [uidOf_eq hx, L.delta_allocate (by omega) _ _ hx.sequence_nonneg hx.sequence_lt, hclear,
      lor_zero, field_eq_self (by have := hx.epoch; omega) hx.range]
  have hsequence {x : Stamp} (hx : x.Fits L g.epochSeconds) :
      (L.allocator.parse (g.uidOf L.allocator x)).sequence = x.sequence := by
    rw [uidOf, L.parse_allocate _ _ hx.sequence_nonneg hx.sequence_lt]
  constructor
  · have hd := hdelta ha
    rw [h, hdelta hb] at hd
    omega
  · rw [← hsequence ha, h, hsequence hb]

theorem Issued.increasing (h : Issued L g₁ calls g stamps) (hw : 0 ≤ g₁.workerId)
    (hw' : g₁.workerId < 2 ^ L.w) : (DefaultUidGenerator.returned calls).Pairwise (· < ·) := by
  rw [h.returned, List.pairwise_map]
  exact h.ordered.imp_of_mem fun ha hb hab =>
    uidOf_lt_uidOf (h.fits _ ha) (h.fits _ hb) hw hw' hab

theorem Issued.nodup (h : Issued L g₁ calls g stamps) (hclear : field L.w L.t g₁.workerId = 0) :
    (DefaultUidGenerator.returned calls).Nodup := by
  rw [h.returned, List.Nodup, List.pairwise_map]
  refine h.ordered.imp_of_mem fun {a b} ha hb hab heq => ?_
  obtain ⟨h1, h2⟩ := uidOf_inj (h.fits _ ha) (h.fits _ hb) hclear heq
  rcases hab with hlt | ⟨-, hlt⟩ <;> omega

/-- UIDs of one second are counted by their stamps. -/
theorem Issued.countP_secondOf (h : Issued L g₁ calls g stamps) (hw : 0 ≤ g₁.workerId)
    (hw' : g₁.workerId < 2 ^ L.w) (second : ℤ) :
    (DefaultUidGenerator.returned calls).countP (g₁.secondOf L.allocator · = second) =
      stamps.countP (·.second = second) := by
  rw [h.returned, List.countP_map]
  apply List.countP_congr
  intro a ha
  simp only [Function.comp_apply, decide_eq_true_eq, secondOf_uidOf (h.fits a ha) hw hw']

/-- A call that waits past the range fails there. -/
theorem exhausted_of_waits {A : BitsAllocator} (hA : g.bitsAllocator = some A)
    (hstep : CallStep g c g') (hwait : g.WaitsPastRange A c.readings) :
    (∃ now, c.outcome = .error (.uidGenerateCause (timestampBitsExhausted now))) ∧
      g' = { g with sequence := 0 } := by
  obtain ⟨now, rest, hreadings, -, -, r, hr, hpast⟩ := hwait
  cases call_cases hA hstep with
  | refused now' e hone _ hout =>
    rw [hreadings] at hone
    simp only [List.cons.injEq] at hone
    rw [hone.2] at hr
    simp at hr
  | issued second sequence hread _ hrange hnext hout =>
    exact absurd hpast (hrange r (by rw [hreadings]; exact List.mem_cons_of_mem _ hr))
  | exhausted now' waited last hall hcurrent hwrap hlast hout => exact ⟨⟨_, hout⟩, rfl⟩

/-- Up to a failure with exhausted timestamp bits, the UIDs increase, and each is
packed from a second the call read and the number of UIDs that second already has. -/
theorem serial_generation {settings : Settings} {workerId : ℤ}
    (hinit : (configured settings).afterPropertiesSet (.ok workerId) = (.ok (), g₁))
    (hworker : 0 ≤ workerId) (hrun : Calls g₁ calls g)
    (hclock : ∀ c ∈ calls, ∀ second ∈ c.seconds, 0 ≤ second ∧ settings.epochSeconds ≤ second)
    (hexhausted : ∀ c ∈ calls, ∀ now,
      c.outcome ≠ .error (.uidGenerateCause (timestampBitsExhausted now))) :
    (DefaultUidGenerator.returned calls).Pairwise (· < ·) ∧
      ∃ A, g₁.bitsAllocator = some A ∧
        ∀ pre c post uid, calls = pre ++ c :: post → c.outcome = .ok uid →
          ∃ second ∈ c.seconds, uid = A.allocate (second - settings.epochSeconds) workerId
            ((DefaultUidGenerator.returned pre).countP (g₁.secondOf A · = second)) := by
  obtain ⟨L, hready⟩ := ready_of_init hinit
  have hA := hready.bitsAllocator
  have hw : 0 ≤ g₁.workerId := hready.workerId ▸ hworker
  have hw' : g₁.workerId < 2 ^ L.w := hready.workerId ▸ hready.workerId_lt
  rw [← hready.settings] at hclock
  have hframed {pre mid} (hpre : Calls g₁ pre mid) : mid.bitsAllocator = some L.allocator :=
    (framed_run hA hready.sequence hpre).bitsAllocator hA
  have hwait : ∀ pre c mid mid', c ∈ calls → Calls g₁ pre mid → CallStep mid c mid' →
      ¬mid.WaitsPastRange L.allocator c.readings := by
    intro pre c mid mid' hc hpre hstep hwaits
    obtain ⟨⟨now, hout⟩, -⟩ := exhausted_of_waits (hframed hpre) hstep hwaits
    exact hexhausted c hc now hout
  obtain ⟨stamps, hissued, -⟩ := issued_run hA hready.sequence hready.lastSecond hrun
    (fun c hc second hsecond => (hclock c hc second hsecond).2)
    (fun pre c post mid mid' heq => hwait pre c mid mid' (by rw [heq]; simp))
  refine ⟨hissued.increasing hw hw', L.allocator, hA, ?_⟩
  rintro pre c post uid rfl hout
  obtain ⟨mid, mid', hpre, hstep, -⟩ := hrun.split
  have hpreclock : ∀ d ∈ pre, ∀ second ∈ d.seconds, 0 ≤ second ∧ g₁.epochSeconds ≤ second :=
    fun d hd => hclock d (List.mem_append_left _ hd)
  obtain ⟨before, hbefore, hcount⟩ := issued_run hA hready.sequence hready.lastSecond hpre
    (fun d hd second hsecond => (hpreclock d hd second hsecond).2)
    (fun pre' d post' m m' heq => hwait pre' d m m' (by rw [heq]; simp))
  have hc := hclock c (by simp)
  rcases hbefore.call (call_cases (hframed hpre) hstep) (fun second h => (hc second h).2)
    (hwait pre c mid mid' (by simp) hpre hstep) with
    ⟨⟨e, herr⟩, -⟩ | ⟨a, hread, hfits, hok, hnext, -, -⟩
  · rw [hout] at herr
    cases herr
  · refine ⟨a.second, hread, ?_⟩
    have hseq := hbefore.count_eq (hcount fun d hd second h => (hpreclock d hd second h).1)
      (hc _ hread).1 hnext
    rw [hbefore.countP_secondOf hw hw', hseq]
    rw [hout, uidOf_eq hfits, hready.workerId] at hok
    rw [← hready.settings]
    exact Except.ok.inj hok

def oneBitSequences : Settings where
  timeBits := 31
  workerBits := 31
  seqBits := 1
  epochSeconds := 0

/-- The third call finds the sequence used up and waits for the next second. -/
theorem serial_generation_waits :
    ∃ (g₁ g : DefaultUidGenerator) (calls : List Call),
      (configured oneBitSequences).afterPropertiesSet (.ok 1) = (.ok (), g₁) ∧ Calls g₁ calls g ∧
      DefaultUidGenerator.returned calls = [42949672962, 42949672963, 47244640258] ∧
      (DefaultUidGenerator.returned calls).Pairwise (· < ·) := by
  let calls : List Call := [⟨[10000], .ok 42949672962⟩, ⟨[10999], .ok 42949672963⟩,
    ⟨[10000, 10500, 11000], .ok 47244640258⟩]
  let g₁ := ((configured oneBitSequences).afterPropertiesSet (.ok 1)).2
  have hinit : (configured oneBitSequences).afterPropertiesSet (.ok 1) = (.ok (), g₁) := rfl
  have hrun : Calls g₁ calls _ := .cons rfl (.cons rfl (.cons rfl .nil))
  refine ⟨g₁, _, calls, hinit, hrun, rfl, (serial_generation hinit (by decide) hrun ?_ ?_).1⟩
  · decide
  · simp [calls]

end DefaultUidGenerator

end UID
