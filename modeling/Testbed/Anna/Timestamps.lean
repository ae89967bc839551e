import Mathlib.Data.Nat.Find
import Testbed.Anna.RegisterLattices

/-! # Timestamps

`generate_timestamp` puts the id of a thread behind the time: it multiplies the time by the
first power of ten above the id and adds the id.  The powers are computed with 32 bits.

The factor depends on the id, so that a thread with a longer id is ahead of the others at
all times; and for some ids the powers wrap around to zero and the loop does not end
(`orderedWrites_iff`).
-/
namespace Testbed.Anna

/-- The loop of `generate_timestamp`, for at most `fuel` rounds. -/
def raisePow (id : UInt32) : Nat → UInt32 → Option UInt32
  | 0, _ => none
  | fuel + 1, pow => if id ≥ pow then raisePow id fuel (pow * 10) else some pow

/-- `generate_timestamp`; `time` is what `get_time` returns. -/
def generateTimestamp (fuel : Nat) (time : UInt64) (id : UInt32) : Option UInt64 := do
  let pow ← raisePow id fuel 10
  return time * pow.toUInt64 + id.toUInt64

/-! ## The powers of ten -/

/-- The value of `pow` after `k` rounds. -/
def power : Nat → UInt32
  | 0 => 10
  | k + 1 => power k * 10

/-- The loop stops at the first power above the id. -/
def Stops (id : UInt32) (k : Nat) : Prop := id < power k ∧ ∀ l < k, power l ≤ id

variable {id p q i j : UInt32} {k : Nat} {time v : UInt64}

theorem raisePow_power {n fuel : Nat} (h : Stops id (k + n)) :
    raisePow id fuel (power k) = if n < fuel then some (power (k + n)) else none := by
  induction fuel generalizing k n with
  | zero => rfl
  | succ fuel ih =>
    cases n with
    | zero =>
      have habove : ¬ id ≥ power k := UInt32.not_le.mpr h.1
      rw [raisePow, if_neg habove, if_pos (Nat.succ_pos fuel)]
      rfl
    | succ n =>
      have hbelow := h.2 k (by omega)
      have hstep : k + (n + 1) = k + 1 + n := by omega
      rw [hstep] at h ⊢
      rw [raisePow, if_pos hbelow]
      change raisePow id fuel (power (k + 1)) = _
      rw [ih h]
      simp

theorem raisePow_eq_none (h : ∀ k, power k ≤ id) (fuel k : Nat) :
    raisePow id fuel (power k) = none := by
  induction fuel generalizing k with
  | zero => rfl
  | succ fuel ih =>
    rw [raisePow, if_pos (h k)]
    exact ih (k + 1)

theorem power_eq_zero (h : 31 ≤ k) : power k = 0 := by
  induction k, h using Nat.le_induction with
  | base => decide
  | succ k _ ih =>
    rw [power, ih]
    rfl

/-- The powers that are greater than all powers before them: the loop stops at one of these
or not at all. -/
def scales : List UInt32 :=
  [10, 100, 1000, 10000, 100000, 1000000, 10000000, 100000000, 1000000000,
    1410065408, 3567587328, 3735027712, 4135583744]

/-- The greatest power. -/
def maxScale : UInt32 := 4135583744

theorem power_le_maxScale (k : Nat) : power k ≤ maxScale := by
  rcases Nat.lt_or_ge k 31 with hk | hk
  · have hall : ∀ k < 31, power k ≤ maxScale := by decide
    exact hall k hk
  · rw [power_eq_zero hk]
    decide

theorem mem_scales_iff : p ∈ scales ↔ ∃ k, power k = p ∧ ∀ l < k, power l < p := by
  constructor
  · intro h
    have hall : (scales.all fun p => (List.range 31).any fun k =>
        decide (power k = p ∧ ∀ l < k, power l < p)) = true := by decide
    obtain ⟨k, -, hk⟩ := List.any_eq_true.mp (List.all_eq_true.mp hall p h)
    exact ⟨k, of_decide_eq_true hk⟩
  · rintro ⟨k, rfl, hrecord⟩
    have hall : ∀ k < 31, (∀ l < k, power l < power k) → power k ∈ scales := by decide
    refine hall k ?_ hrecord
    by_contra hk
    have hzero := hrecord 0 (by omega)
    rw [power_eq_zero (Nat.le_of_not_lt hk)] at hzero
    exact absurd hzero (by decide)

/-- The factor for an id is the least of the scales above it. -/
structure Scale (id p : UInt32) : Prop where
  mem : p ∈ scales
  lt : id < p
  least : ∀ b ∈ scales, b < p → b ≤ id

theorem Stops.scale (h : Stops id k) : Scale id (power k) := by
  have hrecord : ∀ l < k, power l < power k := fun l hl => UInt32.lt_of_le_of_lt (h.2 l hl) h.1
  refine ⟨mem_scales_iff.mpr ⟨k, rfl, hrecord⟩, h.1, ?_⟩
  intro b hb hlt
  obtain ⟨m, rfl, hm⟩ := mem_scales_iff.mp hb
  rcases Nat.lt_trichotomy m k with hmk | rfl | hkm
  · exact h.2 m hmk
  · exact absurd hlt (UInt32.lt_irrefl _)
  · exact absurd hlt (UInt32.lt_asymm (hm k hkm))

theorem Scale.unique (hp : Scale id p) (hq : Scale id q) : p = q := by
  have hpq : ¬ p < q := fun h => UInt32.not_le.mpr hp.lt (hq.least p hp.mem h)
  have hqp : ¬ q < p := fun h => UInt32.not_le.mpr hq.lt (hp.least q hq.mem h)
  exact UInt32.le_antisymm (UInt32.not_lt.mp hqp) (UInt32.not_lt.mp hpq)

theorem exists_stops_iff : (∃ k, Stops id k) ↔ id < maxScale := by
  constructor
  · rintro ⟨k, hk, -⟩
    exact UInt32.lt_of_lt_of_le hk (power_le_maxScale k)
  · intro h
    have hmax : power 22 = maxScale := by decide
    have hex : ∃ k, id < power k := ⟨22, by rwa [hmax]⟩
    refine ⟨Nat.find hex, Nat.find_spec hex, fun l hl => ?_⟩
    exact UInt32.not_lt.mp (Nat.find_min hex hl)

theorem raisePow_eq_some_iff : (∃ fuel, raisePow id fuel 10 = some p) ↔ Scale id p := by
  by_cases hid : id < maxScale
  · obtain ⟨k, hk⟩ := exists_stops_iff.mpr hid
    have hloop : ∀ fuel, raisePow id fuel 10 = if k < fuel then some (power k) else none := by
      intro fuel
      have hzero : Stops id (0 + k) := by rwa [Nat.zero_add]
      refine (raisePow_power hzero).trans ?_
      rw [Nat.zero_add]
    constructor
    · rintro ⟨fuel, hfuel⟩
      rw [hloop] at hfuel
      split at hfuel
      · cases hfuel
        exact hk.scale
      · cases hfuel
    · intro hp
      refine ⟨k + 1, ?_⟩
      rw [hloop, if_pos (Nat.lt_succ_self k), hk.scale.unique hp]
  · have hnone : ∀ k, power k ≤ id := fun k =>
      UInt32.le_trans (power_le_maxScale k) (UInt32.not_lt.mp hid)
    constructor
    · rintro ⟨fuel, hfuel⟩
      have hloop := raisePow_eq_none hnone fuel 0
      rw [power, hfuel] at hloop
      cases hloop
    · intro hp
      obtain ⟨k, hpower, -⟩ := mem_scales_iff.mp hp.mem
      exact absurd hp.lt (UInt32.not_lt.mpr (hpower ▸ hnone k))

/-! ## The order of timestamps -/

/-- `generate_timestamp` returns, with the value. -/
def Yields (time : UInt64) (id : UInt32) (v : UInt64) : Prop :=
  ∃ fuel, generateTimestamp fuel time id = some v

/-- The time is small enough that no 64-bit overflow occurs. -/
def Fits (time : UInt64) (id : UInt32) : Prop :=
  ∀ fuel pow, raisePow id fuel 10 = some pow → time.toNat * pow.toNat + id.toNat < UInt64.size

theorem yields_iff : Yields time id v ↔ ∃ p, Scale id p ∧ v = time * p.toUInt64 + id.toUInt64 := by
  simp only [← raisePow_eq_some_iff, Yields, generateTimestamp]
  constructor
  · rintro ⟨fuel, h⟩
    cases hpow : raisePow id fuel 10 with
    | none =>
      rw [hpow] at h
      cases h
    | some p =>
      rw [hpow] at h
      exact ⟨p, ⟨fuel, hpow⟩, (Option.some.inj h).symm⟩
  · rintro ⟨p, ⟨fuel, hpow⟩, rfl⟩
    refine ⟨fuel, ?_⟩
    rw [hpow]
    rfl

theorem Fits.toNat_eq (h : Fits time id) (hp : Scale id p) :
    (time * p.toUInt64 + id.toUInt64).toNat = time.toNat * p.toNat + id.toNat := by
  obtain ⟨fuel, hpow⟩ := raisePow_eq_some_iff.mpr hp
  have hfits : time.toNat * p.toNat + id.toNat < 2 ^ 64 := h fuel p hpow
  simp only [UInt64.toNat_add, UInt64.toNat_mul, UInt32.toNat_toUInt64]
  rw [Nat.mod_eq_of_lt (a := time.toNat * p.toNat) (by omega), Nat.mod_eq_of_lt hfits]

theorem fits_of_le (h : time.toNat ≤ 51) (id : UInt32) : Fits time id := by
  intro fuel pow _
  have hpow := pow.toNat_lt
  have hid := id.toNat_lt
  have hmul : time.toNat * pow.toNat ≤ 51 * pow.toNat := Nat.mul_le_mul_right _ h
  have hsize : UInt64.size = 2 ^ 64 := rfl
  omega

/-- Timestamps order the writes of a thread `i` and the later ones of a thread `j`, and tell
their writes apart. -/
structure OrderedWrites (i j : UInt32) : Prop where
  later : ∀ t t' : UInt64, t < t' → Fits t i → Fits t' j →
    ∃ v v', Yields t i v ∧ Yields t' j v' ∧ v < v'
  apart : i ≠ j → ∀ t : UInt64, Fits t i → Fits t j → ∃ v v', Yields t i v ∧ Yields t j v' ∧ v ≠ v'

/-- The loop stops for both ids, and `j` is not below a scale that `i` has reached. -/
structure ScalesOrdered (i j : UInt32) : Prop where
  left : i < maxScale
  right : j < maxScale
  reached : ∀ b ∈ scales, b ≤ i → b ≤ j

theorem exists_scale_iff : (∃ p, Scale id p) ↔ id < maxScale := by
  rw [← exists_stops_iff]
  constructor
  · rintro ⟨p, hp⟩
    by_contra hnone
    rw [exists_stops_iff, UInt32.not_lt] at hnone
    obtain ⟨k, rfl, -⟩ := mem_scales_iff.mp hp.mem
    exact UInt32.not_lt.mpr (UInt32.le_trans (power_le_maxScale k) hnone) hp.lt
  · rintro ⟨k, hk⟩
    exact ⟨_, hk.scale⟩

theorem Scale.le_iff (hp : Scale i p) (hq : Scale j q) : p ≤ q ↔ ∀ b ∈ scales, b ≤ i → b ≤ j := by
  constructor
  · intro hle b hb hi
    exact hq.least b hb (UInt32.lt_of_lt_of_le (UInt32.lt_of_le_of_lt hi hp.lt) hle)
  · intro h
    by_contra hlt
    have hqp := UInt32.not_le.mp hlt
    exact UInt32.not_le.mpr hq.lt (h q hq.mem (hp.least q hq.mem hqp))

theorem lt_of_scale_le {t t' i j p q : Nat} (ht : t < t') (hi : i < p) (hpq : p ≤ q) :
    t * p + i < t' * q + j :=
  calc t * p + i < t * p + p := Nat.add_lt_add_left hi _
    _ = (t + 1) * p := (Nat.succ_mul t p).symm
    _ ≤ t' * q := Nat.mul_le_mul ht hpq
    _ ≤ t' * q + j := Nat.le_add_right _ _

theorem ScalesOrdered.lt {t t' v' : UInt64} (h : ScalesOrdered i j) (ht : t < t')
    (hfit : Fits t i) (hfit' : Fits t' j) (hv : Yields t i v) (hv' : Yields t' j v') : v < v' := by
  obtain ⟨p, hp, rfl⟩ := yields_iff.mp hv
  obtain ⟨q, hq, rfl⟩ := yields_iff.mp hv'
  have hpq := (hp.le_iff hq).mpr h.reached
  rw [UInt64.lt_iff_toNat_lt, hfit.toNat_eq hp, hfit'.toNat_eq hq]
  exact lt_of_scale_le (UInt64.lt_iff_toNat_lt.mp ht) (UInt32.lt_iff_toNat_lt.mp hp.lt)
    (UInt32.le_iff_toNat_le.mp hpq)

theorem scales_apart (hp : p ∈ scales) (hq : q ∈ scales) (h : q < p) :
    52 * q.toNat ≤ 50 * p.toNat := by
  have hall : (scales.all fun p => scales.all fun q =>
      decide (q < p → 52 * q.toNat ≤ 50 * p.toNat)) = true := by decide
  exact of_decide_eq_true (List.all_eq_true.mp (List.all_eq_true.mp hall p hp) q hq) h

theorem Scale.apart (hp : Scale i p) (hq : Scale j q) (hne : i ≠ j) (t : Nat) :
    t * p.toNat + i.toNat ≠ t * q.toNat + j.toNat := by
  wlog hpq : p ≤ q generalizing i j p q
  · exact (this hq hp hne.symm (UInt32.le_of_lt (UInt32.not_le.mp hpq))).symm
  by_cases heq : p = q
  · rw [heq]
    intro h
    exact hne (UInt32.toNat_inj.mp (Nat.add_left_cancel h))
  · -- the id with the greater factor is the greater one
    have hlt := UInt32.lt_of_le_of_ne hpq heq
    have hij := UInt32.lt_of_lt_of_le hp.lt (hq.least p hp.mem hlt)
    rw [UInt32.lt_iff_toNat_lt] at hij
    have hmul := Nat.mul_le_mul_left t (UInt32.le_iff_toNat_le.mp hpq)
    omega

/-- **Timestamps order writes** of two threads just if the loop stops for both ids and the
second thread is not in a lower scale. -/
theorem orderedWrites_iff (i j : UInt32) : OrderedWrites i j ↔ ScalesOrdered i j := by
  constructor
  · intro h
    have hfit : Fits 50 i := fits_of_le (by decide) i
    have hfit' : Fits 51 j := fits_of_le (by decide) j
    obtain ⟨v, v', hv, hv', hlt⟩ := h.later 50 51 (by decide) hfit hfit'
    obtain ⟨p, hp, rfl⟩ := yields_iff.mp hv
    obtain ⟨q, hq, rfl⟩ := yields_iff.mp hv'
    refine ⟨exists_scale_iff.mp ⟨p, hp⟩, exists_scale_iff.mp ⟨q, hq⟩, (hp.le_iff hq).mp ?_⟩
    by_contra hqp
    have hfar := scales_apart hp.mem hq.mem (UInt32.not_le.mp hqp)
    rw [UInt64.lt_iff_toNat_lt, hfit.toNat_eq hp, hfit'.toNat_eq hq] at hlt
    have hj := UInt32.lt_iff_toNat_lt.mp hq.lt
    change 50 * p.toNat + i.toNat < 51 * q.toNat + j.toNat at hlt
    omega
  · intro h
    obtain ⟨p, hp⟩ := exists_scale_iff.mpr h.left
    obtain ⟨q, hq⟩ := exists_scale_iff.mpr h.right
    have hi : ∀ t, Yields t i (t * p.toUInt64 + i.toUInt64) := fun t =>
      yields_iff.mpr ⟨p, hp, rfl⟩
    have hj : ∀ t, Yields t j (t * q.toUInt64 + j.toUInt64) := fun t =>
      yields_iff.mpr ⟨q, hq, rfl⟩
    constructor
    · intro t t' ht hfit hfit'
      exact ⟨_, _, hi t, hj t', h.lt ht hfit hfit' (hi t) (hj t')⟩
    · intro hne t hfit hfit'
      refine ⟨_, _, hi t, hj t, ?_⟩
      rw [ne_eq, ← UInt64.toNat_inj, hfit.toNat_eq hp, hfit'.toNat_eq hq]
      exact hp.apart hq hne t.toNat

/-- Thread 10 is ahead of thread 0: it has timestamp 110 at time 1, and thread 0 has
timestamp 20 at time 2. -/
theorem longer_id_is_ahead : ¬ ∀ i j : UInt32, OrderedWrites i j := by
  intro h
  obtain ⟨v, v', hv, hv', hlt⟩ := (h 10 0).later 1 2 (by decide) (fits_of_le (by decide) 10)
    (fits_of_le (by decide) 0)
  obtain ⟨p, hp, rfl⟩ := yields_iff.mp hv
  obtain ⟨q, hq, rfl⟩ := yields_iff.mp hv'
  have hten : Scale 10 100 := raisePow_eq_some_iff.mp ⟨2, by decide⟩
  have hzero : Scale 0 10 := raisePow_eq_some_iff.mp ⟨1, by decide⟩
  obtain rfl := hp.unique hten
  obtain rfl := hq.unique hzero
  exact absurd hlt (by decide)

end Testbed.Anna
