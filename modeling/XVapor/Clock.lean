import XVapor.Timeout

/-!
# Clocks

`sys_clock_gettime` and `sys_gettimeofday` (`sysother.c`) convert the time counter. `TIME2NS`
(`timer.h`) multiplies in 64 bits before it divides, so the nanoseconds are right up to the first
wrap of the product, 1475 seconds after the counter starts.

## Main results

* `clock_iff`: two readings are right and in order if and only if the later is before the wrap.
-/

namespace XVapor.Clock

open Timeout (Timespec)

/-- In the QEMU build. -/
def CLK_FREQ : ℕ := 12500000

def time2ns (time : ℕ) : ℕ :=
  time * 1000 % 2 ^ 64 * 1000 % 2 ^ 64 * 1000 % 2 ^ 64 / CLK_FREQ

/-- The macro reads the counter twice, once for each field. -/
def time2timespec (time time' : ℕ) : Timespec :=
  ⟨time / CLK_FREQ, time2ns time' % (1000 * 1000 * 1000)⟩

/-- What `sys_clock_gettime` copies out, at a value of the counter. -/
def sysClockGettime (x : ℕ) : Timespec := time2timespec x x

/-- The seconds and microseconds of `sys_gettimeofday`. -/
def sysGettimeofday (t : ℕ) : ℕ × ℕ :=
  (t / CLK_FREQ, t % CLK_FREQ * 1000000 % 2 ^ 64 / CLK_FREQ)

/-- The time at `x` is right, and the two calls agree. -/
structure Shows (x : ℕ) : Prop where
  sec : (sysClockGettime x).sec = x / CLK_FREQ
  nsec : (sysClockGettime x).nsec = x % CLK_FREQ * 10 ^ 9 / CLK_FREQ
  nsec_lt : (sysClockGettime x).nsec < 10 ^ 9
  agrees : sysGettimeofday x = ((sysClockGettime x).sec, (sysClockGettime x).nsec / 1000)

/-- `q` wraps would have to be made up for by a multiple of `5 ^ 17`. -/
theorem no_multiple {q e k : ℕ} (hpos : 0 < q) (hq : q < 5 * 10 ^ 8) (he : e < 763) :
    762939453125 * k ≠ q * 2 ^ 50 + e := by
  have hlarge : ∀ e < 763, 0 < e → 5 * 10 ^ 8 ≤ e * 31181545751 % 762939453125 := by
    decide +kernel
  intro h
  -- the factor of `e` is minus the inverse of `2 ^ 50`
  have hsum : e * 31181545751 + 762939453125 * (46015839543309 * q) =
      762939453125 * (31181545751 * k) + q := by omega
  have hmod : e * 31181545751 % 762939453125 = q := by
    rw [← Nat.add_mul_mod_self_left _ _ (46015839543309 * q), hsum, Nat.mul_add_mod,
      Nat.mod_eq_of_lt (by omega)]
  rcases Nat.eq_zero_or_pos e with rfl | he0
  · rw [Nat.zero_mul, Nat.zero_mod] at hmod
    exact Nat.ne_of_lt hpos hmod
  · exact absurd (hmod ▸ hlarge e he he0) (Nat.not_le.2 hq)

variable {x y : ℕ}

/-- **The clock is right if and only if** the product does not wrap. -/
theorem shows_iff (hx : x < 2 ^ 63) : Shows x ↔ x * 10 ^ 9 < 2 ^ 64 := by
  have hnsec : (sysClockGettime x).nsec = x * 10 ^ 9 % 2 ^ 64 / 12500000 % 10 ^ 9 := by
    simp only [sysClockGettime, time2timespec, time2ns, CLK_FREQ, Nat.mod_mul_mod,
      Nat.mul_assoc, Nat.reduceMul, Nat.reducePow]
  constructor
  · intro h
    have hright := hnsec.symm.trans h.nsec
    simp only [CLK_FREQ] at hright
    refine Nat.lt_of_not_le fun hwrap => ?_
    -- the product is `q * 2 ^ 64 + r`, and `10 ^ 9 * CLK_FREQ` is `2 ^ 14 * 5 ^ 17`
    obtain ⟨q, hq⟩ : ∃ q, x * 10 ^ 9 / 2 ^ 64 = q := ⟨_, rfl⟩
    obtain ⟨r, hr⟩ : ∃ r, x * 10 ^ 9 % 2 ^ 64 = r := ⟨_, rfl⟩
    rw [hr] at hright
    refine no_multiple (q := q) (e := r % 12500000 / 2 ^ 14)
      (k := x / 12500000 - r / 12500000 / 10 ^ 9) (by omega) (by omega) (by omega) (by omega)
  · intro h
    rw [Nat.mod_eq_of_lt h] at hnsec
    have hmod := Nat.mod_lt x (show 0 < 12500000 by decide)
    have hns : (sysClockGettime x).nsec = 80 * (x % 12500000) := by omega
    refine ⟨rfl, ?_, by omega, Prod.ext rfl ?_⟩
    · rw [CLK_FREQ]
      omega
    · simp only [sysGettimeofday, CLK_FREQ]
      rw [Nat.mod_eq_of_lt (Nat.lt_trans (Nat.mul_lt_mul_of_pos_right hmod (by decide)) (by decide))]
      omega

/-- **The clock is right at `x` and at `y`, and does not go back, if and only if** the product
does not wrap at `y`. -/
theorem clock_iff (hxy : x ≤ y) (hy : y < 2 ^ 63) :
    Shows x ∧ Shows y ∧ ((sysClockGettime x).sec < (sysClockGettime y).sec ∨
      (sysClockGettime x).sec = (sysClockGettime y).sec ∧
        (sysClockGettime x).nsec ≤ (sysClockGettime y).nsec) ↔ y * 10 ^ 9 < 2 ^ 64 := by
  refine ⟨fun h => (shows_iff hy).1 h.2.1, fun h => ?_⟩
  have hx := (shows_iff (Nat.lt_of_le_of_lt hxy hy)).2
    (Nat.lt_of_le_of_lt (Nat.mul_le_mul_right _ hxy) h)
  have hy := (shows_iff hy).2 h
  refine ⟨hx, hy, ?_⟩
  rw [hx.sec, hx.nsec, hy.sec, hy.nsec, CLK_FREQ]
  omega

/-- After one second, and after two and a half. -/
theorem clock_second : Shows 12500000 ∧ Shows 31250000 := by
  obtain ⟨hx, hy, -⟩ :=
    (clock_iff (x := 12500000) (y := 31250000) (by decide) (by decide)).2 (by decide)
  exact ⟨hx, hy⟩

/-- One tick later, the clock is back by most of a second. -/
theorem clock_goes_back : ¬ Shows 18446744074 ∧
    (sysClockGettime 18446744073).sec = (sysClockGettime 18446744074).sec ∧
      (sysClockGettime 18446744074).nsec < (sysClockGettime 18446744073).nsec :=
  ⟨fun h => absurd h.nsec (by decide), by decide, by decide⟩

end XVapor.Clock
