/-
  File:      Nfp/Lib/Wrap.lean
  Subject:   A COUNTER THAT WRAPS. Nothing here names a program: a counter starts at 0, goes on by
             `step` and wraps at `modulus`; somebody waits until it is over a limit.

  * `tick` -- the counter after `n` steps; `peak` -- the highest value it takes between two wraps;
  * `exists_over_iff` -- it is over the limit at some time just if the limit is more than the
    greatest common divisor below the modulus;
  * `FirstOver` -- the first time it is; `FirstOver.elapsed_iff`, `FirstOver.wraps_iff` -- what has
    gone by then, in terms of the wraps, and how many of those there were.
-/
import Mathlib.Data.Int.GCD

namespace Nfp.Lib

section Wrap

variable (step modulus : Nat)

/-- The counter after `n` steps. -/
def tick (n : Nat) : Nat := step * n % modulus

/-- The highest value of the counter when it has wrapped `k` times. -/
def peak (k : Nat) : Nat := modulus - 1 - ((k + 1) * modulus - 1) % step

/-- The counter is over `limit` after `n` steps and was not before. -/
structure FirstOver (limit n : Nat) : Prop where
  above : limit < tick step modulus n
  first : ∀ m < n, tick step modulus m ≤ limit

end Wrap

section Over

variable {step modulus limit : Nat}

theorem tick_lt (hmod : 0 < modulus) (n : Nat) : tick step modulus n < modulus :=
  Nat.mod_lt _ hmod

theorem gcd_dvd_tick (n : Nat) : Nat.gcd step modulus ∣ tick step modulus n :=
  (Nat.dvd_mod_iff (Nat.gcd_dvd_right step modulus)).mpr
    (Dvd.dvd.mul_right (Nat.gcd_dvd_left step modulus) n)

/-- The counter takes the last value its steps allow. -/
theorem exists_tick_last (h : Nat.gcd step modulus < modulus) :
    ∃ n, tick step modulus n = modulus - Nat.gcd step modulus := by
  obtain ⟨m, -, hm⟩ := Nat.exists_mul_mod_eq_gcd h
  obtain ⟨q, hq⟩ := Nat.gcd_dvd_right step modulus
  refine ⟨m * (q - 1), ?_⟩
  have hgcd : 0 < Nat.gcd step modulus :=
    Nat.gcd_pos_of_pos_right step (Nat.lt_of_le_of_lt (Nat.zero_le _) h)
  have hlast : Nat.gcd step modulus * (q - 1) = modulus - Nat.gcd step modulus := by
    rw [Nat.mul_sub_one, ← hq]
  have hlt : Nat.gcd step modulus * (q - 1) < modulus := by
    rw [hlast]
    omega
  unfold tick
  rw [← Nat.mul_assoc, ← Nat.mod_mul_mod, hm, Nat.mod_eq_of_lt hlt, hlast]

/-- **When the counter is ever over the limit.** -/
theorem exists_over_iff (hmod : 0 < modulus) :
    (∃ n, limit < tick step modulus n) ↔ limit + Nat.gcd step modulus < modulus := by
  constructor
  · rintro ⟨n, hn⟩
    have hlt := @tick_lt step modulus hmod n
    -- both are multiples of the greatest common divisor, so they differ by one at least
    have hdvd : Nat.gcd step modulus ∣ modulus - tick step modulus n :=
      Nat.dvd_sub (Nat.gcd_dvd_right step modulus) (gcd_dvd_tick n)
    have hle := Nat.le_of_dvd (by omega) hdvd
    omega
  · intro h
    obtain ⟨n, hn⟩ := @exists_tick_last step modulus (by omega)
    exact ⟨n, by omega⟩

/-- No value of the counter is over the peak between the same wraps. -/
theorem tick_le_peak (hstep : 0 < step) (hmod : 0 < modulus) (n : Nat) :
    tick step modulus n ≤ peak step modulus (step * n / modulus) := by
  have hsplit := Nat.div_add_mod (step * n) modulus
  have hlt := Nat.mod_lt (step * n) hmod
  unfold tick peak
  generalize step * n / modulus = k at hsplit ⊢
  have htop : step * n ≤ (k + 1) * modulus - 1 := by
    rw [Nat.succ_mul, Nat.mul_comm k]
    omega
  have hlast : step * n ≤ step * (((k + 1) * modulus - 1) / step) := by
    refine Nat.mul_le_mul_left step ?_
    rw [Nat.le_div_iff_mul_le hstep, Nat.mul_comm]
    exact htop
  have htopSplit := Nat.div_add_mod ((k + 1) * modulus - 1) step
  rw [Nat.succ_mul, Nat.mul_comm k] at htop hlast htopSplit ⊢
  omega

/-- The counter gets to every peak that is over something. -/
theorem exists_tick_peak (hmod : 0 < modulus) {k : Nat} (h : limit < peak step modulus k) :
    ∃ n, tick step modulus n = peak step modulus k ∧ step * n < (k + 1) * modulus := by
  refine ⟨((k + 1) * modulus - 1) / step, ?_⟩
  have hsplit := Nat.div_add_mod ((k + 1) * modulus - 1) step
  unfold peak at h ⊢
  unfold tick
  generalize ((k + 1) * modulus - 1) % step = r at h hsplit ⊢
  have hpos : 0 < (k + 1) * modulus := Nat.mul_pos k.succ_pos hmod
  have hvalue : step * (((k + 1) * modulus - 1) / step) = (modulus - 1 - r) + k * modulus := by
    rw [Nat.succ_mul] at hsplit hpos ⊢
    omega
  rw [hvalue, Nat.add_mul_mod_self_right, Nat.mod_eq_of_lt (by omega)]
  refine ⟨rfl, ?_⟩
  rw [Nat.succ_mul]
  omega

/-- **What has gone by** when the counter is over the limit: `q` rounds and the limit just if it
    has wrapped `q` times. -/
theorem FirstOver.elapsed_iff (hmod : 0 < modulus) {n : Nat} (h : FirstOver step modulus limit n)
    (q : Nat) : q * modulus + limit ≤ step * n ↔ q ≤ step * n / modulus := by
  have hsplit := Nat.div_add_mod (step * n) modulus
  have hover : limit < step * n % modulus := h.above
  constructor
  · intro hle
    rw [Nat.le_div_iff_mul_le hmod]
    omega
  · intro hq
    have hmul := Nat.mul_le_mul_right modulus hq
    rw [Nat.mul_comm modulus] at hsplit
    omega

/-- **How often it has wrapped by then**: `q` times at least just if none of the first `q` peaks is
    over the limit. -/
theorem FirstOver.wraps_iff (hstep : 0 < step) (hmod : 0 < modulus) {n : Nat}
    (h : FirstOver step modulus limit n) (q : Nat) :
    q ≤ step * n / modulus ↔ ∀ k < q, peak step modulus k ≤ limit := by
  constructor
  · intro hq k hk
    by_contra hnot
    obtain ⟨m, hm, hbound⟩ := @exists_tick_peak step modulus limit hmod k (Nat.lt_of_not_le hnot)
    -- that peak comes before the wraps of `n`, hence before `n`
    have hwraps : (k + 1) * modulus ≤ step * n :=
      (Nat.le_div_iff_mul_le hmod).mp (Nat.le_trans hk hq)
    have hlt : m < n := by
      by_contra hge
      have := Nat.mul_le_mul_left step (Nat.le_of_not_lt hge)
      omega
    have := h.first m hlt
    omega
  · intro hpeaks
    by_contra hnot
    have hpeak := hpeaks _ (Nat.lt_of_not_le hnot)
    have htick := tick_le_peak hstep hmod n
    have hover := h.above
    omega

end Over

end Nfp.Lib
