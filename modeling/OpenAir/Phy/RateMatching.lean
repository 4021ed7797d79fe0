import OpenAir.Base.Wiring

/-! The rate matching of the turbo coded blocks around the circular buffer
(`lte_rate_matching_turbo`, `lte_rate_matching_turbo_rx`). -/

set_option autoImplicit false

namespace OpenAir.Phy

open OpenAir.Base List

def lteNull : UInt8 := 2

/-- The arguments of the rate matchers that are the same for all code blocks. -/
structure RateMatching where
  g : Nat
  c : Nat
  nsoft : Nat
  mdlharq : Nat
  kmimo : Nat
  rvidx : Nat
  qm : Nat
  nl : Nat

namespace RateMatching

variable (matching : RateMatching)

/-- `Ncb`, for a sub-block matrix of `rtc` rows. -/
def ncb (rtc : Nat) : Nat :=
  if 0 < matching.mdlharq then
    min (matching.nsoft / matching.kmimo / min 8 matching.mdlharq / matching.c) (3 * (rtc * 32))
  else 3 * (rtc * 32)

def gp : Nat := matching.g / matching.nl / matching.qm

/-- `E`, for code block `r`. -/
def e (r : Nat) : Nat :=
  if r < matching.c - matching.gp % matching.c then
    matching.nl * matching.qm * (matching.gp / matching.c)
  else
    matching.nl * matching.qm *
      ((if matching.gp % matching.c = 0 then 0 else 1) + matching.gp / matching.c)

/-- The first `ind`. -/
def start (rtc : Nat) : Nat :=
  rtc * (2 + matching.rvidx *
    ((if matching.ncb rtc % (rtc * 8) = 0 then 0 else 1) + matching.ncb rtc / (rtc * 8)) * 2)

/-- `lte_rate_matching_turbo`; a soft buffer without room for the block is fatal. -/
def lteRateMatchingTurbo {σ : Type} [DecidableEq σ] (null : σ) (rtc r : Nat) (w : Nat → σ) :
    Option (Nat × List σ) :=
  if matching.ncb rtc < 3 * rtc * 32 then none
  else (ringWalk (w · = null) (matching.ncb rtc) (matching.start rtc) (matching.e r)).map
    fun places => (matching.e r, places.map w)

/-- `lte_rate_matching_turbo_rx`, in 16-bit words. -/
def lteRateMatchingTurboRx (rtc r : Nat) (w : Nat → Int) (dummy : Nat → UInt8) (soft : List Int)
    (clear : Bool) : Option (Nat × (Nat → Int)) :=
  if matching.kmimo = 0 ∨ matching.c = 0 ∨ matching.qm = 0 ∨ matching.nl = 0 then none
  else (ringWalk (dummy · = lteNull) (matching.ncb rtc) (matching.start rtc) (matching.e r)).map
    fun places => (matching.e r, accumulate 65536
      (fun place => if clear ∧ place < matching.ncb rtc then 0 else w place) places soft)

variable {matching}

theorem e_sum (count : Nat) (within : count ≤ matching.c) :
    ((range count).map matching.e).sum
      = matching.nl * matching.qm * (matching.gp / matching.c * count
        + (count - (matching.c - matching.gp % matching.c))) := by
  induction count with
  | zero => simp
  | succ count hypothesis =>
    rw [range_succ, map_append, sum_append, hypothesis (by omega), map_singleton, sum_singleton, e]
    split
    next little =>
      rw [← Nat.mul_add, Nat.mul_succ]
      congr 1
      omega
    next much =>
      rw [← Nat.mul_add, Nat.mul_succ, if_neg (by omega)]
      congr 1
      omega

variable (r : Nat)

theorem dvd_e : matching.nl * matching.qm ∣ matching.e r := by
  rw [e]
  split <;> exact Nat.dvd_mul_right ..

theorem e_bounds : matching.nl * matching.qm * (matching.gp / matching.c) ≤ matching.e r ∧
    matching.e r ≤ matching.nl * matching.qm * (matching.gp / matching.c)
      + matching.nl * matching.qm := by
  rw [e]
  split
  · omega
  · rw [Nat.mul_add]
    split <;> omega

theorem lteRateMatchingTurbo_walk {σ : Type} [DecidableEq σ] {null : σ} {rtc : Nat} {w : Nat → σ}
    {out : Nat × List σ} (returned : matching.lteRateMatchingTurbo null rtc r w = some out) :
    ∃ places, ringWalk (w · = null) (matching.ncb rtc) (matching.start rtc) (matching.e r) =
      some places ∧ out = (matching.e r, places.map w) := by
  rw [lteRateMatchingTurbo] at returned
  split at returned
  · cases returned
  · obtain ⟨places, walked, rfl⟩ := Option.map_eq_some_iff.mp returned
    exact ⟨places, walked, rfl⟩

def three : RateMatching where
  g := 10
  c := 3
  nsoft := 1827072
  mdlharq := 8
  kmimo := 1
  rvidx := 0
  qm := 2
  nl := 1

end RateMatching

end OpenAir.Phy
