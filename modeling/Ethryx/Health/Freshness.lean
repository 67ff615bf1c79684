import Ethryx.Health.Probe
import Mathlib

/-!
# Freshness in unbounded integers

* `toNat_saturatingSub`, `toNat_saturatingAdd`, `toNat_saturatingMul`: a
  saturating operation is the exact one, cut off at the ends of 64 bits;
* `slotAge_exact`, `blockAge_exact`: an age is cut off at zero only;
* `freshness_exact`: what the two freshness checks compare.
-/

namespace Health

/-! ## Saturation -/

def maxWord : Nat := 2 ^ 64 - 1

theorem toNat_le_maxWord (a : UInt64) : a.toNat ≤ maxWord := by
  have := a.toNat_lt
  unfold maxWord
  omega

theorem toNat_top : (UInt64.ofNat (2 ^ 64 - 1)).toNat = maxWord := rfl

theorem toNat_saturatingSub (a b : UInt64) : (saturatingSub a b).toNat = a.toNat - b.toNat := by
  unfold saturatingSub
  split
  · next h => exact UInt64.toNat_sub_of_le _ _ h
  · next h =>
    rw [UInt64.le_iff_toNat_le] at h
    rw [UInt64.toNat_zero]
    omega

theorem toNat_saturatingAdd (a b : UInt64) :
    (saturatingAdd a b).toNat = min (a.toNat + b.toNat) maxWord := by
  unfold saturatingAdd
  split
  · next h =>
    rw [UInt64.toNat_add, Nat.mod_eq_of_lt h]
    unfold maxWord
    omega
  · next h =>
    rw [toNat_top]
    unfold maxWord
    omega

theorem toNat_saturatingMul (a b : UInt64) :
    (saturatingMul a b).toNat = min (a.toNat * b.toNat) maxWord := by
  unfold saturatingMul
  split
  · next h =>
    rw [UInt64.toNat_mul, Nat.mod_eq_of_lt h]
    unfold maxWord
    omega
  · next h =>
    rw [toNat_top]
    unfold maxWord
    omega

/-! ## Ages -/

/-- The seconds since `time`, none before it. -/
def age (time now : Int) : Int := max 0 (now - time)

/-- When a slot starts. -/
def slotStart (headSlot genesis secondsPerSlot : UInt64) : Int :=
  genesis.toNat + headSlot.toNat * secondsPerSlot.toNat

theorem blockAge_exact (timestamp now : UInt64) :
    ((saturatingSub now timestamp).toNat : Int) = age timestamp.toNat now.toNat := by
  rw [toNat_saturatingSub]
  unfold age
  omega

/-- A start beyond 64 bits lies ahead of every clock. -/
theorem slotAge_exact (headSlot genesis secondsPerSlot now : UInt64) :
    ((slotAge headSlot genesis secondsPerSlot now).toNat : Int) =
      age (slotStart headSlot genesis secondsPerSlot) now.toNat := by
  have clock := toNat_le_maxWord now
  have start : slotStart headSlot genesis secondsPerSlot =
      ((genesis.toNat + headSlot.toNat * secondsPerSlot.toNat : Nat) : Int) := by
    simp [slotStart]
  rw [slotAge, toNat_saturatingSub, toNat_saturatingAdd, toNat_saturatingMul, start]
  unfold age
  generalize headSlot.toNat * secondsPerSlot.toNat = slots
  omega

/-! ## The checks -/

theorem checkElBlockFresh_ok (block : ElBlockResult) (maxAge now : UInt64) :
    (checkElBlockFresh (.ok block) maxAge now).ok = true ↔
      saturatingSub now block.timestamp ≤ maxAge := by
  by_cases h : saturatingSub now block.timestamp ≤ maxAge <;> simp [checkElBlockFresh, h]

theorem checkClSlotFresh_ok (s : ClStatus) (genesis secondsPerSlot maxAge now : UInt64) :
    (checkClSlotFresh (.ok s) genesis secondsPerSlot maxAge now).ok = true ↔
      genesis = 0 ∨ slotAge s.headSlot genesis secondsPerSlot now ≤ maxAge := by
  by_cases hg : genesis = 0
  · simp [checkClSlotFresh, hg]
  · by_cases h : slotAge s.headSlot genesis secondsPerSlot now ≤ maxAge <;>
      simp [checkClSlotFresh, hg, h]

/-- Ages and thresholds compare as integers do. -/
theorem age_le {a maxAge : UInt64} {exact : Int} (h : (a.toNat : Int) = exact) :
    a ≤ maxAge ↔ exact ≤ maxAge.toNat := by
  rw [UInt64.le_iff_toNat_le, ← h]
  omega

/-- Neither an age nor its verdict shows the width of the words, whatever the
upstreams and the configuration supply. -/
theorem freshness_exact (block : ElBlockResult) (s : ClStatus)
    (genesis secondsPerSlot elMaxAge clMaxAge now : UInt64) :
    let blockAge := age block.timestamp.toNat now.toNat
    let headAge := age (slotStart s.headSlot genesis secondsPerSlot) now.toNat
    ((saturatingSub now block.timestamp).toNat : Int) = blockAge ∧
    ((slotAge s.headSlot genesis secondsPerSlot now).toNat : Int) = headAge ∧
    ((checkElBlockFresh (.ok block) elMaxAge now).ok = true ↔ blockAge ≤ elMaxAge.toNat) ∧
    ((checkClSlotFresh (.ok s) genesis secondsPerSlot clMaxAge now).ok = true ↔
      genesis = 0 ∨ headAge ≤ clMaxAge.toNat) := by
  intro blockAge headAge
  have exactBlock := blockAge_exact block.timestamp now
  have exactHead := slotAge_exact s.headSlot genesis secondsPerSlot now
  refine ⟨exactBlock, exactHead, ?_, ?_⟩
  · rw [checkElBlockFresh_ok, age_le exactBlock]
  · rw [checkClSlotFresh_ok, age_le exactHead]

end Health
