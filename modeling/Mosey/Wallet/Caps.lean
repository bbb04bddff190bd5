import Mathlib.Order.Defs.PartialOrder
import Mosey.Text

/-!
# Capability bits

Capabilities are a byte of flags. `subset` is the attenuation order every delegation hop must keep,
and `has` is the same order read from the other side. Both are decided bit by bit.
-/

namespace Mosey.Wallet

abbrev Caps := BitVec 8

def capWrite : Caps := 1

def capResize : Caps := 2

def capForge : Caps := 4

/-- The implicit caps of a session owner. -/
def allCaps : Caps := capWrite ||| capResize ||| capForge

namespace Caps

/-- `caps` grants every bit of `wanted`. -/
def has (caps wanted : Caps) : Bool := caps &&& wanted = wanted

/-- `caps` grants nothing beyond `limit`. -/
def subset (caps limit : Caps) : Bool := caps &&& ~~~limit = 0

/-- The rendering of the canonical delegation text. -/
def string (caps : Caps) : String :=
  let parts := (if caps.has capWrite then ["write"] else []) ++
    (if caps.has capResize then ["resize"] else []) ++
    (if caps.has capForge then ["forge"] else [])
  if parts = [] then "view-only" else String.intercalate ", " parts

/-- Capabilities are a subset if every bit of theirs is one of the limit. -/
theorem subset_iff {caps limit : Caps} :
    caps.subset limit = true ↔ ∀ index, caps.getLsbD index = true → limit.getLsbD index = true := by
  have hsubset : caps.subset limit = true ↔ caps &&& ~~~limit = 0 := by simp [subset]
  rw [hsubset]
  constructor
  · intro hzero index hbit
    have hlt : index < 8 := BitVec.lt_of_getLsbD hbit
    have hand : (caps &&& ~~~limit).getLsbD index = false := by
      rw [hzero]
      simp
    simpa [hbit, hlt] using hand
  · intro hbits
    apply BitVec.eq_of_getLsbD_eq
    intro index hlt
    have hbit := hbits index
    cases hcaps : caps.getLsbD index
    · simp [hcaps]
    · simp [hbit hcaps]

/-- To have a capability is to have it as a subset. -/
theorem has_iff_subset {caps wanted : Caps} : caps.has wanted = true ↔ wanted.subset caps = true := by
  have hhas : caps.has wanted = true ↔ caps &&& wanted = wanted := by simp [has]
  rw [hhas, subset_iff]
  constructor
  · intro heq index hbit
    rw [← heq] at hbit
    simp only [BitVec.getLsbD_and, Bool.and_eq_true] at hbit
    exact hbit.1
  · intro hbits
    apply BitVec.eq_of_getLsbD_eq
    intro index _
    have hbit := hbits index
    cases hwanted : wanted.getLsbD index
    · simp [hwanted]
    · simp [hwanted, hbit hwanted]

theorem subset_refl (caps : Caps) : caps.subset caps = true :=
  subset_iff.mpr fun _ hbit ↦ hbit

theorem subset_trans {first second third : Caps} (hleft : first.subset second = true)
    (hright : second.subset third = true) : first.subset third = true :=
  subset_iff.mpr fun index hbit ↦ subset_iff.mp hright index (subset_iff.mp hleft index hbit)

/-- Two sets of capabilities within each other are equal. -/
theorem subset_antisymm {first second : Caps} (hleft : first.subset second = true)
    (hright : second.subset first = true) : first = second := by
  apply BitVec.eq_of_getLsbD_eq
  intro index _
  have hforward := subset_iff.mp hleft index
  have hbackward := subset_iff.mp hright index
  cases hfirst : first.getLsbD index
  · cases hsecond : second.getLsbD index
    · rfl
    · rw [hbackward hsecond] at hfirst
      cases hfirst
  · exact (hforward hfirst).symm

theorem subset_or {first second limit : Caps} (hfirst : first.subset limit = true)
    (hsecond : second.subset limit = true) : subset (first ||| second) limit = true := by
  apply subset_iff.mpr
  intro index hbit
  rw [BitVec.getLsbD_or, Bool.or_eq_true] at hbit
  rcases hbit with hbit | hbit
  · exact subset_iff.mp hfirst index hbit
  · exact subset_iff.mp hsecond index hbit

/-- A limit has whatever its subsets have. -/
theorem has_of_subset {caps limit wanted : Caps} (hsubset : caps.subset limit = true)
    (hhas : caps.has wanted = true) : limit.has wanted = true :=
  has_iff_subset.mpr (subset_trans (has_iff_subset.mp hhas) hsubset)

end Caps

end Mosey.Wallet
