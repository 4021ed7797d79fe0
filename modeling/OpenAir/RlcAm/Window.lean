import OpenAir.RlcAm.Pdu

/-! Sequence number comparisons relative to the lower edge of a window, after
`rlc_am_windows.c`. -/

set_option autoImplicit false

namespace OpenAir.RlcAm

/-- Distance of a sequence number from a window's lower edge: the difference
is stored in a `rlc_usn_t` and then reduced. -/
def shiftedSn (lowerEdge sn : Nat) : Nat :=
  ((((sn : Int) - lowerEdge) % 2 ^ 16) % rlcAmSnModulo).toNat

/-- `rlc_am_in_tx_window` and `rlc_am_in_rx_window`. -/
def inWindow (lowerEdge upperEdge sn : Nat) : Bool :=
  decide (sn < rlcAmSnModulo) && decide (shiftedSn lowerEdge sn < shiftedSn lowerEdge upperEdge)

/-- `rlc_am_sn_gte_vr_h` and `rlc_am_sn_gte_vr_x`. -/
def snGte (lowerEdge bound sn : Nat) : Bool :=
  decide (sn < rlcAmSnModulo) && decide (shiftedSn lowerEdge bound ≤ shiftedSn lowerEdge sn)

def snGt (lowerEdge bound sn : Nat) : Bool :=
  decide (sn < rlcAmSnModulo) && decide (shiftedSn lowerEdge bound < shiftedSn lowerEdge sn)

/-- `(sn + 1) & RLC_AM_SN_MASK`. -/
def nextSn (sn : Nat) : Nat := (sn + 1) % rlcAmSnModulo

theorem shiftedSn_eq (lowerEdge sn : Nat) (edgeBound : lowerEdge < rlcAmSnModulo) :
    shiftedSn lowerEdge sn = (sn + rlcAmSnModulo - lowerEdge) % rlcAmSnModulo := by
  unfold shiftedSn
  simp only [rlcAmSnModulo] at *
  omega

theorem shiftedSn_lt (lowerEdge sn : Nat) : shiftedSn lowerEdge sn < rlcAmSnModulo := by
  unfold shiftedSn
  simp only [rlcAmSnModulo]
  omega

theorem shiftedSn_of_ge {lowerEdge sn : Nat} (snBound : sn < rlcAmSnModulo)
    (above : lowerEdge ≤ sn) : shiftedSn lowerEdge sn = sn - lowerEdge := by
  unfold shiftedSn
  simp only [rlcAmSnModulo] at *
  omega

theorem shiftedSn_of_lt {lowerEdge sn : Nat} (edgeBound : lowerEdge < rlcAmSnModulo)
    (below : sn < lowerEdge) :
    shiftedSn lowerEdge sn = sn + rlcAmSnModulo - lowerEdge := by
  unfold shiftedSn
  simp only [rlcAmSnModulo] at *
  omega

theorem shiftedSn_injective {lowerEdge left right : Nat} (edgeBound : lowerEdge < rlcAmSnModulo)
    (leftBound : left < rlcAmSnModulo) (rightBound : right < rlcAmSnModulo)
    (same : shiftedSn lowerEdge left = shiftedSn lowerEdge right) : left = right := by
  rw [shiftedSn_eq lowerEdge left edgeBound, shiftedSn_eq lowerEdge right edgeBound] at same
  simp only [rlcAmSnModulo] at *
  omega

/-- The distance of the number of PDU `index` from the number of PDU `base`,
when the two are less than a whole cycle apart. -/
theorem shiftedSn_of_index {base index : Nat} (notBelow : base ≤ index)
    (near : index < base + rlcAmSnModulo) :
    shiftedSn (base % rlcAmSnModulo) (index % rlcAmSnModulo) = index - base := by
  unfold shiftedSn
  simp only [rlcAmSnModulo] at *
  omega

theorem shiftedSn_upperEdge (lowerEdge : Nat) :
    shiftedSn lowerEdge ((lowerEdge + rlcAmWindowSize) % rlcAmSnModulo) = rlcAmWindowSize := by
  unfold shiftedSn
  simp only [rlcAmSnModulo, rlcAmWindowSize]
  omega

theorem inWindow_iff (lowerEdge sn : Nat) :
    inWindow lowerEdge ((lowerEdge + rlcAmWindowSize) % rlcAmSnModulo) sn = true ↔
      sn < rlcAmSnModulo ∧ shiftedSn lowerEdge sn < rlcAmWindowSize := by
  simp [inWindow, shiftedSn_upperEdge]

end OpenAir.RlcAm
