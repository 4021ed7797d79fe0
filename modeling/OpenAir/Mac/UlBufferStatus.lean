import OpenAir.Mac.UlschReception

/-! The eNB's estimate of what a UE has to send: `ul_buffer_info` of the four
groups and their total, over buffer status reports, SDUs and grants. -/

set_option autoImplicit false

namespace OpenAir.Mac

open UeEntry

/-- `schedule_ulsch_rnti` takes the size of the granted block off the total. -/
def UeEntry.granted (entry : UeEntry) (tbs : UInt32) : UeEntry :=
  { entry with
    ulTotalBuffer := if tbs < entry.ulTotalBuffer then entry.ulTotalBuffer - tbs else 0 }

inductive BufferEvent where
  | shortBsr (frame : UInt32) (bsr : BsrShort)
  | longBsr (frame : UInt32) (bsr : BsrLong)
  | sdu (lcid : Lcid) (length : UInt16)
  | grant (tbs : UInt32)

def UeEntry.step (entry : UeEntry) : BufferEvent → UeEntry
  | .shortBsr frame bsr => entry.shortReport frame bsr
  | .longBsr frame bsr => entry.longReport frame bsr
  | .sdu lcid length => entry.received lcid length
  | .grant tbs => entry.granted tbs

def BsrShort.size (bsr : BsrShort) : UInt32 := bsrTable.getD bsr.bufferSize 0

def BsrLong.sizes (bsr : BsrLong) (group : Fin 4) : UInt32 :=
  bsrTable.getD
    ([bsr.bufferSize0, bsr.bufferSize1, bsr.bufferSize2, bsr.bufferSize3].getD group 0) 0

def groupSum (sizes : Fin 4 → UInt32) : Nat :=
  (sizes 0).toNat + (sizes 1).toNat + (sizes 2).toNat + (sizes 3).toNat

def UeEntry.SizesReported (entry : UeEntry) : Prop :=
  ∀ group, (entry.ulBufferInfo group).toNat ≤ 300000

theorem bsrTable_le : ∀ index, (bsrTable.getD index 0).toNat ≤ 300000 := by
  intro index
  by_cases inside : index < 64
  · revert index
    decide
  · rw [List.getD_eq_default _ _ (by simpa [bsrTable] using inside)]
    decide

theorem UeEntry.longReport_ulBufferInfo (entry : UeEntry) (frame : UInt32) (bsr : BsrLong) :
    (entry.longReport frame bsr).ulBufferInfo = bsr.sizes := by
  funext group
  match group with
  | 0 | 1 | 2 | 3 => rfl

theorem UeEntry.SizesReported.step {entry : UeEntry} (bounded : entry.SizesReported)
    (event : BufferEvent) : (entry.step event).SizesReported := by
  intro group
  cases event with
  | shortBsr frame bsr =>
    simp only [UeEntry.step, shortReport, Function.update_apply]
    split
    · exact bsrTable_le _
    · exact bounded group
  | longBsr frame bsr =>
    rw [UeEntry.step, longReport_ulBufferInfo]
    exact bsrTable_le _
  | sdu lcid length =>
    have before := bounded (entry.lcgidMap lcid)
    simp only [UeEntry.step, received, Function.update_apply]
    split
    · split
      next enough => rw [UInt32.toNat_sub_of_le _ _ enough]; omega
      next => exact Nat.zero_le _
    · exact bounded group
  | grant tbs => exact bounded group

theorem UeEntry.toNat_groupReport (entry : UeEntry) (frame : UInt32) (group : Fin 4)
    (index : Fin 64) (room : entry.ulTotalBuffer.toNat + 300000 < 2 ^ 32) :
    (groupReport frame entry (group, index)).ulTotalBuffer.toNat =
      entry.ulTotalBuffer.toNat + (bsrTable.getD index 0).toNat -
        (entry.ulBufferInfo group).toNat := by
  have size := bsrTable_le index
  have sum : (entry.ulTotalBuffer + bsrTable.getD index 0).toNat =
      entry.ulTotalBuffer.toNat + (bsrTable.getD index 0).toNat := by
    rw [UInt32.toNat_add, Nat.mod_eq_of_lt (by omega)]
  simp only [groupReport]
  split
  next enough => rw [UInt32.toNat_sub_of_le _ _ enough, sum]
  next short =>
    rw [UInt32.le_iff_toNat_le, sum] at short
    exact (Nat.sub_eq_zero_of_le (by omega)).symm

theorem UeEntry.toNat_longReport {entry : UeEntry} (frame : UInt32) (bsr : BsrLong)
    (room : entry.ulTotalBuffer.toNat ≤ 1200000) :
    (entry.longReport frame bsr).ulTotalBuffer.toNat =
      entry.ulTotalBuffer.toNat + (bsr.sizes 0).toNat - (entry.ulBufferInfo 0).toNat +
        (bsr.sizes 1).toNat - (entry.ulBufferInfo 1).toNat +
        (bsr.sizes 2).toNat - (entry.ulBufferInfo 2).toNat +
        (bsr.sizes 3).toNat - (entry.ulBufferInfo 3).toNat := by
  have size0 := bsrTable_le bsr.bufferSize0
  have size1 := bsrTable_le bsr.bufferSize1
  have size2 := bsrTable_le bsr.bufferSize2
  have first := entry.toNat_groupReport frame 0 bsr.bufferSize0 (by omega)
  have second := toNat_groupReport _ frame 1 bsr.bufferSize1 (by rw [first]; omega)
  have third := toNat_groupReport _ frame 2 bsr.bufferSize2 (by rw [second, first]; omega)
  have fourth :=
    toNat_groupReport _ frame 3 bsr.bufferSize3 (by rw [third, second, first]; omega)
  rw [third, second, first] at fourth
  exact fourth

/-- After any reports, SDUs and grants. A long report is right if the total was that
of the groups, a short one if nothing was known of the other groups. -/
theorem ulTotalBuffer_follows {start : UeEntry} (nothing : start.ulBufferInfo = fun _ => 0)
    (events : List BufferEvent) (frame : UInt32) :
    let entry := events.foldl step start
    (∀ bsr, entry.ulTotalBuffer.toNat = groupSum entry.ulBufferInfo →
      (entry.longReport frame bsr).ulTotalBuffer.toNat = groupSum bsr.sizes) ∧
    (∀ bsr, (∀ group ≠ bsr.lcgid, entry.ulBufferInfo group = 0) →
      (entry.shortReport frame bsr).ulTotalBuffer.toNat =
        groupSum (Function.update entry.ulBufferInfo bsr.lcgid bsr.size)) := by
  intro entry
  have bounded : entry.SizesReported :=
    List.foldlRecOn events _ (fun group => by simp [nothing])
      fun _ bounded event _ => bounded.step event
  constructor
  · intro bsr total
    have known := And.intro (bounded 0) (And.intro (bounded 1) (And.intro (bounded 2) (bounded 3)))
    simp only [groupSum] at total ⊢
    rw [toNat_longReport frame bsr (by omega)]
    omega
  · rintro ⟨lcgid, index⟩ others
    match lcgid with
    | 0 | 1 | 2 | 3 => simp [groupSum, shortReport, BsrShort.size, others]

def UeEntry.blank : UeEntry :=
  ⟨0, false, false, fun _ => 0, fun _ => 0, 0, fun _ => 0, fun _ => 1, 0, 0, 0, fun _ => false⟩

theorem ulTotalBuffer_follows_short :
    let entry := [.shortBsr 7 ⟨1, 20⟩].foldl step .blank
    entry.ulTotalBuffer.toNat = groupSum entry.ulBufferInfo ∧
    (entry.longReport 8 ⟨1, 2, 3, 4⟩).ulTotalBuffer.toNat = groupSum (BsrLong.sizes ⟨1, 2, 3, 4⟩) :=
  ⟨by decide, (@ulTotalBuffer_follows .blank rfl [.shortBsr 7 ⟨1, 20⟩] 8).1 _ (by decide)⟩

/-- Ten octets in each group; a grant for 15 octets is not made up for by the
next long report, and a short report forgets the other groups. -/
theorem not_ulTotalBuffer_follows :
    let reported := blank.step (.longBsr 0 ⟨1, 1, 1, 1⟩)
    ((reported.step (.grant 15)).longReport 1 ⟨1, 1, 1, 1⟩).ulTotalBuffer = 25 ∧
    groupSum (BsrLong.sizes ⟨1, 1, 1, 1⟩) = 40 ∧
    (reported.shortReport 1 ⟨0, 1⟩).ulTotalBuffer = 10 ∧
    groupSum (Function.update reported.ulBufferInfo 0 (BsrShort.size ⟨0, 1⟩)) = 40 := by
  decide

end OpenAir.Mac
