import OpenAir.Base.Cycle
import OpenAir.RlcUm.Receiver

/-! The tests and the loops of the reordering window. Numbers are compared by how
far they are below VR(UH). -/

set_option autoImplicit false

namespace OpenAir.RlcUm

open OpenAir.Base Option List Nat

theorem SnLength.modulo_eq (length : SnLength) :
    length.modulo = 2 * length.windowSize ∧ 1 < length.windowSize := by
  cases length <;> decide

theorem tmod_eq_of_lt_two_mul {value width : Int} (low : -width < value)
    (high : value < 2 * width) :
    value.tmod width = if value < width then value else value - width := by
  by_cases negative : value < 0
  · rw [if_pos (by omega), ← Int.neg_neg (value.tmod width), ← Int.neg_tmod,
      Int.tmod_eq_of_lt (by omega) (by omega), Int.neg_neg]
  · split
    next inside => exact Int.tmod_eq_of_lt (by omega) inside
    next outside =>
      rw [Int.tmod_eq_emod_of_nonneg (by omega), ← Int.sub_emod_right, Int.emod_eq_of_lt]
      · omega
      · omega

namespace Receiver

variable {rx : Receiver} {sn : Nat}

def below (rx : Receiver) (sn : Nat) : Nat := ahead rx.snLength.modulo sn rx.vrUh

theorem relative_eq (vrUh : rx.vrUh < rx.snLength.modulo) (bounded : sn < rx.snLength.modulo) :
    (rx.below sn ≤ rx.snLength.windowSize → rx.relative sn = rx.snLength.windowSize - rx.below sn) ∧
    (rx.snLength.windowSize < rx.below sn →
      rx.relative sn < 0 ∨ rx.snLength.windowSize < rx.relative sn) := by
  obtain ⟨modulo, window⟩ := rx.snLength.modulo_eq
  have pos := ahead_eq bounded vrUh
  rw [relative, tmod_eq_of_lt_two_mul (by omega) (by omega), below, pos]
  constructor
  · intro near
    split at near <;> split <;> omega
  · intro far
    split at far <;> split <;> omega

theorem relative_vrUh : rx.relative rx.vrUh = rx.snLength.windowSize := by
  have window := rx.snLength.modulo_eq
  rw [relative, tmod_eq_of_lt_two_mul (by omega) (by omega)]
  omega

theorem relative_lowerEdge :
    rx.relative ((rx.vrUh : Int) - rx.snLength.windowSize) = 0 := by
  rw [relative, Int.sub_self, Int.zero_tmod]

theorem inReorderingWindow_neg (vrUh : rx.vrUh < rx.snLength.modulo)
    (bounded : sn < rx.snLength.modulo) :
    rx.inReorderingWindow sn < 0 ↔ rx.below sn = 0 ∨ rx.snLength.windowSize < rx.below sn := by
  have pos := relative_eq vrUh bounded
  unfold inReorderingWindow
  split <;> omega

structure Windowed (rx : Receiver) : Prop where
  vrUr : rx.vrUr < rx.snLength.modulo
  vrUx : rx.vrUx < rx.snLength.modulo
  vrUh : rx.vrUh < rx.snLength.modulo
  width : rx.below rx.vrUr ≤ rx.snLength.windowSize
  stored : ∀ sn, (rx.darBuffer sn).isSome →
    sn < rx.snLength.modulo ∧ 0 < rx.below sn ∧ rx.below sn ≤ rx.below rx.vrUr

theorem inWindow_spec (rx : Receiver) (lower number higher : Int) :
    (rx.inWindow lower number higher = 0 ↔
      rx.relative lower < rx.relative number ∧ rx.relative number < rx.relative higher) ∧
    (rx.inWindow lower number higher = 1 ↔
      rx.relative lower = rx.relative number ∧ rx.relative number < rx.relative higher) ∧
    (rx.inWindow lower number higher = 2 ↔
      rx.relative lower < rx.relative number ∧ rx.relative number = rx.relative higher) ∧
    (rx.inWindow lower number higher = -2 ↔ rx.relative number < rx.relative lower) := by
  unfold inWindow
  split
  · omega
  · split
    · omega
    · split
      · split <;> omega
      · split <;> omega

namespace Windowed

theorem relative_vrUr (windowed : rx.Windowed) :
    rx.relative rx.vrUr = rx.snLength.windowSize - rx.below rx.vrUr :=
  (relative_eq windowed.vrUh windowed.vrUr).1 windowed.width

theorem discards (windowed : rx.Windowed) (bounded : sn < rx.snLength.modulo) :
    (rx.inWindow ((rx.vrUh : Int) - rx.snLength.windowSize) sn rx.vrUr = 1 ∨
      rx.inWindow ((rx.vrUh : Int) - rx.snLength.windowSize) sn rx.vrUr = 0) ↔
      rx.below rx.vrUr < rx.below sn ∧ rx.below sn ≤ rx.snLength.windowSize := by
  have spec := rx.inWindow_spec ((rx.vrUh : Int) - rx.snLength.windowSize) sn rx.vrUr
  rw [relative_lowerEdge, windowed.relative_vrUr] at spec
  have pos := relative_eq windowed.vrUh bounded
  rw [spec.1, spec.2.1]
  rcases le_total (rx.below sn) rx.snLength.windowSize with near | far
  · omega
  · omega

theorem passed (windowed : rx.Windowed) (near : rx.below rx.vrUx ≤ rx.snLength.windowSize) :
    (rx.inWindow rx.vrUr rx.vrUx rx.vrUh = -2 ∨ rx.inWindow rx.vrUr rx.vrUx rx.vrUh = 1) ↔
      rx.below rx.vrUr < rx.below rx.vrUx ∨
        (rx.below rx.vrUr = rx.below rx.vrUx ∧ 0 < rx.below rx.vrUr) := by
  have spec := rx.inWindow_spec rx.vrUr rx.vrUx rx.vrUh
  rw [relative_vrUh, windowed.relative_vrUr, (relative_eq windowed.vrUh windowed.vrUx).1 near]
    at spec
  omega

theorem isAhead (windowed : rx.Windowed) :
    rx.inWindow rx.vrUr rx.vrUh rx.vrUh = 2 ↔ 0 < rx.below rx.vrUr := by
  have spec := rx.inWindow_spec rx.vrUr rx.vrUh rx.vrUh
  rw [relative_vrUh, windowed.relative_vrUr] at spec
  omega

end Windowed

/-! Reassembly takes PDUs out of the buffer. -/

def numbers (rx : Receiver) (start count : Nat) : List Nat :=
  (range count).map fun index => (start + index) % rx.snLength.modulo

def Cleared (rx : Receiver) (list : List Nat) (next : Receiver) : Prop :=
  ∃ reassembly buffer, next = { rx with reassembly := reassembly, darBuffer := buffer } ∧
    ∀ sn, buffer sn = if sn ∈ list then none else rx.darBuffer sn

theorem reassembleSn_cleared {next : Receiver} (taken : rx.reassembleSn sn = some next) :
    rx.Cleared [sn] next := by
  unfold reassembleSn at taken
  split at taken
  · obtain ⟨reassembly, -, rfl⟩ := map_eq_some_iff.mp taken
    exact ⟨_, _, rfl, fun other => by simp [Function.update_apply]⟩
  next empty =>
    cases taken
    refine ⟨_, _, rfl, fun other => ?_⟩
    by_cases same : other = sn
    · simp [same, empty]
    · simp [same]

theorem foldlM_reassembleSn_cleared {list : List Nat} {next : Receiver}
    (folded : list.foldlM reassembleSn rx = some next) : rx.Cleared list next := by
  induction list generalizing rx with
  | nil =>
    cases folded
    exact ⟨_, _, rfl, by simp⟩
  | cons sn rest ih =>
    obtain ⟨middle, taken, following⟩ := bind_eq_some_iff.mp folded
    obtain ⟨_, _, rfl, first⟩ := reassembleSn_cleared taken
    obtain ⟨_, _, rfl, second⟩ := ih following
    refine ⟨_, _, rfl, fun other => ?_⟩
    simp only [second, first]
    by_cases inRest : other ∈ rest
    · simp [inRest]
    · simp [inRest, mem_cons]

theorem reassembleLoop_eq {endSn fuel count : Nat} (bounded : sn < rx.snLength.modulo)
    (enough : count < fuel) (last : (sn + (count + 1)) % rx.snLength.modulo = endSn)
    (inner : ∀ index, 0 < index → index ≤ count →
      (sn + index) % rx.snLength.modulo ≠ rx.vrUh ∧ (sn + index) % rx.snLength.modulo ≠ endSn) :
    reassembleLoop endSn fuel rx sn = (rx.numbers sn (count + 1)).foldlM reassembleSn rx := by
  induction count generalizing rx sn fuel with
  | zero =>
    obtain ⟨fuel, rfl⟩ : ∃ fewer, fuel = fewer + 1 := ⟨fuel - 1, by omega⟩
    have single : rx.numbers sn 1 = [sn] := by
      simp [numbers, mod_eq_of_lt bounded]
    rw [single]
    refine Option.bind_congr fun next taken => ?_
    obtain ⟨_, _, rfl, -⟩ := reassembleSn_cleared taken
    rw [nextSn, if_pos (.inr last)]
    rfl
  | succ count ih =>
    obtain ⟨fuel, rfl⟩ : ∃ fewer, fuel = fewer + 1 := ⟨fuel - 1, by omega⟩
    have positive : 0 < rx.snLength.modulo := by omega
    have shifted : ∀ index, ((sn + 1) % rx.snLength.modulo + index) % rx.snLength.modulo =
        (sn + (index + 1)) % rx.snLength.modulo := by
      intro index
      rw [mod_add_mod, add_assoc, add_comm 1]
    have split : rx.numbers sn (count + 1 + 1) =
        sn :: rx.numbers ((sn + 1) % rx.snLength.modulo) (count + 1) := by
      simp only [numbers, shifted]
      rw [List.range_succ_eq_map, List.map_cons, List.map_map, add_zero, mod_eq_of_lt bounded]
      rfl
    rw [split]
    refine Option.bind_congr fun next taken => ?_
    obtain ⟨_, _, rfl, -⟩ := reassembleSn_cleared taken
    have going := inner 1 one_pos (by omega)
    rw [nextSn, if_neg (by simpa only [not_or] using going)]
    refine ih (mod_lt _ positive) (by omega) ((shifted _).trans last) ?_
    intro index _ within
    rw [shifted]
    exact inner (index + 1) (succ_pos _) (by omega)

theorem mem_numbers {start count : Nat} (startBelow : start < rx.snLength.modulo)
    (few : count ≤ rx.snLength.modulo) :
    sn ∈ rx.numbers start count ↔
      sn < rx.snLength.modulo ∧ ahead rx.snLength.modulo start sn < count := by
  have positive : 0 < rx.snLength.modulo := by omega
  constructor
  · intro mem
    obtain ⟨index, listed, rfl⟩ := mem_map.mp mem
    have inside := mem_range.mp listed
    exact ⟨mod_lt _ positive, by rwa [ahead_add_mod startBelow (by omega)]⟩
  · rintro ⟨bounded, inside⟩
    exact mem_map.mpr
      ⟨_, mem_range.mpr inside, add_ahead_mod startBelow bounded⟩

theorem tryReassembly_eq {startSn endSn : Nat} (startBelow : startSn < rx.snLength.modulo)
    (endBelow : endSn < rx.snLength.modulo)
    (before : rx.below startSn = 0 ∨ ahead rx.snLength.modulo startSn endSn ≤ rx.below startSn) :
    rx.tryReassembly startSn endSn =
      (rx.numbers startSn (ahead rx.snLength.modulo startSn endSn)).foldlM reassembleSn rx := by
  by_cases same : startSn = endSn
  · have nothing := (ahead_eq_zero startBelow endBelow).mpr same
    rw [tryReassembly, if_pos same, nothing]
    rfl
  · have positive : ahead rx.snLength.modulo startSn endSn ≠ 0 :=
      mt (ahead_eq_zero startBelow endBelow).mp same
    have bound := ahead_lt startSn endSn (zero_lt_of_lt startBelow)
    obtain ⟨count, steps⟩ : ∃ count, ahead rx.snLength.modulo startSn endSn = count + 1 :=
      ⟨_, (sub_one_add_one positive).symm⟩
    rw [tryReassembly, if_neg same, steps]
    refine reassembleLoop_eq startBelow (by omega) ?_ ?_
    · rw [← steps, add_ahead_mod startBelow endBelow]
    · intro index above within
      have place := ahead_add_mod startBelow (show index < rx.snLength.modulo by omega)
      constructor
      · intro reached
        rw [reached] at place
        unfold below at before
        omega
      · intro reached
        rw [reached] at place
        omega

theorem tryReassembly_cleared {startSn endSn : Nat} {next : Receiver}
    (startBelow : startSn < rx.snLength.modulo) (endBelow : endSn < rx.snLength.modulo)
    (before : rx.below startSn = 0 ∨ ahead rx.snLength.modulo startSn endSn ≤ rx.below startSn)
    (tried : rx.tryReassembly startSn endSn = some next) :
    rx.Cleared (rx.numbers startSn (ahead rx.snLength.modulo startSn endSn)) next := by
  rw [tryReassembly_eq startBelow endBelow before] at tried
  exact foldlM_reassembleSn_cleared tried

theorem mem_numbers_up {startSn endSn : Nat} (vrUh : rx.vrUh < rx.snLength.modulo)
    (startBelow : startSn < rx.snLength.modulo) (endBelow : endSn < rx.snLength.modulo)
    (higher : rx.below endSn ≤ rx.below startSn) :
    ahead rx.snLength.modulo startSn endSn = rx.below startSn - rx.below endSn ∧
      ∀ sn, sn ∈ rx.numbers startSn (ahead rx.snLength.modulo startSn endSn) ↔
        sn < rx.snLength.modulo ∧ rx.below endSn < rx.below sn ∧
          rx.below sn ≤ rx.below startSn := by
  have bound := ahead_lt startSn endSn (zero_lt_of_lt startBelow)
  have steps := ahead_between startBelow endBelow vrUh higher
  refine ⟨steps, fun sn => ?_⟩
  rw [mem_numbers startBelow (le_of_lt bound)]
  refine and_congr_right fun snBelow => ?_
  by_cases inside : rx.below sn ≤ rx.below startSn
  · have place := ahead_between startBelow snBelow vrUh inside
    unfold below at *
    omega
  · have place := mt (ahead_le_iff startBelow snBelow vrUh).mp inside
    omega

theorem below_nextSn (vrUh : rx.vrUh < rx.snLength.modulo) (bounded : sn < rx.snLength.modulo)
    (lower : 0 < rx.below sn) :
    rx.nextSn sn < rx.snLength.modulo ∧ rx.below (rx.nextSn sn) + 1 = rx.below sn := by
  have nextBelow : rx.nextSn sn < rx.snLength.modulo := mod_lt _ (by omega)
  unfold below at lower ⊢
  rw [ahead_eq bounded vrUh] at lower ⊢
  rw [ahead_eq nextBelow vrUh]
  rcases lt_or_ge (sn + 1) rx.snLength.modulo with inside | last
  · rw [nextSn, mod_eq_of_lt inside]
    split at lower <;> split <;> omega
  · have wrapped : rx.nextSn sn = 0 := by
      rw [nextSn, show sn + 1 = rx.snLength.modulo by omega, mod_self]
    split at lower <;> split <;> omega

theorem advanceVrUr_spec (vrUh : rx.vrUh < rx.snLength.modulo) {fuel : Nat}
    (bounded : sn < rx.snLength.modulo) (lower : 0 < rx.below sn) (enough : rx.below sn ≤ fuel) :
    rx.advanceVrUr fuel sn < rx.snLength.modulo ∧
      rx.below (rx.advanceVrUr fuel sn) < rx.below sn ∧
      (rx.advanceVrUr fuel sn = rx.vrUh ∨ rx.darBuffer (rx.advanceVrUr fuel sn) = none) ∧
      ∀ other < rx.snLength.modulo, rx.below (rx.advanceVrUr fuel sn) < rx.below other →
        rx.below other < rx.below sn → (rx.darBuffer other).isSome := by
  induction fuel generalizing sn with
  | zero => omega
  | succ fuel ih =>
    obtain ⟨nextBelow, step⟩ := below_nextSn vrUh bounded lower
    rw [advanceVrUr]
    by_cases going : (rx.darBuffer (rx.nextSn sn)).isSome ∧ rx.nextSn sn ≠ rx.vrUh
    · rw [if_pos going]
      have above : 0 < rx.below (rx.nextSn sn) :=
        Nat.pos_of_ne_zero (mt (ahead_eq_zero nextBelow vrUh).mp going.2)
      obtain ⟨endBelow, closer, stopped, received⟩ := ih nextBelow above (by omega)
      refine ⟨endBelow, by omega, stopped, ?_⟩
      intro other otherBelow higher lowerThan
      rcases Nat.lt_or_ge (rx.below other) (rx.below (rx.nextSn sn)) with inside | equal
      · exact received other otherBelow higher inside
      · have same : other = rx.nextSn sn :=
          ahead_left_injective otherBelow nextBelow vrUh (by unfold below at *; omega)
        rw [same]
        exact going.1
    · rw [if_neg going]
      refine ⟨nextBelow, by omega, ?_, fun other _ higher lowerThan => by omega⟩
      rcases Decidable.not_and_iff_or_not.mp going with empty | reached
      · exact .inr (not_isSome_iff_eq_none.mp empty)
      · exact .inl (Decidable.not_not.mp reached)

theorem firstMissing_spec (vrUh : rx.vrUh < rx.snLength.modulo)
    (empty : rx.darBuffer rx.vrUh = none) {fuel : Nat} (bounded : sn < rx.snLength.modulo)
    (enough : rx.below sn < fuel) :
    ∃ found, rx.firstMissing fuel sn = some found ∧ found < rx.snLength.modulo ∧
      rx.below found ≤ rx.below sn ∧ rx.darBuffer found = none := by
  induction fuel generalizing sn with
  | zero => omega
  | succ fuel ih =>
    rw [firstMissing]
    by_cases received : (rx.darBuffer sn).isSome
    · have apart : sn ≠ rx.vrUh := by
        rintro rfl
        simp [empty] at received
      have lower : 0 < rx.below sn :=
        Nat.pos_of_ne_zero (mt (ahead_eq_zero bounded vrUh).mp apart)
      obtain ⟨nextBelow, step⟩ := below_nextSn vrUh bounded lower
      obtain ⟨found, looked, foundBelow, higher, missing⟩ := ih nextBelow (by omega)
      exact ⟨found, by rw [if_pos received, looked], foundBelow, by omega, missing⟩
    · exact ⟨sn, by rw [if_neg received], bounded, Nat.le_refl _,
        not_isSome_iff_eq_none.mp received⟩

end Receiver

end OpenAir.RlcUm
