import Mathlib.Algebra.Order.Ring.Int
import Mathlib.Data.List.Nodup
import OpenAir.Base.Execution

/-! The memory blocks of `mem_block.c`: thirteen pools of blocks whose data areas
double in size from pool to pool, and a copy pool of blocks without any. -/

set_option autoImplicit false

namespace OpenAir.Util

open List Base Option Function Nat

@[ext]
structure MemBlock where
  poolId : Nat
  index : Nat
  deriving DecidableEq

/-- `MEM_MNGT_MB0_BLOCK_SIZE` to `MEM_MNGT_MB12_BLOCK_SIZE`; the data pointer of a
block of the copy pool is `NULL`. -/
def MemBlock.dataSize (block : MemBlock) : Nat :=
  if block.poolId ≤ 12 then 64 * 2 ^ block.poolId else 0

/-- `MEM_MNGT_MB0_NB_BLOCKS` to `MEM_MNGT_MBCOPY_NB_BLOCKS`. -/
def poolSizes (memScale : Nat) (jumboFrames : Bool) : List Nat :=
  [4096, 4096, 2048, 2048, 1024, 1024, 1024, 64, if jumboFrames then 256 else 16, 8, 0, 0, 32].map
    (· * memScale) ++ [1024]

/-- The pool lists with the blocks that callers hold. -/
structure MemPool where
  memLists : Nat → List MemBlock
  held : List MemBlock

def poolBufferInit (sizes : List Nat) : MemPool :=
  { memLists := fun pool => (range' 0 (sizes.getD pool 0)).map (MemBlock.mk pool), held := [] }

def selectPool (size : Nat) : Nat :=
  if size = 0 then 0 else selectPool (size / 2) + 1

/-- `list_remove_head` of the first of these lists that is not empty. -/
def removeFirstHead (memLists : Nat → List MemBlock) :
    List Nat → Option (MemBlock × (Nat → List MemBlock))
  | [] => none
  | pool :: pools =>
    match memLists pool with
    | [] => removeFirstHead memLists pools
    | head :: rest => some (head, update memLists pool rest)

def getFreeMemBlock (memLists : Nat → List MemBlock) (sizeP : Nat) :
    Option (MemBlock × (Nat → List MemBlock)) :=
  if 262144 < sizeP then none
  else
    let poolSelected := selectPool (sizeP / 64)
    -- the loop tries one pool before it looks at its bound
    removeFirstHead memLists (range' poolSelected (max 1 (13 - poolSelected)))

def freeMemBlock (memLists : Nat → List MemBlock) (block : MemBlock) : Nat → List MemBlock :=
  if block.poolId ≤ 13 then
    update memLists block.poolId (memLists block.poolId ++ [block])
  else memLists

inductive MemRequest where
  | get (sizeP : Nat)
  | free (block : MemBlock)

def MemPool.step (memory : MemPool) : MemRequest → Option MemPool
  | .get sizeP =>
    match getFreeMemBlock memory.memLists sizeP with
    | none => some memory
    | some (block, memLists) => some { memLists, held := block :: memory.held }
  | .free block =>
    if block ∈ memory.held then
      some
        { memLists := freeMemBlock memory.memLists block, held := memory.held.erase block }
    else none

theorem lt_two_pow_selectPool (size : Nat) : size < 2 ^ selectPool size := by
  fun_induction selectPool size with
  | case1 => decide
  | case2 size _ ih => omega

theorem selectPool_le {size bits : Nat} (small : size < 2 ^ bits) : selectPool size ≤ bits := by
  fun_induction selectPool size generalizing bits with
  | case1 => exact zero_le bits
  | case2 size positive ih =>
    cases bits with
    | zero => omega
    | succ bits => exact succ_le_succ (ih (by omega))

theorem removeFirstHead_eq_some {memLists removed : Nat → List MemBlock} {pools : List Nat}
    {block : MemBlock} (found : removeFirstHead memLists pools = some (block, removed)) :
    ∃ pool ∈ pools, ∃ rest, memLists pool = block :: rest ∧
      removed = update memLists pool rest := by
  induction pools with
  | nil => simp [removeFirstHead] at found
  | cons pool pools ih =>
    cases stored : memLists pool with
    | nil =>
      simp only [removeFirstHead, stored] at found
      obtain ⟨other, mem, split⟩ := ih found
      exact ⟨other, mem_cons_of_mem _ mem, split⟩
    | cons head rest =>
      simp only [removeFirstHead, stored, some.injEq, Prod.mk.injEq] at found
      obtain ⟨rfl, rfl⟩ := found
      exact ⟨pool, mem_cons_self .., rest, stored, rfl⟩

theorem getFreeMemBlock_eq_some {memLists removed : Nat → List MemBlock} {sizeP : Nat}
    {block : MemBlock} (found : getFreeMemBlock memLists sizeP = some (block, removed)) :
    ∃ pool, selectPool (sizeP / 64) ≤ pool ∧ pool ≤ max 12 (selectPool (sizeP / 64)) ∧
      ∃ rest, memLists pool = block :: rest ∧ removed = update memLists pool rest := by
  obtain ⟨_, removing⟩ := ite_none_left_eq_some.mp found
  obtain ⟨pool, mem, split⟩ := removeFirstHead_eq_some removing
  rw [mem_range'_1] at mem
  exact ⟨pool, mem.1, by omega, split⟩

/-- Every block is held once or is once in the list of its own pool, and no other
list has it. -/
structure MemPool.Partitioned (sizes : List Nat) (memory : MemPool) : Prop where
  own : ∀ pool, ∀ block ∈ memory.memLists pool, block.poolId = pool
  once : ∀ block,
    memory.held.count block + (memory.memLists block.poolId).count block =
      if block.index < sizes.getD block.poolId 0 then 1 else 0

theorem poolBufferInit_partitioned (sizes : List Nat) :
    (poolBufferInit sizes).Partitioned sizes := by
  refine ⟨?_, fun block => ?_⟩
  · simp [poolBufferInit]
  · have distinct : ((poolBufferInit sizes).memLists block.poolId).Nodup :=
      (nodup_range' 1).map fun _ _ same => (MemBlock.mk.inj same).2
    rw [distinct.count]
    simp [poolBufferInit, MemBlock.ext_iff]

namespace MemPool

variable {sizes : List Nat} {memory next final : MemPool}

theorem Partitioned.poolId_lt {block : MemBlock} (partitioned : memory.Partitioned sizes)
    (isHeld : block ∈ memory.held) : block.poolId < sizes.length := by
  have held := count_pos_iff.mpr isHeld
  have once := partitioned.once block
  by_contra beyond
  simp only [getD_eq_getElem?_getD, getElem?_eq_none (not_lt.mp beyond), getD_none,
    not_lt_zero, if_false] at once
  omega

theorem Partitioned.get {sizeP : Nat} {taken : MemBlock} {removed : Nat → List MemBlock}
    (partitioned : memory.Partitioned sizes)
    (found : getFreeMemBlock memory.memLists sizeP = some (taken, removed)) :
    Partitioned sizes { memLists := removed, held := taken :: memory.held } := by
  obtain ⟨pool, _, _, rest, stored, rfl⟩ := getFreeMemBlock_eq_some found
  have named := partitioned.own pool
  rw [stored] at named
  refine ⟨fun other block => ?_, fun block => ?_⟩
  · by_cases same : other = pool
    · subst same
      simpa using fun mem => named block (mem_cons_of_mem _ mem)
    · simpa [same] using partitioned.own other block
  · rw [← partitioned.once block]
    by_cases same : block.poolId = pool
    · simp only [same, update_self, stored, count_cons]
      omega
    · have other : taken ≠ block := fun equal => same (equal ▸ named taken (mem_cons_self ..))
      simp [same, other]

theorem Partitioned.free {freed : MemBlock} (pools : sizes.length = 14)
    (partitioned : memory.Partitioned sizes) (isHeld : freed ∈ memory.held) :
    Partitioned sizes
      { memLists := freeMemBlock memory.memLists freed, held := memory.held.erase freed } := by
  have known := pools ▸ partitioned.poolId_lt isHeld
  rw [freeMemBlock, if_pos (le_of_lt_succ known)]
  refine ⟨fun other block => ?_, fun block => ?_⟩
  · have own := partitioned.own other block
    by_cases same : other = freed.poolId
    · subst same
      simp only [update_self, mem_append, mem_singleton]
      rintro (mem | rfl)
      · exact own mem
      · rfl
    · simpa [same] using own
  · rw [← partitioned.once block]
    by_cases same : block = freed
    · subst same
      have held := count_pos_iff.mpr isHeld
      simp only [update_self, count_erase_self, count_append, count_singleton_self]
      omega
    · by_cases pool : block.poolId = freed.poolId
      · simp [pool, count_erase_of_ne same, Ne.symm same]
      · simp [pool, count_erase_of_ne same]

theorem Partitioned.step {request : MemRequest} (pools : sizes.length = 14)
    (partitioned : memory.Partitioned sizes) (stepped : memory.step request = some next) :
    next.Partitioned sizes := by
  cases request with
  | get sizeP =>
    simp only [MemPool.step] at stepped
    split at stepped
    next => exact some.inj stepped ▸ partitioned
    next found => exact some.inj stepped ▸ partitioned.get found
  | free freed =>
    obtain ⟨isHeld, stepped⟩ := ite_none_right_eq_some.mp stepped
    exact some.inj stepped ▸ partitioned.free pools isHeld

theorem Partitioned.dataSize {sizeP : Nat} {block : MemBlock} {removed : Nat → List MemBlock}
    (partitioned : memory.Partitioned sizes) (small : sizeP < 262144)
    (found : getFreeMemBlock memory.memLists sizeP = some (block, removed)) :
    sizeP < block.dataSize := by
  obtain ⟨pool, above, below, rest, stored, _⟩ := getFreeMemBlock_eq_some found
  have own := partitioned.own pool block (stored ▸ mem_cons_self ..)
  have selected : selectPool (sizeP / 64) ≤ 12 := selectPool_le (by omega)
  have wide : sizeP / 64 < 2 ^ pool :=
    Nat.lt_of_lt_of_le (lt_two_pow_selectPool _) (Nat.pow_le_pow_right (by decide) above)
  rw [MemBlock.dataSize, own, if_pos (by omega)]
  omega

/-- A request for less than `MEM_MNGT_MB12_BLOCK_SIZE` bytes is served from a pool
whose blocks hold more; one for just that size selects the copy pool. -/
theorem memBlocks_partitioned (memScale : Nat) (jumboFrames : Bool) (requests : List MemRequest)
    (run : execute step (poolBufferInit (poolSizes memScale jumboFrames)) requests = some final) :
    final.Partitioned (poolSizes memScale jumboFrames) ∧
      ∀ sizeP < 262144, ∀ block removed,
        getFreeMemBlock final.memLists sizeP = some (block, removed) → sizeP ≤ block.dataSize := by
  have partitioned := execute_preserves (fun _ _ _ => Partitioned.step rfl)
    (poolBufferInit_partitioned (poolSizes memScale jumboFrames)) run
  exact ⟨partitioned, fun _ small _ _ found => le_of_lt (partitioned.dataSize small found)⟩

def oneFreed : List MemRequest := [.get 100, .get 100, .free ⟨1, 0⟩]

theorem memBlocks_partitioned_one_freed :
    ∃ final, execute step (poolBufferInit (poolSizes 1 false)) oneFreed = some final ∧
      final.held = [⟨1, 1⟩] ∧ final.Partitioned (poolSizes 1 false) ∧
      ∀ block removed, getFreeMemBlock final.memLists 100 = some (block, removed) →
        100 ≤ block.dataSize := by
  obtain ⟨final, run, held⟩ : ∃ final, execute step (poolBufferInit (poolSizes 1 false)) oneFreed =
      some final ∧ final.held = [⟨1, 1⟩] := by
    decide +kernel
  obtain ⟨partitioned, large⟩ := memBlocks_partitioned 1 false oneFreed run
  exact ⟨final, run, held, partitioned, large 100 (by decide)⟩

theorem not_memBlocks_large_enough :
    ¬ ∀ (memScale : Nat) (jumboFrames : Bool) (requests : List MemRequest) (final : MemPool),
      execute step (poolBufferInit (poolSizes memScale jumboFrames)) requests = some final →
        ∀ sizeP ≤ 262144, ∀ block removed,
          getFreeMemBlock final.memLists sizeP = some (block, removed) →
            sizeP ≤ block.dataSize := by
  intro large
  have copied := large 1 false [] _ rfl 262144 (le_refl _) ⟨13, 0⟩ _
    (by simp [getFreeMemBlock, selectPool]; rfl)
  exact absurd copied (by decide)

end MemPool

end OpenAir.Util
