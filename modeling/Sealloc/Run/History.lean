import Sealloc.Bin
import Sealloc.Run.Bitmap

/-! Calls on one run: each region is handed out once, and which pointers are accepted back. -/

namespace Sealloc

open Library

/-- Calls of `run_allocate` and `run_deallocate` on a run, with the pointers that were handed
out, first one first, and those of them that are allocated. -/
inductive RunHistory (bin : Bin) (fresh : Run) : Run → List Nat → Finset Nat → Prop
  | init : RunHistory bin fresh fresh [] ∅
  | allocate {run : Run} {handed : List Nat} {live : Finset Nat}
      (before : RunHistory bin fresh run handed live) :
      RunHistory bin fresh (runAllocate run bin).2 (handed ++ [(runAllocate run bin).1])
        (insert (runAllocate run bin).1 live)
  | deallocate {run : Run} {handed : List Nat} {live : Finset Nat}
      (before : RunHistory bin fresh run handed live) (ptr : Nat) (above : run.key ≤ ptr)
      (inside : ptr < run.key + bin.runSizePages * pageSize) :
      RunHistory bin fresh ((runDeallocate run bin ptr).getD run) handed
        (if (runDeallocate run bin ptr).isSome then live.erase ptr else live)

theorem binInit_class : ∀ b < 43, (Bin.init (classSize b)).regSize = classSize b ∧
    (Bin.init (classSize b)).elems = classElems b ∧
    (Bin.init (classSize b)).regMaskSizeBits = 2 * classElems b ∧
    (Bin.init (classSize b)).runSizePages * pageSize = classRunBytes b ∧
    classRunBytes b < (classElems b + 1) * classSize b := by
  decide +kernel

/-- A bin of class `b` and a place for its runs. -/
structure RunSite (b heap : Nat) : Prop where
  isClass : b < 43
  room : heap + classRunBytes b ≤ 2 ^ 64

section Site

variable {b heap i : Nat}

theorem RunSite.size (site : RunSite b heap) : 16 ≤ classSize b :=
  (classSize_facts b site.isClass).1

theorem RunSite.count (site : RunSite b heap) : 1 ≤ classElems b ∧ classElems b ≤ 1024 :=
  ⟨(classSize_facts b site.isClass).2.2.2.1, (classSize_facts b site.isClass).2.2.2.2.1⟩

/-- The regions lie in the run. -/
theorem RunSite.region (site : RunSite b heap) (inside : i < classElems b) :
    i * classSize b + classSize b ≤ classRunBytes b := by
  have total := (classSize_facts b site.isClass).2.2.2.2.2.1
  have next : (i + 1) * classSize b ≤ classElems b * classSize b :=
    Nat.mul_le_mul_right _ inside
  rw [Nat.succ_mul] at next
  omega

/-- Nothing wraps when `run_allocate` computes the address of a region. -/
theorem RunSite.address (site : RunSite b heap) (inside : i < classElems b) :
    u64 (heap + u32 (i * classSize b)) = heap + i * classSize b := by
  have region := site.region inside
  have room := site.room
  have size := site.size
  have bytes : classRunBytes b ≤ 2 ^ 20 := by
    have all : ∀ c < 43, classRunBytes c ≤ 2 ^ 20 := by decide +kernel
    exact all b site.isClass
  have small : u32 (i * classSize b) = i * classSize b := Nat.mod_eq_of_lt (by omega)
  rw [small]
  exact u64_eq (by omega)

theorem region_apart (b heap : Nat) {j : Nat} (different : i ≠ j) :
    heap + i * classSize b + classSize b ≤ heap + j * classSize b ∨
      heap + j * classSize b + classSize b ≤ heap + i * classSize b := by
  rcases Nat.lt_or_gt_of_ne different with less | more
  · have next : (i + 1) * classSize b ≤ j * classSize b := Nat.mul_le_mul_right _ less
    rw [Nat.succ_mul] at next
    omega
  · have next : (j + 1) * classSize b ≤ i * classSize b := Nat.mul_le_mul_right _ more
    rw [Nat.succ_mul] at next
    omega

/-- An aligned address of the run is a region, or it is the first byte behind all regions. -/
theorem RunSite.index (site : RunSite b heap) (inside : i * classSize b < classRunBytes b) :
    i < classElems b ∨ (i = classElems b ∧ classElems b * classSize b < classRunBytes b) := by
  have bound := (binInit_class b site.isClass).2.2.2.2
  have below : i < classElems b + 1 := by
    by_contra more
    have least : (classElems b + 1) * classSize b ≤ i * classSize b :=
      Nat.mul_le_mul_right _ (by omega)
    omega
  rcases Nat.lt_succ_iff_lt_or_eq.mp below with less | same
  · exact Or.inl less
  · rw [same] at inside
    exact Or.inr ⟨same, inside⟩

end Site

section Steps

variable {run run' : Run} {bin : Bin} {ptr : Nat}

/-- What `run_deallocate` does when it returns true. -/
theorem runDeallocate_some (call : runDeallocate run bin ptr = some run') :
    ∃ i, (ptr - run.key) % bin.regSize = 0 ∧ i = (ptr - run.key) / bin.regSize ∧
      run.state i = .alloc ∧ run' = runMarkFreed run i := by
  rcases Option.map_eq_some_iff.mp call with ⟨i, valid, marked⟩
  unfold runValidatePtr at valid
  simp only at valid
  split at valid
  · simp at valid
  · next aligned =>
      split at valid
      · simp at valid
      · next alloc =>
          injection valid with idx
          refine ⟨i, by simpa using aligned, idx.symm, ?_, marked.symm⟩
          rw [← idx]
          unfold Run.state
          simpa using alloc

theorem runMarkFreed_state (run : Run) (idx i : Nat) :
    (runMarkFreed run idx).state i = if i = idx then .allocFree else run.state i :=
  getBitmapItem_set _ _ _ _

theorem runAllocate_state (run : Run) (bin : Bin) (i : Nat) :
    (runAllocate run bin).2.state i =
      if i = u16 ((run.gen + run.currentIdx) % bin.elems) then .alloc else run.state i :=
  getBitmapItem_set _ _ _ _

end Steps

section Once

/-- The run after `n` regions were handed out. -/
structure Handed (fresh : Run) (elems : Nat) (run : Run) (n : Nat) : Prop where
  key : run.key = fresh.key
  gen : run.gen = fresh.gen
  current : run.currentIdx = fresh.ahead elems n
  navail : run.navail = elems - n
  free : ∀ i < elems, run.state i = .free ↔ ∀ k, 1 ≤ k → k ≤ n → fresh.ahead elems k ≠ i

variable {b heap n : Nat} {fresh run : Run} {bin : Bin}

/-- The next region is free, and is the next one of the walk. -/
theorem Handed.next {elems : Nat} (handed : Handed fresh elems run n)
    (coprime : Nat.Coprime fresh.gen elems) (few : elems ≤ 1024) (more : n < elems) :
    u16 ((run.gen + run.currentIdx) % elems) = fresh.ahead elems (n + 1) ∧
      run.state (fresh.ahead elems (n + 1)) = .free := by
  have inside : fresh.ahead elems (n + 1) < elems := Run.ahead_lt (by omega) _
  constructor
  · have same : (run.gen + run.currentIdx) % elems = fresh.ahead elems (n + 1) := by
      rw [handed.gen, handed.current]
      unfold Run.ahead
      rw [Nat.add_mod_mod, Nat.succ_mul]
      congr 1
      omega
    rw [same]
    exact u16_eq (by omega)
  · apply (handed.free _ inside).mpr
    intro k first last
    exact Run.ahead_ne coprime (by omega) (by omega)

theorem Handed.allocate (handed : Handed fresh bin.elems run n)
    (coprime : Nat.Coprime fresh.gen bin.elems) (few : bin.elems ≤ 1024)
    (more : n < bin.elems) : Handed fresh bin.elems (runAllocate run bin).2 (n + 1) := by
  have next := (handed.next coprime few more).1
  have left := handed.navail
  rcases runAllocate_kept run bin with ⟨gen, -, key⟩
  have current : (runAllocate run bin).2.currentIdx =
      u16 ((run.gen + run.currentIdx) % bin.elems) := by
    unfold runAllocate
    simp only
  refine ⟨key.trans handed.key, gen.trans handed.gen, current.trans next, ?_, ?_⟩
  · unfold runAllocate u16
    simp only
    omega
  · intro i inside
    rw [runAllocate_state, next]
    by_cases same : i = fresh.ahead bin.elems (n + 1)
    · rw [if_pos same]
      constructor
      · intro taken
        exact absurd taken (by decide)
      · intro none
        exact absurd same.symm (none (n + 1) (by omega) (Nat.le_refl _))
    · rw [if_neg same, handed.free i inside]
      constructor
      · intro before k first last
        rcases Nat.lt_succ_iff_lt_or_eq.mp (Nat.lt_succ_of_le last) with less | last'
        · exact before k first (by omega)
        · rw [last']
          exact Ne.symm same
      · intro after k first last
        exact after k first (by omega)

theorem Handed.deallocate {elems ptr : Nat} (handed : Handed fresh elems run n) :
    Handed fresh elems ((runDeallocate run bin ptr).getD run) n := by
  cases call : runDeallocate run bin ptr with
  | none => exact handed
  | some run' =>
      rcases runDeallocate_some call with ⟨idx, -, -, alloc, marked⟩
      rw [Option.getD_some, marked]
      refine ⟨handed.key, handed.gen, handed.current, handed.navail, ?_⟩
      intro i inside
      rw [← handed.free i inside, runMarkFreed_state]
      by_cases same : i = idx
      · rw [if_pos same, same, alloc]
        simp
      · rw [if_neg same]

theorem runInit_handed (site : RunSite b heap) (rand : Nat → Nat) (stale : Run) :
    Handed (runInit rand stale (Bin.init (classSize b)) heap) (classElems b)
      (runInit rand stale (Bin.init (classSize b)) heap) 0 ∧
    Nat.Coprime (runInit rand stale (Bin.init (classSize b)) heap).gen (classElems b) := by
  rcases binInit_class b site.isClass with ⟨size, count, bits, -, -⟩
  rcases runInit_inv stale site.isClass size count (by rw [bits, count]) rand heap with
    ⟨inv, navail, free⟩
  rw [count] at inv navail free
  refine ⟨⟨rfl, rfl, ?_, navail, ?_⟩, inv.gen⟩
  · unfold Run.ahead
    rw [Nat.zero_mul, Nat.add_zero, Nat.mod_eq_of_lt inv.current]
  · intro i inside
    rw [free i inside]
    simp only [true_iff]
    intro k first last
    omega

/-- What holds after every history that hands out at most all regions. -/
theorem runHistory_handed (site : RunSite b heap) (rand : Nat → Nat) (stale : Run)
    {handed : List Nat} {live : Finset Nat}
    (history : RunHistory (Bin.init (classSize b))
      (runInit rand stale (Bin.init (classSize b)) heap) run handed live)
    (few : handed.length ≤ classElems b) :
    Handed (runInit rand stale (Bin.init (classSize b)) heap) (classElems b) run
        handed.length ∧
      handed = (List.range handed.length).map fun k =>
        heap + (runInit rand stale (Bin.init (classSize b)) heap).ahead (classElems b) (k + 1) *
          classSize b := by
  rcases binInit_class b site.isClass with ⟨size, count, -, -, -⟩
  rcases runInit_handed site rand stale with ⟨start, coprime⟩
  induction history with
  | init => exact ⟨start, rfl⟩
  | @allocate run handed live before ih =>
      rw [List.length_append, List.length_singleton] at few ⊢
      rcases ih (by omega) with ⟨walk, pointers⟩
      have next := (walk.next coprime site.count.2 (by omega)).1
      have inside : (runInit rand stale (Bin.init (classSize b)) heap).ahead (classElems b)
          (handed.length + 1) < classElems b := Run.ahead_lt site.count.1 _
      have after := @Handed.allocate _ _ _ (Bin.init (classSize b)) (count.symm ▸ walk)
        (count.symm ▸ coprime) (count.symm ▸ site.count.2) (by rw [count]; omega)
      rw [count] at after
      have address : (runAllocate run (Bin.init (classSize b))).1 =
          heap + (runInit rand stale (Bin.init (classSize b)) heap).ahead (classElems b)
            (handed.length + 1) * classSize b := by
        unfold runAllocate
        simp only
        rw [count, next, size, walk.key]
        exact site.address inside
      refine ⟨after, ?_⟩
      rw [List.range_succ, List.map_append, ← pointers, address]
      rfl
  | deallocate before ptr above inside ih =>
      rcases ih few with ⟨walk, pointers⟩
      exact ⟨walk.deallocate, pointers⟩

/-- A run hands out every region once: in every history that asks for at most as many regions
as the run has, the pointers are different regions in the run, the region that the next call
takes is free, and the run is depleted when all regions have been handed out, not earlier. -/
theorem run_handsOutOnce (site : RunSite b heap) (rand : Nat → Nat) (stale : Run)
    {handed : List Nat} {live : Finset Nat}
    (history : RunHistory (Bin.init (classSize b))
      (runInit rand stale (Bin.init (classSize b)) heap) run handed live)
    (few : handed.length ≤ (Bin.init (classSize b)).elems) :
    (∃ regions : List Nat, handed = regions.map (fun i => heap + i * classSize b) ∧
      regions.Nodup ∧ (∀ i ∈ regions, i < (Bin.init (classSize b)).elems) ∧
      (handed.length = (Bin.init (classSize b)).elems →
        ∀ i < (Bin.init (classSize b)).elems, i ∈ regions)) ∧
    (handed.Pairwise fun p q => p + classSize b ≤ q ∨ q + classSize b ≤ p) ∧
    (∀ p ∈ handed, heap ≤ p ∧
      p + classSize b ≤ heap + (Bin.init (classSize b)).runSizePages * pageSize) ∧
    (handed.length < (Bin.init (classSize b)).elems →
      run.state (u16 ((run.gen + run.currentIdx) % (Bin.init (classSize b)).elems)) = .free) ∧
    (runIsDepleted run ↔ handed.length = (Bin.init (classSize b)).elems) := by
  rcases binInit_class b site.isClass with ⟨-, count, -, pages, -⟩
  rw [count] at few ⊢
  rw [pages]
  rcases runHistory_handed site rand stale history few with ⟨walk, pointers⟩
  have coprime := (runInit_handed site rand stale).2
  generalize runInit rand stale (Bin.init (classSize b)) heap = fresh at *
  have indices : handed = ((List.range handed.length).map fun k =>
      fresh.ahead (classElems b) (k + 1)).map fun i => heap + i * classSize b := by
    rw [List.map_map]
    exact pointers
  have nodup : ((List.range handed.length).map fun k =>
      fresh.ahead (classElems b) (k + 1)).Nodup := by
    apply List.Nodup.map_on _ List.nodup_range
    intro j inJ k inK same
    rw [List.mem_range] at inJ inK
    by_contra different
    rcases Nat.lt_or_gt_of_ne different with less | more
    · exact Run.ahead_ne coprime (by omega) (by omega) same
    · exact Run.ahead_ne coprime (by omega) (by omega) same.symm
  have inside : ∀ i ∈ (List.range handed.length).map fun k =>
      fresh.ahead (classElems b) (k + 1), i < classElems b := by
    intro i member
    rcases List.mem_map.mp member with ⟨k, -, rfl⟩
    exact Run.ahead_lt site.count.1 _
  have length : ((List.range handed.length).map fun k =>
      fresh.ahead (classElems b) (k + 1)).length = handed.length := by simp
  generalize (List.range handed.length).map (fun k =>
      fresh.ahead (classElems b) (k + 1)) = regions at *
  refine ⟨⟨regions, indices, nodup, inside, ?_⟩, ?_, ?_, ?_, ?_⟩
  · intro all i below
    have perm : regions.Perm (List.range (classElems b)) := by
      apply (List.subperm_of_subset nodup ?_).perm_of_length_le
      · rw [List.length_range, length, all]
      · intro j member
        exact List.mem_range.mpr (inside j member)
    exact perm.mem_iff.mpr (List.mem_range.mpr below)
  · rw [indices, List.pairwise_map]
    exact nodup.imp fun different => region_apart b heap different
  · intro p member
    rw [indices] at member
    rcases List.mem_map.mp member with ⟨i, inRegions, rfl⟩
    have region := site.region (inside i inRegions)
    omega
  · intro more
    rw [(walk.next coprime site.count.2 more).1]
    exact (walk.next coprime site.count.2 more).2
  · unfold runIsDepleted
    rw [walk.navail]
    omega

/-- The run of a large class has one region. -/
theorem run_handsOutOnce_large : ∃ run, runIsDepleted run ∧
    RunHistory (Bin.init (classSize 36))
      (runInit (fun _ => 0) ⟨0, 0, 0, 0, 0, fun _ => 0⟩ (Bin.init (classSize 36)) 65536)
      run [65536] {65536} := by
  have first := RunHistory.allocate (@RunHistory.init (Bin.init (classSize 36))
    (runInit (fun _ => 0) ⟨0, 0, 0, 0, 0, fun _ => 0⟩ (Bin.init (classSize 36)) 65536))
  have address : (runAllocate (runInit (fun _ => 0) ⟨0, 0, 0, 0, 0, fun _ => 0⟩
      (Bin.init (classSize 36)) 65536) (Bin.init (classSize 36))).1 = 65536 := by decide +kernel
  rw [address] at first
  refine ⟨_, ?_, first⟩
  have all := run_handsOutOnce (b := 36) ⟨by decide, by decide⟩ (fun _ => 0) _ first
    (by decide +kernel)
  exact all.2.2.2.2.mpr (by decide +kernel)

end Once

section Exact

/-- `run_validate_ptr` and `run_deallocate` accept the allocated regions and nothing else, and
a region that is given back is the only thing that changes. -/
def Exact (bin : Bin) (run : Run) (live : Finset Nat) : Prop :=
  ∀ ptr, run.key ≤ ptr → ptr < run.key + bin.runSizePages * pageSize →
    ((∃ i, runValidatePtr run bin ptr = some i) ↔
      ∃ i < bin.elems, ptr = run.key + i * bin.regSize ∧ ptr ∈ live) ∧
    ((∃ run', runDeallocate run bin ptr = some run') ↔
      ∃ i < bin.elems, ptr = run.key + i * bin.regSize ∧ ptr ∈ live) ∧
    ∀ run', runDeallocate run bin ptr = some run' →
      ∃ i < bin.elems, ptr = run.key + i * bin.regSize ∧
        (∀ j, run'.state j = if j = i then .allocFree else run.state j) ∧
        run' = { run with regBitmap := run'.regBitmap, nfreed := u16 (run.nfreed + 1) }

/-- Behind the regions of class `b` there is room for an aligned address, `run_init` does not
clear its two bits, and they say "allocated" in the old contents of the block. -/
def TailStale (b : Nat) (stale : Run) : Prop :=
  classElems b * classSize b < classRunBytes b ∧ classElems b % 4 = 0 ∧
    stale.state (classElems b) = .alloc

variable {b heap : Nat} {stale run : Run} {live : Finset Nat}

/-- The bitmap says which pointers are allocated. -/
structure Tracks (b heap : Nat) (run : Run) (live : Finset Nat) : Prop where
  key : run.key = heap
  live : ∀ i < classElems b, heap + i * classSize b ∈ live ↔ run.state i = .alloc
  tail : classElems b * classSize b < classRunBytes b → run.state (classElems b) ≠ .alloc

theorem tracks_init (site : RunSite b heap) (rand : Nat → Nat) (clean : ¬ TailStale b stale) :
    Tracks b heap (runInit rand stale (Bin.init (classSize b)) heap) ∅ := by
  rcases binInit_class b site.isClass with ⟨-, count, bits, -, -⟩
  have few := site.count.2
  have free : ∀ i < classElems b,
      (runInit rand stale (Bin.init (classSize b)) heap).state i = .free := by
    intro i inside
    exact runInit_state (by rw [count]; exact inside) (by rw [count]; exact few)
      (by rw [bits, count])
  refine ⟨rfl, ?_, ?_⟩
  · intro i inside
    rw [free i inside]
    simp
  · intro room alloc
    have bytes : bits2bytesCeil (Bin.init (classSize b)).regMaskSizeBits =
        (classElems b + 3) / 4 := by
      rw [bits]
      unfold bits2bytesCeil clearLow u32
      omega
    unfold Run.state getBitmapItem getCrumb runInit at alloc
    simp only [bytes] at alloc
    by_cases whole : classElems b % 4 = 0
    · rw [if_neg (by omega)] at alloc
      exact clean ⟨room, whole, alloc⟩
    · rw [if_pos (by omega)] at alloc
      simp [BState.ofByte] at alloc

theorem Tracks.allocate (site : RunSite b heap) (tracks : Tracks b heap run live) :
    Tracks b heap (runAllocate run (Bin.init (classSize b))).2
      (insert (runAllocate run (Bin.init (classSize b))).1 live) := by
  rcases binInit_class b site.isClass with ⟨size, count, -, -, -⟩
  have few := site.count
  have mod := Nat.mod_lt (run.gen + run.currentIdx) few.1
  have idx : u16 ((run.gen + run.currentIdx) % (Bin.init (classSize b)).elems) =
      (run.gen + run.currentIdx) % classElems b := by
    rw [count]
    exact u16_eq (by omega)
  have address : (runAllocate run (Bin.init (classSize b))).1 =
      heap + (run.gen + run.currentIdx) % classElems b * classSize b := by
    unfold runAllocate
    simp only
    rw [idx, size, tracks.key]
    exact site.address mod
  rw [address]
  generalize (run.gen + run.currentIdx) % classElems b = next at *
  refine ⟨(runAllocate_kept _ _).2.2.trans tracks.key, ?_, ?_⟩
  · intro i inside
    rw [runAllocate_state, idx, Finset.mem_insert, tracks.live i inside]
    by_cases same : i = next
    · rw [if_pos same, same]
      simp
    · rw [if_neg same]
      constructor
      · intro either
        rcases either with equal | alloc
        · have apart := region_apart b heap same
          have positive := site.size
          omega
        · exact alloc
      · exact Or.inr
  · intro room
    rw [runAllocate_state, idx, if_neg (by omega)]
    exact tracks.tail room

/-- An accepted pointer is an allocated region. -/
theorem Tracks.accepted (site : RunSite b heap) (tracks : Tracks b heap run live) {ptr i : Nat}
    (above : heap ≤ ptr) (inside : ptr < heap + classRunBytes b)
    (aligned : (ptr - heap) % classSize b = 0) (idx : i = (ptr - heap) / classSize b)
    (alloc : run.state i = .alloc) :
    i < classElems b ∧ ptr = heap + i * classSize b ∧ ptr ∈ live := by
  have product : i * classSize b = ptr - heap := by
    rw [idx]
    exact Nat.div_mul_cancel (Nat.dvd_of_mod_eq_zero aligned)
  rcases site.index (i := i) (by omega) with region | ⟨last, room⟩
  · have start : ptr = heap + i * classSize b := by omega
    refine ⟨region, start, ?_⟩
    rw [start]
    exact (tracks.live i region).mpr alloc
  · rw [last] at alloc
    exact absurd alloc (tracks.tail room)

theorem Tracks.deallocate (site : RunSite b heap) (tracks : Tracks b heap run live) {ptr : Nat}
    (above : heap ≤ ptr) (inside : ptr < heap + classRunBytes b) :
    Tracks b heap ((runDeallocate run (Bin.init (classSize b)) ptr).getD run)
      (if (runDeallocate run (Bin.init (classSize b)) ptr).isSome then live.erase ptr
        else live) := by
  rcases binInit_class b site.isClass with ⟨size, -, -, -, -⟩
  cases call : runDeallocate run (Bin.init (classSize b)) ptr with
  | none => exact tracks
  | some run' =>
      rcases runDeallocate_some call with ⟨idx, aligned, quotient, alloc, marked⟩
      rw [tracks.key, size] at aligned quotient
      rcases tracks.accepted site above inside aligned quotient alloc with ⟨region, start, -⟩
      rw [Option.isSome_some, if_pos rfl, Option.getD_some, marked, start]
      refine ⟨tracks.key, ?_, ?_⟩
      · intro i below
        rw [runMarkFreed_state, Finset.mem_erase, tracks.live i below]
        by_cases same : i = idx
        · rw [if_pos same, same]
          simp
        · rw [if_neg same]
          have apart := region_apart b heap same
          have positive := site.size
          constructor
          · exact And.right
          · intro alloc'
            exact ⟨by omega, alloc'⟩
      · intro room
        rw [runMarkFreed_state, if_neg (by omega)]
        exact tracks.tail room

theorem Tracks.exact (site : RunSite b heap) (tracks : Tracks b heap run live) :
    Exact (Bin.init (classSize b)) run live := by
  rcases binInit_class b site.isClass with ⟨size, count, -, pages, -⟩
  have positive := site.size
  intro ptr above inside
  rw [tracks.key] at above inside ⊢
  rw [pages] at inside
  rw [size, count]
  have region : ∀ i < classElems b, ptr = heap + i * classSize b → ptr ∈ live →
      runValidatePtr run (Bin.init (classSize b)) ptr = some i := by
    intro i below start isLive
    have valid := @runValidatePtr_region run (Bin.init (classSize b)) i (by rw [size]; omega)
    rw [tracks.key, size, ← start] at valid
    rw [valid, if_pos ((tracks.live i below).mp (start ▸ isLive))]
  have accepted : ∀ run', runDeallocate run (Bin.init (classSize b)) ptr = some run' →
      ∃ i < classElems b, ptr = heap + i * classSize b ∧ ptr ∈ live ∧
        run' = runMarkFreed run i := by
    intro run' call
    rcases runDeallocate_some call with ⟨i, aligned, quotient, alloc, marked⟩
    rw [tracks.key, size] at aligned quotient
    rcases tracks.accepted site above inside aligned quotient alloc with ⟨below, start, isLive⟩
    exact ⟨i, below, start, isLive, marked⟩
  have valid_iff : (∃ i, runValidatePtr run (Bin.init (classSize b)) ptr = some i) ↔
      ∃ run', runDeallocate run (Bin.init (classSize b)) ptr = some run' := by
    unfold runDeallocate
    cases runValidatePtr run (Bin.init (classSize b)) ptr <;> simp
  have call_iff : (∃ run', runDeallocate run (Bin.init (classSize b)) ptr = some run') ↔
      ∃ i < classElems b, ptr = heap + i * classSize b ∧ ptr ∈ live := by
    constructor
    · intro call
      rcases call with ⟨run', call⟩
      rcases accepted run' call with ⟨i, below, start, isLive, -⟩
      exact ⟨i, below, start, isLive⟩
    · intro allocated
      rcases allocated with ⟨i, below, start, isLive⟩
      exact valid_iff.mp ⟨i, region i below start isLive⟩
  refine ⟨valid_iff.trans call_iff, call_iff, ?_⟩
  intro run' call
  rcases accepted run' call with ⟨i, below, start, -, marked⟩
  rw [marked]
  refine ⟨i, below, start, runMarkFreed_state run i, ?_⟩
  rw [← tracks.key]
  rfl

theorem runHistory_tracks (site : RunSite b heap) (rand : Nat → Nat)
    (clean : ¬ TailStale b stale) {handed : List Nat}
    (history : RunHistory (Bin.init (classSize b))
      (runInit rand stale (Bin.init (classSize b)) heap) run handed live) :
    Tracks b heap run live := by
  rcases binInit_class b site.isClass with ⟨-, -, -, pages, -⟩
  induction history with
  | init => exact tracks_init site rand clean
  | allocate before ih => exact ih.allocate site
  | deallocate before ptr above inside ih =>
      rw [ih.key] at above inside
      rw [pages] at inside
      exact ih.deallocate site above inside

/-- The stale tail is accepted as a region by the fresh run. -/
theorem runValidatePtr_tail (site : RunSite b heap) (rand : Nat → Nat)
    (tail : TailStale b stale) :
    ¬ Exact (Bin.init (classSize b)) (runInit rand stale (Bin.init (classSize b)) heap) ∅ := by
  rcases binInit_class b site.isClass with ⟨size, -, bits, pages, -⟩
  rcases tail with ⟨room, whole, alloc⟩
  have few := site.count.2
  have positive := site.size
  have bytes : bits2bytesCeil (Bin.init (classSize b)).regMaskSizeBits =
      (classElems b + 3) / 4 := by
    rw [bits]
    unfold bits2bytesCeil clearLow u32
    omega
  have kept : (runInit rand stale (Bin.init (classSize b)) heap).state (classElems b) =
      .alloc := by
    unfold Run.state getBitmapItem getCrumb runInit
    simp only [bytes]
    rw [if_neg (by omega)]
    exact alloc
  have key : (runInit rand stale (Bin.init (classSize b)) heap).key = heap := rfl
  have valid := @runValidatePtr_region (runInit rand stale (Bin.init (classSize b)) heap)
    (Bin.init (classSize b)) (classElems b) (by rw [size]; omega)
  rw [if_pos kept, key, size] at valid
  intro exact_
  have claims := (exact_ (heap + classElems b * classSize b) (by rw [key]; omega)
    (by rw [key, pages]; omega)).1.mp ⟨_, valid⟩
  rcases claims with ⟨i, -, -, isLive⟩
  exact absurd isLive (Finset.notMem_empty _)

/-- After every history of a run, the pointers that `run_validate_ptr` and `run_deallocate`
accept are exactly the allocated regions, unless the old contents of the metadata block happen
to mark the unused tail of the run as allocated. -/
theorem runDeallocate_exact (site : RunSite b heap) (rand : Nat → Nat) (stale : Run) :
    (∀ run handed live, RunHistory (Bin.init (classSize b))
        (runInit rand stale (Bin.init (classSize b)) heap) run handed live →
      Exact (Bin.init (classSize b)) run live) ↔ ¬ TailStale b stale := by
  constructor
  · intro always tail
    exact runValidatePtr_tail site rand tail (always _ _ _ RunHistory.init)
  · intro clean run handed live history
    exact (runHistory_tracks site rand clean history).exact site

/-- A block that was cleared. -/
theorem runDeallocate_exact_clear : Exact (Bin.init (classSize 4))
    (runInit (fun _ => 0) ⟨0, 0, 0, 0, 0, fun _ => 0⟩ (Bin.init (classSize 4)) 65536) ∅ := by
  have clean : ¬ TailStale 4 ⟨0, 0, 0, 0, 0, fun _ => 0⟩ := by
    intro tail
    exact absurd tail.2.2 (by decide)
  have site : RunSite 4 65536 := ⟨by decide, by decide⟩
  exact (runDeallocate_exact site (fun _ => 0) _).mpr clean _ _ _ RunHistory.init

/-- Regions of 80 bytes on a block full of ones: the address behind the last region is taken
for a region, and freed. -/
theorem runDeallocate_tail : ¬ ∀ run handed live, RunHistory (Bin.init (classSize 4))
      (runInit (fun _ => 0) ⟨0, 0, 0, 0, 0, fun _ => 0x55#8⟩ (Bin.init (classSize 4)) 65536)
      run handed live →
    Exact (Bin.init (classSize 4)) run live := by
  have site : RunSite 4 65536 := ⟨by decide, by decide⟩
  have tail : TailStale 4 ⟨0, 0, 0, 0, 0, fun _ => 0x55#8⟩ := by
    refine ⟨by decide, by decide, by decide +kernel⟩
  intro always
  exact runValidatePtr_tail site _ tail (always _ _ _ RunHistory.init)

end Exact

end Sealloc
