import Sealloc.World.Malloc

/-! Freeing a region: `run_deallocate`, and what happens to a run and a chunk whose regions are
all freed. -/

namespace Sealloc

open Library Chunk

/-- The process may end where `munmap` fails; what was found before is as it should be. -/
def Exits (env : Env) (ends : Ends World) : Prop :=
  ∀ (w : World) (n : Nat) (errno : Errno), env.munmap n = some errno →
    w.history.unmapFailed = true → (∀ finding ∈ w.history.findings, finding.Passes) → ends.exit w

section Unmap

variable {ends : Ends World} {w : World} {env : Env}

/-- `platform_unmap` of whole pages: the range is unmapped, or the process ends. -/
theorem platformUnmap_wp {ptr len : Nat} {Q : Unit → World → Prop}
    (exits : Exits env ends)
    (passes : ∀ finding ∈ w.history.findings, finding.Passes)
    (aligned : ptr % pageSize = 0) (positive : 0 < len)
    (unmapped : Q () (w.countMunmap.removeMap ⟨ptr, len⟩)) :
    wp ends (platformUnmap env ptr len) Q w := by
  have legal : ¬ (ptr % pageSize ≠ 0 ∨ len = 0) := by omega
  unfold platformUnmap
  rw [wp_bind]
  cases answer : env.munmap w.munmapCalls with
  | none =>
      have run : munmap env ptr len w = .ok none (w.countMunmap.removeMap ⟨ptr, len⟩) := by
        unfold munmap
        rw [if_neg legal, answer]
      apply wp_of_ok run
      exact unmapped
  | some errno =>
      have run : munmap env ptr len w = .ok (some errno) w.countMunmap := by
        unfold munmap
        rw [if_neg legal, answer]
      apply wp_of_ok run
      simp only [wp_bind, wp_modify, wp_exit]
      exact exits _ _ errno answer rfl passes

end Unmap

section Mark

variable {w : World} {g : Layout} {b run : Nat} {bin : Bin} {runs : Nat → Run} {value : Run}

/-- Marking a region freed keeps what a bin says about its runs, as long as not all regions of
the run are freed. -/
theorem BinReady.markFreed (ready : BinReady b bin runs)
    (navail : value.navail = (runs run).navail) (nfreed : value.nfreed < classElems b) :
    BinReady b bin (Function.update runs run value) where
  isClass := ready.isClass
  regSize := ready.regSize
  pages := ready.pages
  bits := ready.bits
  count := ready.count
  avail := by
    rw [ready.avail]
    congr 1
    apply List.map_congr_left
    intro r _
    by_cases same : r = run
    · rw [same, Function.update_self, navail]
    · rw [Function.update_of_ne same]
  bound := ready.bound
  active := by
    intro r member
    by_cases same : r = run
    · rw [same, Function.update_self, navail, ← same]
      exact ready.active r member
    · rw [Function.update_of_ne same]
      exact ready.active r member
  inactive := by
    intro r member
    by_cases same : r = run
    · rw [same, Function.update_self, navail, ← same]
      exact ⟨(ready.inactive r member).1, nfreed⟩
    · rw [Function.update_of_ne same]
      exact ready.inactive r member

/-- A world in which only the content of a run has changed. -/
theorem withRegion_setRun (w : World) (b run : Nat) (value : Run) :
    w.withRegion b run value (w.arena.bins b) w.history.origin =
      w.setRun run (w.arena.bins b).runMetaSize value := setBin_self _ b

end Mark

/-- The region of `len` bytes at `ptr` was allocated and is freed. -/
structure Released (w : World) (ptr len : Nat) (w' : World) : Prop where
  inv : ∃ g, Inv w' g none
  keeps : Keeps (fun p => p = ptr) w w'
  gone : ∀ o n, ¬ Located w' ptr o n
  spent : ∀ x, ptr ≤ x → x < ptr + len → Spent w' ptr x
  copies : w'.history.copies = w.history.copies
  granted : w'.history.granted = w.history.granted
  stocked : Stocked w → Stocked w'

section Released

variable {w : World} {g : Layout} {b run i : Nat}

/-- The index of a region by its address. -/
theorem Inv.region_index (inv : Inv w g none) (member : run ∈ w.arena.entries (.run b)) {j : Nat}
    (same : (w.runs run).key + j * classSize b = (w.runs run).key + i * classSize b) : j = i := by
  have facts := classSize_facts b (inv.runs b run member).isClass
  exact Nat.eq_of_mul_eq_mul_right (by omega) (Nat.add_left_cancel same)

/-- Nothing else is allocated at the address of an allocated region of a run. -/
theorem Inv.located_run (inv : Inv w g none) (member : run ∈ w.arena.entries (.run b))
    (inside : i < classElems b) (alloc : (w.runs run).state i = .alloc) {o : Origin} {n : Nat}
    (located : Located w ((w.runs run).key + i * classSize b) o n) :
    o = .regular (w.history.runChunk run) b run ∧ n = classSize b := by
  have here : Located w ((w.runs run).key + i * classSize b)
      (.regular (w.history.runChunk run) b run) (classSize b) :=
    ⟨⟨member, rfl, i, inside, rfl, alloc⟩, rfl⟩
  exact inv.located_unique located here

/-- `run_deallocate` of an allocated region succeeds. -/
theorem Inv.runDeallocate_alloc (inv : Inv w g none) (member : run ∈ w.arena.entries (.run b))
    (alloc : (w.runs run).state i = .alloc) :
    runDeallocate (w.runs run) (w.arena.bins b) ((w.runs run).key + i * classSize b) =
      some (runMarkFreed (w.runs run) i) := by
  have ready := inv.ready member
  have facts := classSize_facts b ready.isClass
  have size : 0 < (w.arena.bins b).regSize := by
    rw [ready.regSize]
    omega
  have valid := @runValidatePtr_region (w.runs run) _ i size
  rw [ready.regSize, if_pos alloc] at valid
  unfold runDeallocate
  rw [valid]
  rfl

/-- Freeing a region of a run that keeps another region. -/
theorem Inv.markFreed (inv : Inv w g none) (member : run ∈ w.arena.entries (.run b))
    (inside : i < classElems b) (alloc : (w.runs run).state i = .alloc)
    (left : (runMarkFreed (w.runs run) i).nfreed ≠ classElems b) :
    Released w ((w.runs run).key + i * classSize b) (classSize b)
      (w.setRun run (w.arena.bins b).runMetaSize (runMarkFreed (w.runs run) i)) := by
  have ready := inv.ready member
  have place := inv.runs b run member
  rcases runMarkFreed_inv place.inv inside alloc with ⟨runInv, nfreed, navail, key, stores⟩
  have fewer : (runMarkFreed (w.runs run) i).nfreed < classElems b := by
    have counted := Run.count_le (runMarkFreed (w.runs run) i) (classElems b) .allocFree
    rw [← runInv.nfreed] at counted
    omega
  have ready' := @BinReady.markFreed b run _ _ _ ready navail fewer
  have lists : ((w.arena.bins b).runListActive ++ (w.arena.bins b).runListInactive).Perm
      (w.arena.entries (.run b)) := List.Perm.refl _
  rw [← withRegion_setRun]
  generalize runMarkFreed (w.runs run) i = value at *
  have freed : value.state i = .allocFree := by
    rw [stores i, if_pos rfl]
  have others : ∀ j, j ≠ i → value.state j = (w.runs run).state j := by
    intro j different
    rw [stores j, if_neg different]
  have before : ∀ p o n, Located (w.withRegion b run value (w.arena.bins b) w.history.origin) p o n →
      Located w p o n ∧ p ≠ (w.runs run).key + i * classSize b := by
    intro p o n located
    rcases withRegion_located inv member lists key located with
      ⟨old, other⟩ | ⟨rfl, rfl, j, small, rfl, state⟩
    · refine ⟨old, ?_⟩
      intro same
      rw [same] at old
      exact other _ _ (inv.located_run member inside alloc old).1
    · have different : j ≠ i := by
        intro same
        rw [same, freed] at state
        simp at state
      rw [others j different] at state
      exact ⟨⟨⟨member, rfl, j, small, rfl, state⟩, rfl⟩,
        fun equal => different (inv.region_index member equal)⟩
  refine ⟨⟨g, inv.changeRun member ready' lists key runInv ?_⟩, ?_, ?_, ?_, rfl, rfl, ?_⟩
  · intro p o n located
    exact inv.origin p o n (before p o n located).1
  · apply withRegion_keeps inv member lists key
    · intro j _ stays state
      have different : j ≠ i := fun same => stays (by rw [same])
      rw [others j different]
      exact state
    · intro j _ state
      rw [stores j]
      split
      · rfl
      · exact state
  · intro o n located
    exact (before _ o n located).2 rfl
  · intro x low high
    left
    refine ⟨w.history.runChunk run, b, run, ⟨?_, rfl, i, inside, ?_, ?_⟩, low, high⟩
    · exact (withRegion_member lists).mpr member
    · rw [withRegion_run, key]
    · rw [withRegion_run]
      exact freed
  · intro stocked c
    rw [withRegion_setRun]
    exact stocked c

end Released

/-- The world without a run of bin `b`, all of whose regions were freed. -/
def World.withoutRun (w : World) (b run : Nat) (value : Run) : World :=
  ((w.setRun run (w.arena.bins b).runMetaSize value).record
    { w.history with findings := .deleted b run true :: w.history.findings }).setBin b
      ((w.arena.bins b).deleteRun run)

section Drop

variable {w : World} {g : Layout} {b run : Nat} {value : Run}

theorem withoutRun_entries (member : run ∉ (w.arena.bins b).runListActive) :
    (w.withoutRun b run value).arena.entries (.run b) = (w.arena.entries (.run b)).erase run := by
  have after : (w.withoutRun b run value).arena.entries (.run b) =
      ((w.arena.bins b).deleteRun run).runListActive ++
        ((w.arena.bins b).deleteRun run).runListInactive := entries_setBin_same
  have before : w.arena.entries (.run b) =
      (w.arena.bins b).runListActive ++ (w.arena.bins b).runListInactive := rfl
  rw [after, before, List.erase_append_right _ member]
  rfl

theorem withoutRun_entries_other {kind : Kind} (different : kind ≠ .run b) :
    (w.withoutRun b run value).arena.entries kind = w.arena.entries kind :=
  entries_setBin_other different

theorem withoutRun_run_other {r : Nat} (different : r ≠ run) :
    (w.withoutRun b run value).runs r = w.runs r := Function.update_of_ne different _ _

/-- The deleted run is the only entry that is gone. -/
theorem Inv.withoutRun_member (inv : Inv w g none)
    (inactive : run ∈ (w.arena.bins b).runListInactive) {kind : Kind} {r : Nat} :
    r ∈ (w.withoutRun b run value).arena.entries kind ↔ r ∈ w.arena.entries kind ∧ r ≠ run := by
  have entry : run ∈ w.arena.entries (.run b) := List.mem_append_right _ inactive
  have parts := List.nodup_append.mp (inv.blocks.nodup (.run b))
  have passive : run ∉ (w.arena.bins b).runListActive :=
    fun active => parts.2.2 run active run inactive rfl
  by_cases same : kind = .run b
  · rw [same, withoutRun_entries passive, (inv.blocks.nodup (.run b)).mem_erase_iff]
    exact And.comm
  · rw [withoutRun_entries_other same]
    refine ⟨fun member => ⟨member, ?_⟩, And.left⟩
    intro eq
    exact same (inv.blocks.single kind (.run b) run (eq ▸ member) entry)

theorem Inv.withoutRun_region (inv : Inv w g none)
    (inactive : run ∈ (w.arena.bins b).runListInactive) {chunk c r ptr : Nat} {s : BState} :
    Region (w.withoutRun b run value) chunk c r ptr s ↔ Region w chunk c r ptr s ∧ r ≠ run := by
  unfold Region
  rw [inv.withoutRun_member inactive]
  constructor
  · intro region
    rcases region with ⟨⟨member, different⟩, from_, i, inside, ptrAt, state⟩
    rw [withoutRun_run_other different] at ptrAt state
    exact ⟨⟨member, from_, i, inside, ptrAt, state⟩, different⟩
  · intro region
    rcases region with ⟨⟨member, from_, i, inside, ptrAt, state⟩, different⟩
    refine ⟨⟨member, different⟩, from_, i, inside, ?_, ?_⟩
    · rw [withoutRun_run_other different]
      exact ptrAt
    · rw [withoutRun_run_other different]
      exact state

/-- A run is deleted from its bin; its node waits for its chunk. -/
theorem Inv.dropRun (inv : Inv w g none) (inactive : run ∈ (w.arena.bins b).runListInactive) :
    Inv (w.withoutRun b run value) g (some (w.history.runChunk run, g.node run)) := by
  have entry : run ∈ w.arena.entries (.run b) := List.mem_append_right _ inactive
  have ready := inv.ready entry
  have nodup := inv.blocks.nodup (.run b)
  have parts := List.nodup_append.mp nodup
  have passive : run ∉ (w.arena.bins b).runListActive :=
    fun active => parts.2.2 run active run inactive rfl
  have member : ∀ kind r, r ∈ (w.withoutRun b run value).arena.entries kind ↔
      r ∈ w.arena.entries kind ∧ r ≠ run := fun _ _ => inv.withoutRun_member inactive
  have place := inv.runs b run entry
  refine ⟨inv.brk, ?_, inv.chunks, ?_, ?_, ?_, ?_, ?_, ?_, inv.huges, inv.owner, inv.owned,
    inv.granted, ?_, ?_⟩
  · apply inv.blocks.fewer
    · intro kind addr inside
      refine ⟨((member kind addr).mp inside).1, ?_⟩
      have sizes : (w.withoutRun b run value).arena.metaSize = w.arena.metaSize :=
        metaSize_setBin rfl
      rw [sizes]
    · intro kind
      by_cases same : kind = .run b
      · rw [same, withoutRun_entries passive]
        exact nodup.erase run
      · rw [withoutRun_entries_other same]
        exact inv.blocks.nodup kind
  · intro c r inside
    exact inv.known c r ((member _ r).mp inside).1
  · intro c r inside
    have before := (member _ r).mp inside
    rw [withoutRun_run_other before.2]
    exact inv.runs c r before.1
  · intro chunk inside n live waiting
    rcases inv.cover chunk inside n live (by simp) with ⟨c, r, before, from_, node⟩
    refine ⟨c, r, (member _ r).mpr ⟨before, ?_⟩, from_, node⟩
    intro same
    rw [same] at from_ node
    exact waiting (by rw [← from_, ← node])
  · intro c c' r r' inside inside'
    exact inv.same c c' r r' ((member _ r).mp inside).1 ((member _ r').mp inside').1
  · intro chunk n waiting
    have same := Prod.mk.inj (Option.some.inj waiting)
    rw [← same.1, ← same.2]
    refine ⟨inv.known b run entry, place.live, ?_⟩
    intro c r inside from_ node
    have before := (member _ r).mp inside
    exact before.2 (inv.same c b r run before.1 entry from_ node)
  · intro c
    by_cases same : c = b
    · right
      have here : (w.withoutRun b run value).arena.bins b = (w.arena.bins b).deleteRun run :=
        setBin_same _
      rw [same, here]
      refine ⟨ready.isClass, ready.regSize, ready.pages, ready.bits, ready.count, ?_, ready.bound,
        ?_, ?_⟩
      · have avail := ready.avail
        have active : ((w.arena.bins b).deleteRun run).runListActive =
            (w.arena.bins b).runListActive := rfl
        have total : ((w.arena.bins b).deleteRun run).availRegs = (w.arena.bins b).availRegs := rfl
        rw [total, active, avail]
        congr 1
        apply List.map_congr_left
        intro r inside
        rw [withoutRun_run_other fun eq : r = run => passive (eq ▸ inside)]
      · intro r inside
        have before : r ∈ (w.arena.bins b).runListActive := inside
        rw [withoutRun_run_other fun eq : r = run => passive (eq ▸ before)]
        exact ready.active r before
      · intro r inside
        have before : r ∈ (w.arena.bins b).runListInactive.erase run := inside
        have different := (parts.2.1.mem_erase_iff.mp before).1
        rw [withoutRun_run_other different]
        exact ready.inactive r (List.mem_of_mem_erase before)
    · have there : (w.withoutRun b run value).arena.bins c = w.arena.bins c := setBin_other _ same
      rw [there]
      rcases inv.bins c with zero | ready'
      · exact Or.inl zero
      · right
        have other : ∀ r ∈ w.arena.entries (.run c), r ≠ run := by
          intro r inside eq
          exact same (inv.run_bin entry (eq ▸ inside))
        apply ready'.congr
        · intro r inside
          rw [withoutRun_run_other (other r (List.mem_append_left _ inside))]
        · intro r inside
          rw [withoutRun_run_other (other r (List.mem_append_right _ inside))]
          exact ⟨rfl, rfl⟩
  · intro finding inside
    rcases List.mem_cons.mp inside with rfl | before
    · rfl
    · exact inv.findings finding before
  · intro p o n located
    apply inv.origin p o n
    cases o with
    | huge huge => exact located
    | regular chunk c r =>
        exact ⟨((inv.withoutRun_region inactive).mp located.1).1, located.2⟩

end Drop

/-- A live run of a chunk dies. -/
def Layout.kill (g : Layout) (chunk n : Nat) : Layout :=
  { g with
    live := Function.update g.live chunk ((g.live chunk).erase n)
    dead := Function.update g.dead chunk (n :: g.dead chunk) }

/-- The world in which the bytes under node `n` of a chunk are unmapped. -/
def World.withoutNode (w : World) (chunk n : Nat) (ck : Chunk) : World :=
  (w.countMunmap.removeMap
    ⟨(nodeRun (w.chunks chunk).key n).ptr, (nodeRun (w.chunks chunk).key n).size⟩).setChunk chunk ck

section Kill

variable {w : World} {g : Layout} {chunk n : Nat} {ck : Chunk}

theorem withoutNode_mapped (x : Nat) : (w.withoutNode chunk n ck).Mapped x ↔
    w.Mapped x ∧ ¬ (nodeRun (w.chunks chunk).key n).Holds x :=
  mapped_removeMap w.countMunmap _ x

/-- The pages of the run that a chunk was waiting for are unmapped, and the chunk knows. -/
theorem Inv.killNode (inv : Inv w g (some (chunk, n)))
    (chunkInv : ChunkInv ck ((g.live chunk).erase n) (n :: g.dead chunk))
    (key : ck.key = (w.chunks chunk).key)
    (table : ck.regSizeSmallMedium = (w.chunks chunk).regSizeSmallMedium) :
    Inv (w.withoutNode chunk n ck) (g.kill chunk n) none := by
  have waits := inv.waits chunk n rfl
  have place := inv.chunks chunk waits.1
  have liveOther : ∀ c, c ≠ chunk → (g.kill chunk n).live c = g.live c :=
    fun c other => Function.update_of_ne other _ _
  have liveSame : (g.kill chunk n).live chunk = (g.live chunk).erase n := Function.update_self _ _ _
  have deadOther : ∀ c, c ≠ chunk → (g.kill chunk n).dead c = g.dead c :=
    fun c other => Function.update_of_ne other _ _
  have deadSame : (g.kill chunk n).dead chunk = n :: g.dead chunk := Function.update_self _ _ _
  have chunkSame : (w.withoutNode chunk n ck).chunks chunk = ck := setChunk_same _
  have chunkOther : ∀ c, c ≠ chunk → (w.withoutNode chunk n ck).chunks c = w.chunks c :=
    fun c other => setChunk_other _ other
  have owns : ∀ o x, Owns (w.withoutNode chunk n ck) (g.kill chunk n) o x →
      Owns w g o x ∧ (o = .chunk chunk → ¬ (nodeRun (w.chunks chunk).key n).Holds x) := by
    intro o x owns
    cases o with
    | internal root => exact ⟨owns, by simp⟩
    | huge huge => exact ⟨owns, by simp⟩
    | chunk c =>
        rcases owns with ⟨member, low, high, outside⟩
        by_cases same : c = chunk
        · rw [same, chunkSame, key] at low high outside
          rw [deadSame] at outside
          rw [same] at member ⊢
          refine ⟨⟨member, low, high, ?_⟩, fun _ => outside n List.mem_cons_self⟩
          exact fun m dead => outside m (List.mem_cons_of_mem n dead)
        · rw [chunkOther c same] at low high outside
          rw [deadOther c same] at outside
          refine ⟨⟨member, low, high, outside⟩, ?_⟩
          intro eq
          rw [Owner.chunk.injEq] at eq
          exact absurd eq same
  refine ⟨inv.brk, inv.blocks, ?_, inv.known, ?_, ?_, inv.same, ?_, inv.bins, inv.huges, ?_, ?_,
    ?_, inv.findings, inv.origin⟩
  · intro c member
    by_cases same : c = chunk
    · rw [same, chunkSame, liveSame, deadSame]
      refine ⟨chunkInv, ?_, ?_, ?_, ?_⟩
      · intro m leaf outside
        rw [table]
        apply place.blank m leaf
        intro inside
        apply outside
        rcases List.mem_append.mp inside with isLive | isDead
        · by_cases killed : m = n
          · rw [killed]
            exact List.mem_append_right _ List.mem_cons_self
          · exact List.mem_append_left _ ((List.mem_erase_of_ne killed).mpr isLive)
        · exact List.mem_append_right _ (List.mem_cons_of_mem n isDead)
      · rw [key]
        exact place.aligned
      · rw [key]
        exact place.low
      · rw [key]
        exact place.high
    · rw [chunkOther c same, liveOther c same, deadOther c same]
      exact inv.chunks c member
  · intro b run member
    have before := inv.runs b run member
    have from_ : (w.withoutNode chunk n ck).history.runChunk run = w.history.runChunk run := rfl
    rw [from_]
    by_cases same : w.history.runChunk run = chunk
    · have other : g.node run ≠ n := waits.2.2 b run member same
      rw [same] at before ⊢
      rw [chunkSame, liveSame]
      apply before.chunk key ((List.mem_erase_of_ne other).mpr before.live)
      unfold reportedSize
      rw [table]
    · rw [chunkOther _ same, liveOther _ same]
      exact before
  · intro c member m live _
    by_cases same : c = chunk
    · rw [same, liveSame] at live
      have different : m ≠ n := by
        intro eq
        rw [eq] at live
        exact place.inv.nodup.not_mem_erase live
      rw [same]
      apply inv.cover chunk waits.1 m (List.mem_of_mem_erase live)
      simp [different]
    · rw [liveOther c same] at live
      apply inv.cover c member m live
      simp [same]
  · intro c m impossible
    simp at impossible
  · intro o o' x one two
    exact inv.owner o o' x (owns o x one).1 (owns o' x two).1
  · intro o x one
    have before := owns o x one
    apply (withoutNode_mapped x).mpr
    refine ⟨inv.owned o x before.1, ?_⟩
    intro inside
    have owner := inv.owner o (.chunk chunk) x before.1 (inv.owns_live waits.1 waits.2.1 inside)
    exact before.2 owner inside
  · intro x mapped
    exact inv.granted x ((withoutNode_mapped x).mp mapped).1

/-- A chunk that has no runs any more leaves the list. -/
theorem Inv.dropChunk (inv : Inv w g none) (whole : Gone (g.dead chunk) 1) :
    Inv (w.setArena { w.arena with chunkList := w.arena.chunkList.erase chunk }) g none := by
  have fewer : ∀ c, c ∈ w.arena.chunkList.erase chunk → c ∈ w.arena.chunkList ∧ c ≠ chunk := by
    intro c member
    have parts := (inv.blocks.nodup .chunk).mem_erase_iff.mp member
    exact ⟨parts.2, parts.1⟩
  have owns : ∀ o x, Owns (w.setArena { w.arena with
      chunkList := w.arena.chunkList.erase chunk }) g o x → Owns w g o x := by
    intro o x owns
    cases o with
    | internal root => exact owns
    | huge huge => exact owns
    | chunk c =>
        rcases owns with ⟨member, inside⟩
        exact ⟨(fewer c member).1, inside⟩
  refine ⟨inv.brk, ?_, ?_, ?_, inv.runs, ?_, inv.same, ?_, inv.bins, inv.huges, ?_, ?_,
    inv.granted, inv.findings, inv.origin⟩
  · apply inv.blocks.fewer
    · intro kind addr member
      cases kind with
      | chunk => exact ⟨(fewer addr member).1, rfl⟩
      | huge => exact ⟨member, rfl⟩
      | run b => exact ⟨member, rfl⟩
    · intro kind
      cases kind with
      | chunk => exact (inv.blocks.nodup .chunk).erase chunk
      | huge => exact inv.blocks.nodup .huge
      | run b => exact inv.blocks.nodup (.run b)
  · intro c member
    exact inv.chunks c (fewer c member).1
  · intro b run member
    have known := inv.known b run member
    have place := inv.runs b run member
    apply (inv.blocks.nodup .chunk).mem_erase_iff.mpr
    refine ⟨?_, known⟩
    intro same
    have from_ : w.history.runChunk run = chunk := same
    rw [from_] at known place
    have chunkInv := (inv.chunks chunk known).inv
    have root := below_one (chunkInv.isNode place.live).1
    exact chunkInv.live_notGone place.live (Or.inl root) whole
  · intro c member m live waiting
    exact inv.cover c (fewer c member).1 m live waiting
  · intro c m impossible
    simp at impossible
  · intro o o' x one two
    exact inv.owner o o' x (owns o x one) (owns o' x two)
  · intro o x one
    exact inv.owned o x (owns o x one)

end Kill

section Released

variable {w w₁ w₂ : World} {g : Layout} {ptr len : Nat}

/-- A step after the release that keeps what is allocated and maps nothing. -/
theorem Released.later (released : Released w ptr len w₁) (inv : Inv w₂ g none)
    (keeps : Keeps (fun _ => False) w₁ w₂) (located : ∀ o n, Located w₂ ptr o n → Located w₁ ptr o n)
    (copies : w₂.history.copies = w₁.history.copies)
    (granted : w₂.history.granted = w₁.history.granted)
    (bins : w₂.arena.bins = w₁.arena.bins) : Released w ptr len w₂ where
  inv := ⟨g, inv⟩
  keeps := (released.keeps.trans keeps).mono fun _ is => is.elim id False.elim
  gone := fun o n found => released.gone o n (located o n found)
  spent := by
    intro x low high
    rcases keeps.spent with ⟨fresh, eq, all⟩
    have none : fresh = [] := by
      rw [granted] at eq
      exact List.self_eq_append_left.mp eq
    rcases all ptr x (released.spent x low high) with spent | ⟨span, member, -⟩
    · exact spent
    · rw [none] at member
      exact absurd member List.not_mem_nil
  copies := copies.trans released.copies
  granted := granted.trans released.granted
  stocked := by
    intro stocked
    unfold Stocked
    rw [bins]
    exact released.stocked stocked

/-- Metadata that is on no list any more is given back. -/
theorem Released.freeMeta {addr : Nat} (released : Released w ptr len w₁) (inv : Inv w₁ g none)
    (frame : MetaFrame (fun a => a = addr) w₁ w₂) (history : w₂.history = w₁.history)
    (unused : ∀ kind, addr ∉ w₁.arena.entries kind) :
    Released w ptr len w₂ ∧ Inv w₂ g none := by
  have inv₂ := inv.metaFrame frame fun kind a member same => unused kind (same ▸ member)
  refine ⟨released.later inv₂ (frame.keeps inv) ?_ ?_ ?_ frame.bins, inv₂⟩
  · intro o n located
    unfold Located Region at located ⊢
    rw [frame.entries.1, frame.runChunk, frame.runs, frame.hugeAllocList, frame.huges] at located
    exact located
  · rw [history]
  · rw [history]

end Released

section Specs

variable {ends : Ends World} {w : World} {g : Layout} {env : Env} {b chunk run n i : Nat}

/-- `chunk_deallocate_run` of the run that the chunk waits for. -/
theorem onChunkDeallocateRun_wp (exits : Exits env ends)
    (inv : Inv w g (some (chunk, n))) :
    wp ends (onChunkDeallocateRun env chunk (nodeRun (w.chunks chunk).key n).ptr)
      (fun whole w' => ∃ ck, w' = w.withoutNode chunk n ck ∧ Inv w' (g.kill chunk n) none ∧
        (whole = true ↔ Gone ((g.kill chunk n).dead chunk) 1)) w := by
  have waits := inv.waits chunk n rfl
  have place := inv.chunks chunk waits.1
  rcases chunkDeallocateRun_ok place.inv waits.2.1 with
    ⟨d, call, ptr, size, chunkInv, whole, key, table, -⟩
  have bounds := nodeRun_bounds (w.chunks chunk).key (place.inv.isNode waits.2.1)
  have aligned : (nodeRun (w.chunks chunk).key n).ptr % pageSize = 0 := by
    have start := place.aligned
    unfold nodeRun
    rw [leastRegion]
    unfold pageSize at start ⊢
    simp only
    omega
  have deadSame : (g.kill chunk n).dead chunk = n :: g.dead chunk := Function.update_self _ _ _
  unfold onChunkDeallocateRun
  simp only [wp_bind, wp_get, call]
  rw [ptr, size]
  generalize run : nodeRun (w.chunks chunk).key n = node at aligned bounds ⊢
  apply platformUnmap_wp exits inv.findings aligned bounds.2.2
  have world : (w.countMunmap.removeMap ⟨node.ptr, node.size⟩).setChunk chunk d.chunk =
      w.withoutNode chunk n d.chunk := by
    unfold World.withoutNode
    rw [run]
  simp only [wp_modify, wp_pure, world]
  refine ⟨d.chunk, rfl, inv.killNode chunkInv key table, ?_⟩
  rw [deadSame]
  exact whole

/-- What is left when a run, all of whose other regions were freed, is gone with its pages. -/
theorem Inv.releaseRun {value : Run} {ck : Chunk} {g' : Layout} (inv : Inv w g none)
    (inactive : run ∈ (w.arena.bins b).runListInactive) (inside : i < classElems b)
    (alloc : (w.runs run).state i = .alloc)
    (others : ∀ j < classElems b, j ≠ i → (w.runs run).state j = .allocFree)
    (after : Inv ((w.withoutRun b run value).withoutNode (w.history.runChunk run) (g.node run) ck)
      g' none) :
    Released w ((w.runs run).key + i * classSize b) (classSize b)
      ((w.withoutRun b run value).withoutNode (w.history.runChunk run) (g.node run) ck) := by
  have entry : run ∈ w.arena.entries (.run b) := List.mem_append_right _ inactive
  have known := inv.known b run entry
  have mapped : ∀ x, ((w.withoutRun b run value).withoutNode (w.history.runChunk run)
      (g.node run) ck).Mapped x ↔
        w.Mapped x ∧ ¬ (nodeRun (w.chunks (w.history.runChunk run)).key (g.node run)).Holds x :=
    fun x => withoutNode_mapped x
  have unmapped : ∀ {p x s}, Region w (w.history.runChunk run) b run p s → p ≤ x →
      x < p + classSize b → ¬ ((w.withoutRun b run value).withoutNode (w.history.runChunk run)
        (g.node run) ck).Mapped x := by
    intro p x s region low high still
    exact ((mapped x).mp still).2 (inv.region_run region low high)
  have regions : ∀ {c d r p s}, Region ((w.withoutRun b run value).withoutNode
      (w.history.runChunk run) (g.node run) ck) c d r p s ↔ Region w c d r p s ∧ r ≠ run :=
    fun {_ _ _ _ _} => inv.withoutRun_region inactive
  have ofRun : ∀ {c d p s}, Region w c d run p s → c = w.history.runChunk run ∧ d = b := by
    intro c d p s region
    exact ⟨region.2.1.symm, inv.run_bin entry region.1⟩
  refine ⟨⟨g', after⟩, ⟨?_, ?_, ⟨[], rfl, ?_⟩⟩, ?_, ?_, rfl, rfl, ?_⟩
  · intro p o len stays located
    cases o with
    | huge huge => exact located
    | regular c d r =>
        refine ⟨regions.mpr ⟨located.1, ?_⟩, located.2⟩
        intro same
        rw [same] at located
        rcases ofRun located.1 with ⟨rfl, rfl⟩
        rcases located.1 with ⟨-, -, j, small, ptrAt, state⟩
        have different : j ≠ i := fun is => stays (by rw [ptrAt, is])
        rw [others j small different] at state
        simp at state
  · intro p o len x _ located low high
    have user : UserByte w x := ⟨p, o, len, located, low, high⟩
    have first := @scribble_other w.memory _ _ x
      (inv.user_apart user (inv.blocks.placed _ run entry))
    have second := @scribble_other (w.setRun run (w.arena.bins b).runMetaSize value).memory _ _ x
      (inv.user_apart user (chunk_placed inv known))
    exact second.trans first
  · intro p x spent
    left
    rcases spent with ⟨c, d, r, region, within⟩ | gone
    · by_cases same : r = run
      · right
        rw [same] at region
        rcases ofRun region with ⟨rfl, rfl⟩
        exact unmapped region within.1 within.2
      · exact Or.inl ⟨c, d, r, regions.mpr ⟨region, same⟩, within⟩
    · exact Or.inr fun still => gone ((mapped x).mp still).1
  · intro o len located
    cases o with
    | huge huge =>
        have there : Located w ((w.runs run).key + i * classSize b) (.huge huge) len := located
        have origin := (inv.located_run entry inside alloc there).1
        simp at origin
    | regular c d r =>
        have there := regions.mp located.1
        have origin := (inv.located_run entry inside alloc
          (o := .regular c d r) (n := len) ⟨there.1, located.2⟩).1
        rw [Origin.regular.injEq] at origin
        exact there.2 origin.2.2
  · intro x low high
    exact Or.inr (unmapped ⟨entry, rfl, i, inside, rfl, alloc⟩ low high)
  · intro stocked c
    by_cases same : c = b
    · have here : ((w.withoutRun b run value).withoutNode (w.history.runChunk run)
          (g.node run) ck).arena.bins b = (w.arena.bins b).deleteRun run := setBin_same _
      rw [same, here]
      rcases stocked b with zero | enough
      · rw [zero] at inactive
        exact absurd inactive List.not_mem_nil
      · exact Or.inr enough
    · have there : ((w.withoutRun b run value).withoutNode (w.history.runChunk run)
          (g.node run) ck).arena.bins c = w.arena.bins c := setBin_other _ same
      rw [there]
      exact stocked c

/-- The metadata of a run that is on no list is given back. -/
theorem Released.freeRun {w₁ : World} {ptr len size : Nat} (released : Released w ptr len w₁)
    (inv : Inv w₁ g none) (placed : Placed w₁.arena.internalAllocList w₁.intAllocs run size)
    (unused : ∀ kind, run ∉ w₁.arena.entries kind) :
    wp ends (arenaInternalFree run) (fun _ w' => Released w ptr len w') w₁ := by
  apply wp_mono (arenaInternalFree_wp inv.rootsOk placed)
  intro _ w₂ post
  exact (released.freeMeta inv post.1 post.2 unused).1

/-- A chunk without runs is given back. -/
theorem Released.freeChunk {w₁ : World} {ptr len : Nat} (released : Released w ptr len w₁)
    (inv : Inv w₁ g none) (member : chunk ∈ w₁.arena.chunkList) (whole : Gone (g.dead chunk) 1) :
    wp ends (arenaDeallocateChunk chunk) (fun _ w' => Released w ptr len w' ∧ Inv w' g none ∧
      (∀ addr size, addr ≠ chunk → Placed w₁.arena.internalAllocList w₁.intAllocs addr size →
        Placed w'.arena.internalAllocList w'.intAllocs addr size) ∧
      ∀ kind addr, addr ∉ w₁.arena.entries kind → addr ∉ w'.arena.entries kind) w₁ := by
  have placed := chunk_placed inv member
  have dropped := inv.dropChunk whole
  have unused : ∀ kind, chunk ∉ (w₁.setArena
      { w₁.arena with chunkList := w₁.arena.chunkList.erase chunk }).arena.entries kind := by
    intro kind inside
    cases kind with
    | chunk => exact (inv.blocks.nodup .chunk).not_mem_erase inside
    | huge =>
        have kinds := inv.blocks.single .huge .chunk chunk inside member
        simp at kinds
    | run c =>
        have kinds := inv.blocks.single (.run c) .chunk chunk inside member
        simp at kinds
  have fewer : ∀ kind addr, addr ∉ w₁.arena.entries kind → addr ∉ (w₁.setArena
      { w₁.arena with chunkList := w₁.arena.chunkList.erase chunk }).arena.entries kind := by
    intro kind addr outside inside
    cases kind with
    | chunk => exact outside (List.mem_of_mem_erase inside)
    | huge => exact outside inside
    | run c => exact outside inside
  have smaller : Released w ptr len (w₁.setArena
      { w₁.arena with chunkList := w₁.arena.chunkList.erase chunk }) := by
    apply released.later dropped _ (fun _ _ located => ?_) rfl rfl rfl
    · apply Keeps.of_regions
      · exact ⟨[], rfl, fun x => by simp [World.Mapped, World.setArena]⟩
      · exact fun _ _ _ _ _ _ region => region
      · exact fun huge inside => ⟨inside, rfl⟩
      · exact fun _ _ => rfl
    · exact located
  unfold arenaDeallocateChunk
  simp only [wp_bind, wp_modify]
  apply wp_mono (@arenaInternalFree_wp _ _ chunkSizeof dropped.rootsOk _ placed)
  intro _ w₂ post
  rcases post with ⟨frame, history⟩
  have after := smaller.freeMeta dropped frame history unused
  refine ⟨after.1, after.2, ?_, ?_⟩
  · intro addr size different before
    exact frame.placed addr size different before
  · intro kind addr outside
    rw [frame.entries.1]
    exact fewer kind addr outside

theorem binDeleteRun_run (inactive : run ∈ (w.arena.bins b).runListInactive) (value : Run) :
    binDeleteRun b run (w.setRun run (w.arena.bins b).runMetaSize value) =
      .ok () (w.withoutRun b run value) := by
  have here : run ∈ ((w.setRun run (w.arena.bins b).runMetaSize value).arena.bins
    b).runListInactive := inactive
  rw [binDeleteRun, bind_ok (get_apply _), decide_eq_true here]
  rfl

/-- What is left to do for a run once it is off its bin. -/
theorem Inv.deleteRun_run {value : Run} (inv : Inv w g none)
    (inactive : run ∈ (w.arena.bins b).runListInactive) (key : value.key = (w.runs run).key) :
    deleteRun env (w.history.runChunk run) b run
        (w.setRun run (w.arena.bins b).runMetaSize value) =
      (do
        let whole ← onChunkDeallocateRun env (w.history.runChunk run)
          (nodeRun ((w.withoutRun b run value).chunks (w.history.runChunk run)).key
            (g.node run)).ptr
        if whole then do
          arenaDeallocateChunk (w.history.runChunk run)
          arenaInternalFree run
        else arenaInternalFree run) (w.withoutRun b run value) := by
  have place := inv.runs b run (List.mem_append_right _ inactive)
  have start : ((w.setRun run (w.arena.bins b).runMetaSize value).runs run).key =
      (nodeRun ((w.withoutRun b run value).chunks (w.history.runChunk run)).key
        (g.node run)).ptr := by
    rw [setRun_same, key]
    exact place.key
  rw [deleteRun, bind_ok (get_apply _), bind_ok (binDeleteRun_run inactive value), start]

/-- A run all of whose regions are freed. -/
theorem deleteRun_wp {value : Run} (exits : Exits env ends)
    (inv : Inv w g none) (inactive : run ∈ (w.arena.bins b).runListInactive)
    (inside : i < classElems b) (alloc : (w.runs run).state i = .alloc)
    (others : ∀ j < classElems b, j ≠ i → (w.runs run).state j = .allocFree)
    (key : value.key = (w.runs run).key) :
    wp ends (deleteRun env (w.history.runChunk run) b run) (fun _ w' =>
      Released w ((w.runs run).key + i * classSize b) (classSize b) w')
      (w.setRun run (w.arena.bins b).runMetaSize value) := by
  have entry : run ∈ w.arena.entries (.run b) := List.mem_append_right _ inactive
  have known := inv.known b run entry
  have dropped := @Inv.dropRun w g b run value inv inactive
  refine wp_of_eq (inv.deleteRun_run inactive key) ?_
  rw [wp_bind]
  apply wp_mono (onChunkDeallocateRun_wp exits dropped)
  intro whole w₁ post
  rcases post with ⟨ck, rfl, inv₁, isWhole⟩
  have released := inv.releaseRun inactive inside alloc others inv₁
  have placed : Placed ((w.withoutRun b run value).withoutNode (w.history.runChunk run)
      (g.node run) ck).arena.internalAllocList ((w.withoutRun b run value).withoutNode
        (w.history.runChunk run) (g.node run) ck).intAllocs run (w.arena.metaSize (.run b)) :=
    inv.blocks.placed _ run entry
  have unused : ∀ kind, run ∉ ((w.withoutRun b run value).withoutNode (w.history.runChunk run)
      (g.node run) ck).arena.entries kind := by
    intro kind member
    exact ((inv.withoutRun_member inactive).mp member).2 rfl
  have member : w.history.runChunk run ∈ ((w.withoutRun b run value).withoutNode
    (w.history.runChunk run) (g.node run) ck).arena.chunkList := known
  have different : run ≠ w.history.runChunk run := by
    intro same
    have kinds := inv.blocks.single (.run b) .chunk run entry (same ▸ known)
    simp at kinds
  generalize (w.withoutRun b run value).withoutNode (w.history.runChunk run) (g.node run) ck = w₂
    at inv₁ released placed unused member ⊢
  by_cases isTrue : whole = true
  · rw [if_pos isTrue, wp_bind]
    apply wp_mono (released.freeChunk inv₁ member (isWhole.mp isTrue))
    intro _ w₃ post
    rcases post with ⟨released₃, inv₃, kept, fewer⟩
    exact released₃.freeRun inv₃ (kept run _ different placed) fun kind =>
      fewer kind run (unused kind)
  · rw [if_neg isTrue]
    exact released.freeRun inv₁ placed unused

/-- `sealloc_free_with_metadata` of an allocated region of a run. -/
theorem seallocFreeWithMetadata_wp {ptr : Nat}
    (exits : Exits env ends) (inv : Inv w g none)
    (region : Region w chunk b run ptr .alloc) :
    wp ends (seallocFreeWithMetadata env chunk b run ptr)
      (fun _ w' => Released w ptr (classSize b) w') w := by
  rcases region with ⟨member, rfl, i, inside, rfl, alloc⟩
  have ready := inv.ready member
  have place := inv.runs b run member
  have facts := classSize_facts b place.isClass
  have nonzero : (w.arena.bins b).regSize ≠ 0 := by
    rw [ready.regSize]
    omega
  rcases runMarkFreed_inv place.inv inside alloc with ⟨runInv, nfreed, navail, key, stores⟩
  unfold seallocFreeWithMetadata
  simp only [wp_bind, wp_get]
  rw [if_neg nonzero, inv.runDeallocate_alloc member alloc]
  simp only [wp_bind, wp_modify]
  by_cases freeable : runIsFreeable (runMarkFreed (w.runs run) i) (w.arena.bins b)
  · have full : (runMarkFreed (w.runs run) i).nfreed = classElems b := by
      rw [← ready.elems]
      exact freeable
    have all : ∀ j < classElems b, (runMarkFreed (w.runs run) i).state j = .allocFree :=
      fun j small => Run.count_full (by rw [← runInv.nfreed, full]) small
    have others : ∀ j < classElems b, j ≠ i → (w.runs run).state j = .allocFree := by
      intro j small different
      have state := all j small
      rw [stores j, if_neg different] at state
      exact state
    have inactive : run ∈ (w.arena.bins b).runListInactive := by
      rcases List.mem_append.mp member with active | inactive
      · have available := ready.active run active
        have counts := @Run.count_add_le (runMarkFreed (w.runs run) i) (classElems b)
          .free .allocFree (by decide)
        rw [← runInv.nfreed, ← runInv.navail, navail, full] at counts
        omega
      · exact inactive
    rw [if_pos freeable]
    exact deleteRun_wp exits inv inactive inside alloc others key
  · have left : (runMarkFreed (w.runs run) i).nfreed ≠ classElems b := by
      rw [← ready.elems]
      exact freeable
    rw [if_neg freeable]
    exact inv.markFreed member inside alloc left

end Specs

end Sealloc
