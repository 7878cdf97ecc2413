import Sealloc.World.Metadata
import Sealloc.Chunk.Lookup

/-! Runs of the chunks and new chunks, as steps of the world. -/

namespace Sealloc

open Library Chunk

/-- The level of the nodes on which the runs of class `b` are. -/
def runLevel (b : Nat) : Nat := 11 - (b - 36)

/-- A chunk that has taken the available node `n` for a run of class `b`. -/
structure NewRun (ck : Chunk) (live dead : List Nat) (b n : Nat) (ck' : Chunk) : Prop where
  place : ChunkPlace ck' (n :: live) dead
  key : ck'.key = ck.key
  size : (nodeRun ck.key n).size = classRunBytes b
  table : reportedSize ck' n = if b < 36 then classSize b else 0
  others : ∀ m ∈ live, reportedSize ck' m = reportedSize ck m
  left : ck'.availNodesCount (runLevel b) + 1 = ck.availNodesCount (runLevel b)

theorem classSize_small {b : Nat} (small : b < 36) : classSize b ≤ 8192 := by
  unfold classSize
  by_cases low : b < 32
  · rw [if_pos low]
    omega
  · have power : 2 ^ (b - 32) ≤ 2 ^ 3 := Nat.pow_le_pow_right (by decide) (by omega)
    rw [if_neg low, if_pos small]
    omega

section Allocate

variable {ck : Chunk} {live dead : List Nat} {b n : Nat}

/-- The level of the list loses one node. -/
theorem availNodesCount_take {ck' : Chunk} {runs : List Nat} {level : Nat}
    (index : FreeIndex ck runs) (index' : FreeIndex ck' (n :: runs)) (low : 1 ≤ level)
    (high : level ≤ 11) (avail : Avail runs level n) :
    ck'.availNodesCount level + 1 = ck.availNodesCount level := by
  have before := index.levels level low high
  have after := index'.levels level low high
  have members : {i | Avail (n :: runs) level i} = {i | Avail runs level i ∧ ¬ (n ≤ i ∧ i ≤ n)} := by
    ext i
    simp only [Set.mem_ofPred_eq, avail_cons]
    apply and_congr_right
    intro availI
    rw [comparable_up avail.1 availI.1 (Nat.le_refl level), Nat.sub_self, Nat.pow_zero,
      Nat.div_one]
    omega
  have removed := ncard_remove (A := Avail runs level) (a := n) (b := n) (by
    intro i low high
    have same : i = n := by omega
    rw [same]
    exact avail)
  have some := before.count_pos avail
  rw [after.count, members, removed, ← before.count]
  omega

/-- The entry of the side table for a new run. -/
theorem reportedSize_new {out : Nat × Chunk}
    (takes : TakesNode ck n (runLevel b) (classSize b) out) (node : InLevel (runLevel b) n)
    (isClass : b < 43) (place : ChunkPlace ck live dead) (notRun : n ∉ live ++ dead) :
    reportedSize out.2 n = if b < 36 then classSize b else 0 := by
  unfold reportedSize
  by_cases small : b < 36
  · have leaf : runLevel b = 11 := by
      unfold runLevel
      omega
    have low : 2048 ≤ n := by
      have := node.1
      rw [leaf] at this
      exact this
    have short := classSize_small small
    have other : classSize b ≠ chunkLeastRegionSizeBytes := by
      rw [leastRegion]
      omega
    have word : u16 (classSize b) = classSize b := u16_eq (by omega)
    have sound : classSize b ≠ regMarkBadValue := by
      unfold regMarkBadValue
      omega
    have stored : out.2.regSizeSmallMedium (n - 2048) = classSize b := by
      rw [takes.sizes, if_pos ⟨leaf, other⟩, Function.update_self, word]
    rw [if_pos low, if_pos small, stored, if_pos sound]
  · rw [if_neg small]
    by_cases leaf : 2048 ≤ n
    · have level : runLevel b = 11 := by
        have upper := node.2
        by_contra higher
        have short : 2 ^ (runLevel b + 1) ≤ 2 ^ 11 :=
          Nat.pow_le_pow_right (by decide) (by unfold runLevel at higher ⊢; omega)
        omega
      have first : b = 36 := by
        unfold runLevel at level
        omega
      have same : ¬ (runLevel b = 11 ∧ classSize b ≠ chunkLeastRegionSizeBytes) := by
        rw [first]
        decide
      rw [if_pos leaf, takes.sizes, if_neg same, place.blank n leaf notRun]
      rfl
    · rw [if_neg leaf]

/-- `chunk_allocate_run` for a class: the chunk has no room, or a new run. -/
theorem ChunkPlace.allocate (place : ChunkPlace ck live dead) (isClass : b < 43)
    (rand : Nat → Nat) :
    (∃ draws, chunkAllocateRun .wrapping rand ck (classRunBytes b) (classSize b) =
        ⟨none, ck, draws⟩ ∧ ck.availNodesCount (runLevel b) = 0) ∨
      ∃ n ck' draws, chunkAllocateRun .wrapping rand ck (classRunBytes b) (classSize b) =
        ⟨some (nodeRun ck.key n).ptr, ck', draws⟩ ∧ NewRun ck live dead b n ck' := by
  have facts := classSize_facts b isClass
  have bytes : classRunBytes b = chunkLeastRegionSizeBytes * 2 ^ (b - 36) := facts.2.2.2.2.2.2
  have small : b - 36 ≤ 10 := by omega
  have low : 1 ≤ runLevel b := by
    unfold runLevel
    omega
  have high : runLevel b ≤ 11 := Nat.sub_le _ _
  have call := chunkAllocateRun_ok Short.wrapping_lawful place.inv.index small rand (classSize b)
  rw [← bytes] at call
  rcases call with ⟨short, cases⟩
  rw [short]
  rcases cases with ⟨full, none⟩ | ⟨n, out, draws, avail, result, index, takes⟩
  · refine Or.inl ⟨0, full, ?_⟩
    exact (place.inv.index.levels (runLevel b) low high).count_zero.mpr none
  · have node : InLevel (runLevel b) n := avail.1
    have height : 11 - runLevel b = b - 36 := by
      unfold runLevel
      omega
    have run : nodeRun ck.key n = ⟨out.1, classRunBytes b⟩ := by
      have height' : 11 - (11 - (b - 36)) = b - 36 := height
      rw [nodeRun_eq node high, takes.ptr, height, height', bytes]
    have notRun : n ∉ live ++ dead := fun member => avail.2 n member (comparable_refl n)
    have chunkInv : ChunkInv out.2 (n :: live) dead :=
      place.inv.allocate low high avail index takes.tree
    refine Or.inr ⟨n, out.2, draws, ?_, ⟨?_, takes.key, ?_, ?_, ?_, ?_⟩⟩
    · rw [result, run]
    · refine ⟨chunkInv, ?_, ?_, ?_, ?_⟩
      · intro m leaf outside
        have different : m ≠ n := fun same => outside (same ▸ List.mem_cons_self)
        have before := place.blank m leaf fun member => outside (List.mem_cons_of_mem n member)
        rw [takes.sizes]
        by_cases stores : 11 - (b - 36) = 11 ∧ classSize b ≠ chunkLeastRegionSizeBytes
        · have first : 2048 ≤ n := by
            have := node.1
            unfold runLevel at this
            rw [stores.1] at this
            exact this
          rw [if_pos stores, Function.update_of_ne (by omega)]
          exact before
        · rw [if_neg stores]
          exact before
      · rw [takes.key]
        exact place.aligned
      · rw [takes.key]
        exact place.low
      · rw [takes.key]
        exact place.high
    · rw [run]
    · exact reportedSize_new takes node isClass place notRun
    · intro m member
      apply reportedSize_take takes node
      intro same
      exact notRun (same ▸ List.mem_append_left _ member)
    · exact availNodesCount_take place.inv.index index low high avail

end Allocate

/-- A chunk gets a live run on node `n`. -/
def Layout.addLive (g : Layout) (chunk n : Nat) : Layout :=
  { g with live := Function.update g.live chunk (n :: g.live chunk) }

section Take

variable {w : World} {g : Layout} {chunk b n draws : Nat} {ck : Chunk}

/-- A chunk of the arena takes a node, which waits for its run. -/
theorem Inv.takeNode (inv : Inv w g none) (member : chunk ∈ w.arena.chunkList)
    (new : NewRun (w.chunks chunk) (g.live chunk) (g.dead chunk) b n ck) :
    Inv ((w.draw32 draws).setChunk chunk ck) (g.addLive chunk n) (some (chunk, n)) := by
  have keys : ∀ c ∈ w.arena.chunkList,
      (((w.draw32 draws).setChunk chunk ck).chunks c).key = (w.chunks c).key := by
    intro c _
    by_cases same : c = chunk
    · rw [same, setChunk_same, new.key]
    · rw [setChunk_other _ same]
      rfl
  have owns : ∀ o x, Owns ((w.draw32 draws).setChunk chunk ck) (g.addLive chunk n) o x ↔
      Owns w g o x := owns_congr rfl rfl rfl keys (fun _ _ => rfl) fun _ _ => rfl
  have liveOther : ∀ c, c ≠ chunk → (g.addLive chunk n).live c = g.live c := fun c other =>
    Function.update_of_ne other _ _
  have liveSame : (g.addLive chunk n).live chunk = n :: g.live chunk := Function.update_self _ _ _
  have fresh : n ∉ g.live chunk := (List.nodup_cons.mp new.place.inv.nodup).1
  refine ⟨inv.brk, inv.blocks, ?_, inv.known, ?_, ?_, inv.same, ?_, inv.bins, inv.huges, ?_, ?_,
    inv.granted, inv.findings, inv.origin⟩
  · intro c inside
    by_cases same : c = chunk
    · rw [same, setChunk_same, liveSame]
      exact new.place
    · rw [setChunk_other _ same, liveOther c same]
      exact inv.chunks c inside
  · intro b' run inside
    have place := inv.runs b' run inside
    have from_ : ((w.draw32 draws).setChunk chunk ck).history.runChunk run =
        w.history.runChunk run := rfl
    rw [from_]
    by_cases same : w.history.runChunk run = chunk
    · rw [same] at place ⊢
      rw [setChunk_same, liveSame]
      exact place.chunk new.key (List.mem_cons_of_mem n place.live)
        (new.others _ place.live)
    · rw [setChunk_other _ same, liveOther _ same]
      exact place
  · intro c inside m live waiting
    by_cases same : c = chunk
    · rw [same] at live waiting
      rw [liveSame] at live
      have different : m ≠ n := fun eq => waiting (by rw [eq])
      have before := (List.mem_cons.mp live).resolve_left different
      rw [same]
      exact inv.cover chunk member m before (by simp)
    · rw [liveOther c same] at live
      exact inv.cover c inside m live (by simp)
  · intro c m waiting
    have same := Option.some.inj waiting
    rw [Prod.mk.injEq] at same
    rw [← same.1, ← same.2]
    refine ⟨member, ?_, ?_⟩
    · rw [liveSame]
      exact List.mem_cons_self
    · intro b' run inside from_ node
      have live := (inv.runs b' run inside).live
      have from' : w.history.runChunk run = chunk := from_
      have node' : g.node run = n := node
      rw [from', node'] at live
      exact fresh live
  · intro o o' x one two
    exact inv.owner o o' x ((owns o x).mp one) ((owns o' x).mp two)
  · intro o x one
    exact inv.owned o x ((owns o x).mp one)

/-- A chunk without runs. -/
def Layout.addChunk (g : Layout) (chunk : Nat) : Layout :=
  { g with
    live := Function.update g.live chunk []
    dead := Function.update g.dead chunk [] }

/-- A new chunk on a range that nobody owns. -/
theorem Inv.addChunk (inv : Inv w g none) (unused : ∀ kind, chunk ∉ w.arena.entries kind)
    (placed : Placed w.arena.internalAllocList w.intAllocs chunk chunkSizeof)
    (place : ChunkPlace ck [] []) (mapped : ∀ x, Span.Holds ⟨ck.key, chunkSizeBytes⟩ x → w.Mapped x)
    (unowned : ∀ o x, Span.Holds ⟨ck.key, chunkSizeBytes⟩ x → ¬ Owns w g o x) :
    Inv ((w.setChunk chunk ck).setArena { w.arena with chunkList := chunk :: w.arena.chunkList })
      (g.addChunk chunk) none := by
  have new : chunk ∉ w.arena.chunkList := unused .chunk
  have other : ∀ c ∈ w.arena.chunkList, c ≠ chunk := fun c member same => new (same ▸ member)
  have chunks : ∀ c ∈ w.arena.chunkList, (w.setChunk chunk ck).chunks c = w.chunks c :=
    fun c member => setChunk_other w (other c member)
  have live : ∀ c ∈ w.arena.chunkList, (g.addChunk chunk).live c = g.live c :=
    fun c member => Function.update_of_ne (other c member) _ _
  have dead : ∀ c ∈ w.arena.chunkList, (g.addChunk chunk).dead c = g.dead c :=
    fun c member => Function.update_of_ne (other c member) _ _
  have liveNew : (g.addChunk chunk).live chunk = [] := Function.update_self _ _ _
  have deadNew : (g.addChunk chunk).dead chunk = [] := Function.update_self _ _ _
  have owns : ∀ o x, Owns ((w.setChunk chunk ck).setArena
      { w.arena with chunkList := chunk :: w.arena.chunkList }) (g.addChunk chunk) o x →
      (o = .chunk chunk ∧ Span.Holds ⟨ck.key, chunkSizeBytes⟩ x) ∨ Owns w g o x := by
    intro o x owns
    cases o with
    | internal root => exact Or.inr owns
    | huge huge => exact Or.inr owns
    | chunk c =>
        rcases owns with ⟨member, low, high, outside⟩
        rcases List.mem_cons.mp member with rfl | before
        · have same : (w.setChunk c ck).chunks c = ck := setChunk_same w
          have low' : ((w.setChunk c ck).chunks c).key ≤ x := low
          have high' : x < ((w.setChunk c ck).chunks c).key + chunkSizeBytes := high
          rw [same] at low' high'
          exact Or.inl ⟨rfl, low', high'⟩
        · have same := chunks c before
          have outside' : ∀ n ∈ g.dead c, ¬ (nodeRun (w.chunks c).key n).Holds x := by
            rw [← same, ← dead c before]
            exact outside
          exact Or.inr ⟨before, same ▸ low, same ▸ high, outside'⟩
  refine ⟨inv.brk, ?_, ?_, ?_, ?_, ?_, inv.same, ?_, inv.bins, inv.huges, ?_, ?_, inv.granted,
    inv.findings, inv.origin⟩
  · apply inv.blocks.add .chunk unused placed rfl
    · intro kind different
      cases kind with
      | chunk => exact absurd rfl different
      | huge => rfl
      | run b => rfl
    · funext kind
      cases kind <;> rfl
  · intro c member
    rcases List.mem_cons.mp member with rfl | before
    · have same : (w.setChunk c ck).chunks c = ck := setChunk_same w
      have found : ChunkPlace ((w.setChunk c ck).chunks c) ((g.addChunk c).live c)
          ((g.addChunk c).dead c) := by
        rw [same, liveNew, deadNew]
        exact place
      exact found
    · have found : ChunkPlace ((w.setChunk chunk ck).chunks c) ((g.addChunk chunk).live c)
          ((g.addChunk chunk).dead c) := by
        rw [chunks c before, live c before, dead c before]
        exact inv.chunks c before
      exact found
  · intro b run member
    exact List.mem_cons_of_mem chunk (inv.known b run member)
  · intro b run member
    have known := inv.known b run member
    have found : RunPlace ((w.setChunk chunk ck).chunks (w.history.runChunk run))
        ((g.addChunk chunk).live (w.history.runChunk run)) (w.runs run) (g.node run) b := by
      rw [chunks _ known, live _ known]
      exact inv.runs b run member
    exact found
  · intro c member n isLive waiting
    rcases List.mem_cons.mp member with rfl | before
    · rw [liveNew] at isLive
      exact absurd isLive List.not_mem_nil
    · rw [live c before] at isLive
      exact inv.cover c before n isLive waiting
  · intro c n impossible
    simp at impossible
  · intro o o' x one two
    rcases owns o x one with ⟨rfl, inside⟩ | before
    · rcases owns o' x two with ⟨rfl, -⟩ | before'
      · rfl
      · exact absurd before' (unowned o' x inside)
    · rcases owns o' x two with ⟨rfl, inside⟩ | before'
      · exact absurd before (unowned o x inside)
      · exact inv.owner o o' x before before'
  · intro o x one
    rcases owns o x one with ⟨-, inside⟩ | before
    · exact mapped x inside
    · exact inv.owned o x before

theorem chunk_placed {pending : Option (Nat × Nat)} (inv : Inv w g pending)
    (member : chunk ∈ w.arena.chunkList) :
    Placed w.arena.internalAllocList w.intAllocs chunk chunkSizeof :=
  inv.blocks.placed .chunk chunk member

theorem setChunk_grows {pending : Option (Nat × Nat)} (inv : Inv w g pending)
    (member : chunk ∈ w.arena.chunkList) : Grows w ((w.draw32 draws).setChunk chunk ck) where
  keeps := by
    apply Keeps.of_regions
    · exact ⟨[], rfl, fun x => by simp [World.Mapped, World.setChunk, World.draw32]⟩
    · exact fun _ _ _ _ _ _ region => region
    · exact fun huge member => ⟨member, rfl⟩
    · intro x user
      exact scribble_other (inv.user_apart user (chunk_placed inv member))
  copies := rfl
  calls := Nat.le_refl _

/-- A call of `chunk_allocate_run` that finds no room. -/
theorem setChunk_same_frame {pending : Option (Nat × Nat)} (inv : Inv w g pending)
    (member : chunk ∈ w.arena.chunkList) :
    MetaFrame (fun _ => False) w ((w.draw32 draws).setChunk chunk (w.chunks chunk)) where
  chunks := Function.update_eq_self _ _
  runs := rfl
  huges := rfl
  chunkList := rfl
  hugeAllocList := rfl
  bins := rfl
  brk := id
  copies := rfl
  findings := rfl
  runChunk := rfl
  origin := rfl
  calls := Nat.le_refl _
  granted := ⟨[], rfl, fun x => by simp [World.Mapped, World.setChunk, World.draw32]⟩
  memory := by
    intro x _ external
    apply scribble_other
    intro inside
    exact external ((chunk_placed inv member).internal inside.1 inside.2)
  ok := fun ok => ⟨ok.nodup, ok.valid, ok.bounds, ok.unique, ok.mapped, ok.aligned⟩
  old := fun _ inside => Or.inl inside
  placed := fun _ _ _ placed => placed

end Take

/-- The nodes left for runs of class `b` in chunks. -/
def nodesIn (chunks : Nat → Chunk) (b : Nat) (entries : List Nat) : Nat :=
  (entries.map fun chunk => (chunks chunk).availNodesCount (runLevel b)).sum

def World.nodesLeft (w : World) (b : Nat) : Nat := nodesIn w.chunks b w.arena.chunkList

/-- A node of a chunk has been taken for a run of class `b`. -/
structure NodeTaken (w : World) (g : Layout) (b chunk n : Nat) (w' : World) : Prop where
  inv : Inv w' (g.addLive chunk n) (some (chunk, n))
  grows : Grows w w'
  size : (nodeRun (w'.chunks chunk).key n).size = classRunBytes b
  table : reportedSize (w'.chunks chunk) n = if b < 36 then classSize b else 0
  arena : w'.arena = w.arena
  intAllocs : w'.intAllocs = w.intAllocs
  runs : w'.runs = w.runs

section Specs

variable {ends : Ends World} {w : World} {g : Layout} {env : Env} {b : Nat}

theorem onChunkAllocateRun_wp (inv : Inv w g none) (isClass : b < 43) {chunk : Nat}
    (member : chunk ∈ w.arena.chunkList) :
    wp ends (onChunkAllocateRun env chunk (classRunBytes b) (classSize b)) (fun r w' =>
      match r with
      | none => MetaFrame (fun _ => False) w w' ∧ w'.arena = w.arena ∧
          w'.intAllocs = w.intAllocs ∧ (w.chunks chunk).availNodesCount (runLevel b) = 0
      | some ptr => ∃ n, ptr = (nodeRun (w'.chunks chunk).key n).ptr ∧
          NodeTaken w g b chunk n w' ∧ (∀ other, other ≠ chunk → w'.chunks other = w.chunks other) ∧
          (w'.chunks chunk).availNodesCount (runLevel b) + 1 =
            (w.chunks chunk).availNodesCount (runLevel b)) w := by
  have place := inv.chunks chunk member
  rcases place.allocate isClass fun i => u32 (env.rand32 (w.rand32Draws + i)) with
    ⟨draws, result, full⟩ | ⟨n, ck, draws, result, new⟩
  · have run : onChunkAllocateRun env chunk (classRunBytes b) (classSize b) w =
        .ok none ((w.draw32 draws).setChunk chunk (w.chunks chunk)) := by
      unfold onChunkAllocateRun
      simp only [result]
    apply wp_of_ok run
    exact ⟨setChunk_same_frame inv member, rfl, rfl, full⟩
  · have run : onChunkAllocateRun env chunk (classRunBytes b) (classSize b) w =
        .ok (some (nodeRun (w.chunks chunk).key n).ptr) ((w.draw32 draws).setChunk chunk ck) := by
      unfold onChunkAllocateRun
      simp only [result]
    apply wp_of_ok run
    refine ⟨n, ?_, ⟨inv.takeNode member new, setChunk_grows inv member, ?_, ?_, rfl, rfl, rfl⟩,
      ?_, ?_⟩
    · rw [setChunk_same, new.key]
    · rw [setChunk_same, new.key]
      exact new.size
    · rw [setChunk_same]
      exact new.table
    · intro other different
      exact setChunk_other _ different
    · rw [setChunk_same]
      exact new.left

/-- A chunk that `chunk_init` made has room for every class. -/
theorem chunkInit_place (ck : Chunk) {ptr : Nat} (aligned : ptr % pageSize = 0) (low : 0 < ptr)
    (high : ptr + chunkSizeBytes ≤ userspaceEnd) :
    ChunkPlace (chunkInit .wrapping ck ptr) [] [] ∧ (chunkInit .wrapping ck ptr).key = ptr ∧
      ∀ b, 0 < (chunkInit .wrapping ck ptr).availNodesCount (runLevel b) ∨ ¬ b < 43 := by
  have inv := chunkInit_inv ck ptr
  rcases chunkInit_ok Short.wrapping_lawful ck ptr with ⟨short, index, key, sizes, -⟩
  rw [short] at inv ⊢
  refine ⟨⟨inv, ?_, ?_, ?_, ?_⟩, key, ?_⟩
  · intro n _ _
    rw [sizes]
  · rw [key]
    exact aligned
  · rw [key]
    exact low
  · rw [key]
    exact high
  · intro b
    by_cases isClass : b < 43
    · have low : 1 ≤ runLevel b := by
        unfold runLevel
        omega
      have avail : Avail [] (runLevel b) (2 ^ runLevel b) := by
        refine ⟨⟨Nat.le_refl _, ?_⟩, fun _ impossible => absurd impossible List.not_mem_nil⟩
        exact Nat.pow_lt_pow_right (by decide) (Nat.lt_succ_self _)
      exact Or.inl ((index.levels (runLevel b) low (Nat.sub_le _ _)).count_pos avail)
    · exact Or.inr isClass

theorem nodesIn_congr {chunks chunks' : Nat → Chunk} {entries : List Nat}
    (same : ∀ chunk ∈ entries, chunks' chunk = chunks chunk) :
    nodesIn chunks' b entries = nodesIn chunks b entries := by
  unfold nodesIn
  congr 1
  apply List.map_congr_left
  intro chunk member
  rw [same chunk member]

/-- A new chunk, which takes a new mapping. -/
theorem arenaAllocateChunk_wp {fuel : Nat} (inv : Inv w g none) (loops : ends.fuel) :
    wp ends (arenaAllocateChunk env fuel) (fun chunk w' => Inv w' (g.addChunk chunk) none ∧
      Grows w w' ∧ chunk ∈ w'.arena.chunkList ∧
      (0 < (w'.chunks chunk).availNodesCount (runLevel b) ∨ ¬ b < 43) ∧
      w'.arena.bins = w.arena.bins ∧ w'.runs = w.runs ∧ ¬ env.Fails w.mmapCalls) w := by
  unfold arenaAllocateChunk
  rw [wp_bind]
  apply wp_mono (arenaInternalAlloc_wp chunkSizeof inv.rootsOk inv.brk (by decide)
    (by decide) fun _ => loops)
  intro r w₁ post
  rcases post with ⟨chunk, rfl, taken, -, -⟩
  have inv₁ := inv.metaFrame taken.frame fun _ _ _ => id
  rw [wp_bind]
  apply wp_mono (arenaMorecore_wp loops (resetChunkPtrStart_resets env) fuel chunkSizeBytes
    (·.brk) inv₁.brk)
  intro ptr w₂ got
  rcases got with ⟨mapped, fresh, working⟩
  rw [wp_bind]
  apply wp_mono (skipMapping_wp .chunkAlloc ptr (chunkSizeBytes + pageSize))
  intro _ w₃ skipped
  have frame := mapped.trans skipped
  have fresh₃ := fresh.mono skipped
  have inv₃ := inv₁.metaFrame frame.metaFrame fun _ _ _ => id
  rcases chunkInit_place (env.staleChunk chunk) fresh.aligned fresh.start fresh.low with
    ⟨place, key, avail⟩
  have entries := (taken.frame.trans frame.metaFrame).entries
  have unused : ∀ kind, chunk ∉ w₃.arena.entries kind := by
    rw [entries.1]
    exact inv.blocks.unused taken.fresh
  have placed : Placed w₃.arena.internalAllocList w₃.intAllocs chunk chunkSizeof := by
    rw [frame.internalAllocList, frame.intAllocs]
    exact taken.placed
  simp only [wp_bind, wp_modify, wp_pure]
  have added := inv₃.addChunk unused placed place
    (by
      rw [key]
      exact fresh₃.after)
    (by
      rw [key]
      exact fun o x holds => inv₁.unowned frame fresh₃ o x holds)
  refine ⟨added, ?_, List.mem_cons_self, ?_, ?_, ?_, ?_⟩
  · have before := (taken.frame.grows inv).trans (frame.metaFrame.grows inv₁)
    apply before.trans
    refine ⟨?_, rfl, Nat.le_refl _⟩
    apply Keeps.of_regions
    · exact ⟨[], rfl, fun x => by simp [World.Mapped, World.setChunk, World.setArena]⟩
    · exact fun _ _ _ _ _ _ region => region
    · exact fun huge member => ⟨member, rfl⟩
    · intro x user
      exact scribble_other (inv₃.user_apart user placed)
  · have same : (w₃.setChunk chunk (chunkInit .wrapping (env.staleChunk chunk) ptr)).chunks chunk =
        chunkInit .wrapping (env.staleChunk chunk) ptr := setChunk_same w₃
    exact same.symm ▸ avail b
  · exact frame.bins.trans taken.frame.bins
  · exact frame.runs.trans taken.frame.runs
  · exact fun fails => working (fails.mono taken.frame.calls)

/-- The search over the chunks stops at the first that has room. -/
theorem chunkAllocateFrom_wp (isClass : b < 43) :
    ∀ (entries : List Nat) (w : World), Inv w g none → entries.Nodup →
      (∀ chunk ∈ entries, chunk ∈ w.arena.chunkList) →
      wp ends (chunkAllocateFrom env (classRunBytes b) (classSize b) entries) (fun r w' =>
        match r with
        | none => MetaFrame (fun _ => False) w w' ∧ w'.arena = w.arena ∧
            w'.intAllocs = w.intAllocs ∧ nodesIn w.chunks b entries = 0
        | some (chunk, ptr) => chunk ∈ entries ∧
            ∃ n, ptr = (nodeRun (w'.chunks chunk).key n).ptr ∧ NodeTaken w g b chunk n w' ∧
              (∀ other, other ∉ entries → w'.chunks other = w.chunks other) ∧
              nodesIn w'.chunks b entries + 1 = nodesIn w.chunks b entries) w := by
  intro entries
  induction entries with
  | nil =>
      intro w inv _ _
      exact ⟨(MapFrame.refl w).metaFrame, rfl, rfl, rfl⟩
  | cons chunk rest ih =>
      intro w inv nodup members
      have single := List.nodup_cons.mp nodup
      have counts : ∀ chunks : Nat → Chunk, nodesIn chunks b (chunk :: rest) =
          (chunks chunk).availNodesCount (runLevel b) + nodesIn chunks b rest := fun _ => rfl
      unfold chunkAllocateFrom
      rw [wp_bind]
      apply wp_mono (onChunkAllocateRun_wp inv isClass (members chunk List.mem_cons_self))
      intro r w₁ post
      cases r with
      | some ptr =>
          rcases post with ⟨n, ptrAt, taken, others, left⟩
          have same : nodesIn w₁.chunks b rest = nodesIn w.chunks b rest := by
            apply nodesIn_congr
            intro other member
            exact others other fun eq => single.1 (eq ▸ member)
          refine ⟨List.mem_cons_self, n, ptrAt, taken, ?_, ?_⟩
          · intro other outside
            exact others other fun eq => outside (eq ▸ List.mem_cons_self)
          · rw [counts, counts, same]
            omega
      | none =>
          rcases post with ⟨frame, arena, intAllocs, full⟩
          have inv' := inv.metaFrame frame fun _ _ _ => id
          have inside : ∀ c ∈ rest, c ∈ w₁.arena.chunkList := by
            intro c member
            rw [arena]
            exact members c (List.mem_cons_of_mem chunk member)
          apply wp_mono (ih w₁ inv' single.2 inside)
          intro r w₂ post
          cases r with
          | none =>
              rcases post with ⟨frame', arena', intAllocs', full'⟩
              refine ⟨frame.trans frame', arena'.trans arena, intAllocs'.trans intAllocs, ?_⟩
              rw [frame.chunks] at full'
              rw [counts, full, full']
          | some found =>
              rcases found with ⟨c, ptr⟩
              rcases post with ⟨member, n, ptrAt, taken, others, left⟩
              rw [frame.chunks] at others left
              refine ⟨List.mem_cons_of_mem chunk member, n, ptrAt, ⟨taken.inv,
                (frame.grows inv).trans taken.grows, taken.size, taken.table,
                taken.arena.trans arena, taken.intAllocs.trans intAllocs,
                taken.runs.trans frame.runs⟩, ?_, ?_⟩
              · intro other outside
                exact others other fun inRest => outside (List.mem_cons_of_mem chunk inRest)
              · rw [counts, counts, others chunk single.1]
                omega

end Specs

end Sealloc
