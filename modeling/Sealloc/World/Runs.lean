import Sealloc.World.Chunks

/-! New runs: `arena_allocate_run` and `arena_supply_runs` as steps of the world. -/

namespace Sealloc

open Library Chunk

section Bins

variable {w : World} {b c : Nat} {bin : Bin} {runs runs' : Nat → Run}

theorem entries_setBin_same : (w.setBin b bin).arena.entries (.run b) =
    bin.runListActive ++ bin.runListInactive := by
  unfold Arena.entries
  simp only [setBin_same]

theorem entries_setBin_other {kind : Kind} (different : kind ≠ .run b) :
    (w.setBin b bin).arena.entries kind = w.arena.entries kind := by
  cases kind with
  | chunk => rfl
  | huge => rfl
  | run c =>
      have other : c ≠ b := fun same => different (by rw [same])
      unfold Arena.entries
      simp only [setBin_other w other]

/-- The metadata of the runs of a bin keeps its size as long as the regions keep theirs. -/
theorem metaSize_setBin (bits : bin.regMaskSizeBits = (w.arena.bins b).regMaskSizeBits) :
    (w.setBin b bin).arena.metaSize = w.arena.metaSize := by
  funext kind
  cases kind with
  | chunk => rfl
  | huge => rfl
  | run c =>
      unfold Arena.metaSize Bin.runMetaSize
      by_cases same : c = b
      · simp only [same, setBin_same w, bits]
      · simp only [setBin_other w same]

/-- A bin only depends on the counters of its own runs. -/
theorem BinReady.congr (ready : BinReady b bin runs)
    (active : ∀ run ∈ bin.runListActive, (runs' run).navail = (runs run).navail)
    (inactive : ∀ run ∈ bin.runListInactive, (runs' run).navail = (runs run).navail ∧
      (runs' run).nfreed = (runs run).nfreed) : BinReady b bin runs' where
  isClass := ready.isClass
  regSize := ready.regSize
  pages := ready.pages
  bits := ready.bits
  count := ready.count
  avail := by
    rw [ready.avail]
    congr 1
    apply List.map_congr_left
    exact fun run member => (active run member).symm
  bound := ready.bound
  active := by
    intro run member
    rw [active run member]
    exact ready.active run member
  inactive := by
    intro run member
    rw [(inactive run member).1, (inactive run member).2]
    exact ready.inactive run member

theorem BinReady.elems (ready : BinReady b bin runs) : bin.elems = classElems b := by
  unfold Bin.elems
  rw [ready.bits]
  omega

/-- Each active run has an available region, so there are not more of them than regions. -/
theorem BinReady.length_le (ready : BinReady b bin runs) :
    bin.runListActive.length ≤ bin.availRegs := by
  have each : ∀ n ∈ bin.runListActive.map fun run => (runs run).navail, 1 ≤ n := by
    intro n member
    rcases List.mem_map.mp member with ⟨run, inside, rfl⟩
    exact ready.active run inside
  have total := List.length_le_sum_of_one_le _ each
  rw [List.length_map] at total
  rw [ready.avail]
  exact total

/-- A new run with all its regions available. -/
theorem BinReady.addRun {run : Nat} (ready : BinReady b bin runs)
    (unused : run ∉ bin.runListActive ++ bin.runListInactive)
    (others : ∀ r, r ≠ run → runs' r = runs r) (navail : (runs' run).navail = classElems b)
    (room : bin.availRegs + classElems b ≤ 2048) :
    BinReady b (bin.addRun run (runs' run).navail) runs' := by
  have facts := classSize_facts b ready.isClass
  have length := ready.length_le
  have count := ready.count
  have active : ∀ r ∈ bin.runListActive, runs' r = runs r := fun r member =>
    others r fun same => unused (same ▸ List.mem_append_left _ member)
  have inactive : ∀ r ∈ bin.runListInactive, runs' r = runs r := fun r member =>
    others r fun same => unused (same ▸ List.mem_append_right _ member)
  have sum : bin.addRun run (runs' run).navail = { bin with
      availRegs := bin.availRegs + classElems b
      runListActiveCnt := bin.runListActiveCnt + 1
      runListActive := run :: bin.runListActive } := by
    unfold Bin.addRun
    have noWrap : u32 (bin.availRegs + (runs' run).navail) = bin.availRegs + classElems b := by
      rw [navail]
      exact Nat.mod_eq_of_lt (by omega)
    have noWrap' : u32 (bin.runListActiveCnt + 1) = bin.runListActiveCnt + 1 :=
      Nat.mod_eq_of_lt (by omega)
    rw [noWrap, noWrap']
  rw [sum]
  refine ⟨ready.isClass, ready.regSize, ready.pages, ready.bits, ?_, ?_, room, ?_, ?_⟩
  · simp only [List.length_cons]
    omega
  · simp only [List.map_cons, List.sum_cons]
    have before : (bin.runListActive.map fun r => (runs' r).navail).sum = bin.availRegs := by
      rw [ready.avail]
      congr 1
      apply List.map_congr_left
      intro r member
      rw [active r member]
    rw [before, navail]
    omega
  · intro r member
    rcases List.mem_cons.mp member with rfl | old
    · rw [navail]
      omega
    · rw [active r old]
      exact ready.active r old
  · intro r member
    rw [inactive r member]
    exact ready.inactive r member

end Bins

/-- A run gets a node. -/
def Layout.setNode (g : Layout) (run n : Nat) : Layout :=
  { g with node := Function.update g.node run n }

/-- What `bin_add_run` leaves. -/
def World.binAdded (w : World) (b run : Nat) : World :=
  w.setBin b ((w.arena.bins b).addRun run (w.runs run).navail)

/-- The world with the metadata of a new run of `chunk`. -/
def World.placeRun (w : World) (chunk run size : Nat) (value : Run) : World :=
  (w.setRun run size value).record
    { w.history with runChunk := Function.update w.history.runChunk run chunk }

/-- The world in which a new run of `chunk` has been added to bin `b`. -/
def World.withRun (w : World) (b chunk run : Nat) (value : Run) : World :=
  (w.placeRun chunk run (w.arena.bins b).runMetaSize value).binAdded b run

section Add

variable {w : World} {g : Layout} {b chunk n run : Nat} {value : Run}

theorem withRun_entries : (w.withRun b chunk run value).arena.entries (.run b) =
    run :: w.arena.entries (.run b) := entries_setBin_same

theorem withRun_entries_other {kind : Kind} (different : kind ≠ .run b) :
    (w.withRun b chunk run value).arena.entries kind = w.arena.entries kind :=
  entries_setBin_other different

/-- The new run is the only new entry. -/
theorem withRun_member {c r : Nat}
    (member : r ∈ (w.withRun b chunk run value).arena.entries (.run c)) :
    (r = run ∧ c = b) ∨ r ∈ w.arena.entries (.run c) := by
  by_cases same : c = b
  · rw [same, withRun_entries] at member
    rcases List.mem_cons.mp member with new | old
    · exact Or.inl ⟨new, same⟩
    · rw [same]
      exact Or.inr old
  · rw [withRun_entries_other (by simp [same])] at member
    exact Or.inr member

theorem withRun_old {c r : Nat} (member : r ∈ w.arena.entries (.run c)) :
    r ∈ (w.withRun b chunk run value).arena.entries (.run c) := by
  by_cases same : c = b
  · rw [same] at member ⊢
    rw [withRun_entries]
    exact List.mem_cons_of_mem run member
  · rw [withRun_entries_other (by simp [same])]
    exact member

theorem withRun_run : (w.withRun b chunk run value).runs run = value := Function.update_self _ _ _

theorem withRun_run_other {r : Nat} (different : r ≠ run) :
    (w.withRun b chunk run value).runs r = w.runs r := Function.update_of_ne different _ _

theorem withRun_runChunk : (w.withRun b chunk run value).history.runChunk run = chunk :=
  Function.update_self _ _ _

theorem withRun_runChunk_other {r : Nat} (different : r ≠ run) :
    (w.withRun b chunk run value).history.runChunk r = w.history.runChunk r :=
  Function.update_of_ne different _ _

theorem withRun_bins_other {c : Nat} (different : c ≠ b) :
    (w.withRun b chunk run value).arena.bins c = w.arena.bins c := setBin_other _ different

/-- The regions of the other runs are as they were. -/
theorem withRun_region (unused : ∀ kind, run ∉ w.arena.entries kind) {chunk' c r ptr : Nat}
    {s : BState} (region : Region w chunk' c r ptr s) :
    Region (w.withRun b chunk run value) chunk' c r ptr s := by
  rcases region with ⟨member, from_, i, inside, ptrAt, state⟩
  have different : r ≠ run := fun same => unused _ (same ▸ member)
  refine ⟨withRun_old member, ?_, i, inside, ?_, ?_⟩
  · rw [withRun_runChunk_other different]
    exact from_
  · rw [withRun_run_other different]
    exact ptrAt
  · rw [withRun_run_other different]
    exact state

theorem withRun_grows (chunk : Nat) (value : Run) {pending : Option (Nat × Nat)}
    (inv : Inv w g pending)
    (unused : ∀ kind, run ∉ w.arena.entries kind)
    (placed : Placed w.arena.internalAllocList w.intAllocs run (w.arena.bins b).runMetaSize) :
    Grows w (w.withRun b chunk run value) where
  keeps := by
    apply Keeps.of_regions
    · exact ⟨[], rfl, fun x => by
        simp [World.Mapped, World.withRun, World.binAdded, World.placeRun, World.setRun,
          World.record, World.setBin, World.setArena]⟩
    · exact fun _ _ _ _ _ _ region => withRun_region unused region
    · exact fun huge member => ⟨member, rfl⟩
    · intro x user
      exact scribble_other (inv.user_apart user placed)
  copies := rfl
  calls := Nat.le_refl _

/-- The run for which a node was waiting. -/
theorem Inv.addRun (inv : Inv w g (some (chunk, n))) (ready : BinReady b (w.arena.bins b) w.runs)
    (unused : ∀ kind, run ∉ w.arena.entries kind)
    (placed : Placed w.arena.internalAllocList w.intAllocs run (w.arena.bins b).runMetaSize)
    (size : (nodeRun (w.chunks chunk).key n).size = classRunBytes b)
    (table : reportedSize (w.chunks chunk) n = if b < 36 then classSize b else 0)
    (key : value.key = (nodeRun (w.chunks chunk).key n).ptr) (runInv : value.Inv (classElems b))
    (navail : value.navail = classElems b) (free : ∀ i < classElems b, value.state i = .free)
    (room : (w.arena.bins b).availRegs + classElems b ≤ 2048) :
    Inv (w.withRun b chunk run value) (g.setNode run n) none := by
  have waits := inv.waits chunk n rfl
  have other : ∀ c r, r ∈ w.arena.entries (.run c) → r ≠ run :=
    fun c r member same => unused _ (same ▸ member)
  have nodeOld : ∀ r, r ≠ run → (g.setNode run n).node r = g.node r :=
    fun r different => Function.update_of_ne different _ _
  have nodeNew : (g.setNode run n).node run = n := Function.update_self _ _ _
  have alone : ∀ c r, r ∈ w.arena.entries (.run c) → w.history.runChunk r = chunk →
      g.node r ≠ n := fun c r member from_ => waits.2.2 c r member from_
  refine ⟨inv.brk, ?_, inv.chunks, ?_, ?_, ?_, ?_, ?_, ?_, inv.huges, inv.owner, inv.owned,
    inv.granted, inv.findings, ?_⟩
  · apply inv.blocks.add (.run b) unused placed withRun_entries
    · exact fun kind different => withRun_entries_other different
    · exact metaSize_setBin rfl
  · intro c r member
    rcases withRun_member member with ⟨rfl, -⟩ | old
    · rw [withRun_runChunk]
      exact waits.1
    · rw [withRun_runChunk_other (other c r old)]
      exact inv.known c r old
  · intro c r member
    rcases withRun_member member with ⟨rfl, rfl⟩ | old
    · rw [withRun_runChunk, withRun_run, nodeNew]
      exact ⟨ready.isClass, waits.2.1, key, size, runInv, table⟩
    · have different := other c r old
      rw [withRun_runChunk_other different, withRun_run_other different, nodeOld r different]
      exact inv.runs c r old
  · intro c member m live _
    by_cases waiting : some (c, m) = some (chunk, n)
    · have same := Prod.mk.inj (Option.some.inj waiting)
      refine ⟨b, run, ?_, ?_, ?_⟩
      · rw [withRun_entries]
        exact List.mem_cons_self
      · rw [withRun_runChunk, same.1]
      · rw [nodeNew, same.2]
    · rcases inv.cover c member m live waiting with ⟨d, r, old, from_, node⟩
      have different := other d r old
      refine ⟨d, r, withRun_old old, ?_, ?_⟩
      · rw [withRun_runChunk_other different, from_]
      · rw [nodeOld r different, node]
  · intro c c' r r' member member'
    rcases withRun_member member with ⟨rfl, -⟩ | old
    · rcases withRun_member member' with ⟨rfl, -⟩ | old'
      · exact fun _ _ => rfl
      · have different := other c' r' old'
        rw [withRun_runChunk, withRun_runChunk_other different, nodeNew, nodeOld r' different]
        intro from_ node
        exact absurd node.symm (alone c' r' old' from_.symm)
    · have different := other c r old
      rcases withRun_member member' with ⟨rfl, -⟩ | old'
      · rw [withRun_runChunk, withRun_runChunk_other different, nodeNew, nodeOld r different]
        intro from_ node
        exact absurd node (alone c r old from_)
      · have different' := other c' r' old'
        rw [withRun_runChunk_other different, withRun_runChunk_other different',
          nodeOld r different, nodeOld r' different']
        exact inv.same c c' r r' old old'
  · intro c m impossible
    simp at impossible
  · intro c
    by_cases same : c = b
    · rw [same]
      right
      have added : BinReady b ((w.arena.bins b).addRun run
          ((w.withRun b chunk run value).runs run).navail) (w.withRun b chunk run value).runs := by
        apply ready.addRun (unused (.run b)) (fun r different => withRun_run_other different) _ room
        rw [withRun_run, navail]
      have bin : (w.withRun b chunk run value).arena.bins b = (w.arena.bins b).addRun run
        ((w.withRun b chunk run value).runs run).navail := setBin_same _
      rw [bin]
      exact added
    · rw [withRun_bins_other same]
      rcases inv.bins c with zero | ready'
      · exact Or.inl zero
      · right
        apply ready'.congr
        · intro r member
          rw [withRun_run_other (other c r (List.mem_append_left _ member))]
        · intro r member
          rw [withRun_run_other (other c r (List.mem_append_right _ member))]
          exact ⟨rfl, rfl⟩
  · intro ptr origin len located
    apply inv.origin ptr origin len
    cases origin with
    | huge huge => exact located
    | regular chunk' c r =>
        rcases located with ⟨⟨member, from_, i, inside, ptrAt, state⟩, length⟩
        refine ⟨?_, length⟩
        rcases withRun_member member with ⟨rfl, rfl⟩ | old
        · rw [withRun_run, free i inside] at state
          simp at state
        · have different := other c r old
          rw [withRun_runChunk_other different] at from_
          rw [withRun_run_other different] at ptrAt state
          exact ⟨old, from_, i, inside, ptrAt, state⟩

end Add

/-- The bytes of the metadata of a run of class `b`. -/
def classMetaSize (b : Nat) : Nat := runSizeof + bits2bytesCeil (2 * classElems b)

theorem classMetaSize_facts : ∀ b < 43, 1 ≤ classMetaSize b ∧ classMetaSize b ≤ 4194304 := by
  decide +kernel

theorem BinReady.metaSize {b : Nat} {bin : Bin} {runs : Nat → Run} (ready : BinReady b bin runs) :
    bin.runMetaSize = classMetaSize b := by
  unfold Bin.runMetaSize classMetaSize
  rw [ready.bits]

/-- `n` blocks of height `k`, one after the other. -/
def firstFits (k : Nat) : Nat → List Buddy → Option (List Buddy)
  | 0, trees => some trees
  | n + 1, trees => (firstFit k trees).bind (firstFits k n)

/-- The chunks and the internal mappings have room for `n` runs of class `b`. -/
def World.RunsFit (w : World) (b n : Nat) : Prop :=
  n ≤ w.nodesLeft b ∧ (firstFits (blockHeight (classMetaSize b)) n
    (treesOf w.intAllocs w.arena.internalAllocList)).isSome

instance (w : World) (b n : Nat) : Decidable (w.RunsFit b n) := inferInstanceAs (Decidable (_ ∧ _))

theorem runsFit_one {w : World} {b : Nat} :
    w.RunsFit b 1 ↔ 1 ≤ w.nodesLeft b ∧ w.metaTake (classMetaSize b) ≠ none := by
  unfold World.RunsFit World.metaTake firstFits
  cases firstFit (blockHeight (classMetaSize b)) (treesOf w.intAllocs w.arena.internalAllocList)
  · simp
  · simp [firstFits]

theorem World.RunsFit.first {w : World} {b n : Nat} (fits : w.RunsFit b (n + 1)) : w.RunsFit b 1 := by
  rcases fits with ⟨room, blocks⟩
  apply runsFit_one.mpr
  refine ⟨by omega, ?_⟩
  intro none
  unfold World.metaTake at none
  rw [firstFits, none] at blocks
  simp at blocks

/-- The room that is left after one run. -/
theorem runsFit_succ {w w' : World} {b : Nat} (fits : w.RunsFit b 1)
    (nodes : w'.nodesLeft b + 1 = w.nodesLeft b)
    (blocks : ∀ trees, w.metaTake (classMetaSize b) = some trees →
      treesOf w'.intAllocs w'.arena.internalAllocList = trees) (n : Nat) :
    w'.RunsFit b n ↔ w.RunsFit b (n + 1) := by
  have some := (runsFit_one.mp fits).2
  cases taken : w.metaTake (classMetaSize b) with
  | none => exact absurd taken some
  | some trees =>
      have left := blocks trees taken
      unfold World.metaTake at taken
      unfold World.RunsFit
      rw [firstFits, taken, left, Option.bind_some]
      apply and_congr_left
      intro _
      omega

/-- The metadata of a run that its bin can take. -/
structure RunMade (w : World) (b run : Nat) (w' : World) : Prop where
  inv : ∃ g, Inv (w'.binAdded b run) g none
  grows : Grows w (w'.binAdded b run)
  bins : w'.arena.bins = w.arena.bins
  navail : (w'.runs run).navail = classElems b

section Specs

variable {ends : Ends World} {w : World} {g : Layout} {env : Env} {b : Nat}

/-- The metadata of a run on a node that waits for it. -/
theorem arenaInitRun_wp {fuel chunk n : Nat} (inv : Inv w g (some (chunk, n)))
    (ready : BinReady b (w.arena.bins b) w.runs)
    (size : (nodeRun (w.chunks chunk).key n).size = classRunBytes b)
    (table : reportedSize (w.chunks chunk) n = if b < 36 then classSize b else 0)
    (room : (w.arena.bins b).availRegs + classElems b ≤ 2048)
    (loops : w.metaTake (classMetaSize b) = none → ends.fuel) :
    wp ends (arenaInitRun env fuel b chunk (nodeRun (w.chunks chunk).key n).ptr) (fun run w' =>
      RunMade w b run w' ∧ w'.chunks = w.chunks ∧ w'.arena.chunkList = w.arena.chunkList ∧
      (∀ trees, w.metaTake (classMetaSize b) = some trees →
        treesOf w'.intAllocs w'.arena.internalAllocList = trees) ∧
      (env.Fails w.mmapCalls → w.metaTake (classMetaSize b) ≠ none)) w := by
  have metaFacts := classMetaSize_facts b ready.isClass
  have facts := classSize_facts b ready.isClass
  have notZero : (w.arena.bins b).elems ≠ 0 := by
    rw [ready.elems]
    omega
  unfold arenaInitRun
  simp only [wp_bind, wp_get]
  rw [ready.metaSize]
  apply wp_mono (arenaInternalAlloc_wp (classMetaSize b) inv.rootsOk inv.brk metaFacts.1
    metaFacts.2 loops)
  intro r w₁ post
  rcases post with ⟨run, rfl, taken, trees, working⟩
  have inv₁ := inv.metaFrame taken.frame fun _ _ _ => id
  have bins : w₁.arena.bins b = w.arena.bins b := by rw [taken.frame.bins]
  have unused : ∀ kind, run ∉ w₁.arena.entries kind := by
    rw [taken.frame.entries.1]
    exact inv.blocks.unused taken.fresh
  simp only [if_neg notZero, wp_bind, wp_modify, setRunChunk, wp_pure]
  generalize generatorDraws (w.arena.bins b).regSize + 1 = draws
  have bits : (w.arena.bins b).regMaskSizeBits = 2 * (w.arena.bins b).elems := by
    rw [ready.elems, ready.bits]
  have fresh := runInit_inv (env.staleRun run) ready.isClass ready.regSize ready.elems bits
    (fun i => u32 (env.rand32 (w₁.rand32Draws + i))) (nodeRun (w.chunks chunk).key n).ptr
  rw [ready.elems] at fresh
  have key : (runInit (fun i => u32 (env.rand32 (w₁.rand32Draws + i))) (env.staleRun run)
    (w.arena.bins b) (nodeRun (w.chunks chunk).key n).ptr).key =
      (nodeRun (w.chunks chunk).key n).ptr := rfl
  generalize runInit (fun i => u32 (env.rand32 (w₁.rand32Draws + i))) (env.staleRun run)
    (w.arena.bins b) (nodeRun (w.chunks chunk).key n).ptr = value at fresh key
  rcases fresh with ⟨runInv, navail, free⟩
  have drawn := draw32_frame w₁ draws
  have inv₂ := inv₁.metaFrame drawn.metaFrame fun _ _ _ => id
  have ready₂ : BinReady b ((w₁.draw32 draws).arena.bins b) (w₁.draw32 draws).runs := by
    have bin : (w₁.draw32 draws).arena.bins b = w.arena.bins b := bins
    have runs : (w₁.draw32 draws).runs = w.runs := taken.frame.runs
    rw [bin, runs]
    exact ready
  have placed : Placed (w₁.draw32 draws).arena.internalAllocList (w₁.draw32 draws).intAllocs run
      ((w₁.draw32 draws).arena.bins b).runMetaSize := by
    rw [ready₂.metaSize]
    exact taken.placed
  have chunks : (w₁.draw32 draws).chunks = w.chunks := taken.frame.chunks
  have room₂ : ((w₁.draw32 draws).arena.bins b).availRegs + classElems b ≤ 2048 := by
    have bin : (w₁.draw32 draws).arena.bins b = w.arena.bins b := bins
    rw [bin]
    exact room
  have added : Inv ((w₁.draw32 draws).withRun b chunk run value) (g.setNode run n) none := by
    apply inv₂.addRun ready₂ unused placed _ _ _ runInv navail free room₂
    · rw [chunks]
      exact size
    · rw [chunks]
      exact table
    · rw [chunks]
      exact key
  have grows := (taken.frame.grows inv).trans ((drawn.metaFrame.grows inv₁).trans
    (withRun_grows chunk value inv₂ unused placed))
  have made : RunMade w b run
      ((w₁.draw32 draws).placeRun chunk run (classMetaSize b) value) := by
    unfold World.withRun at added grows
    rw [ready₂.metaSize] at added grows
    refine ⟨⟨_, added⟩, grows, taken.frame.bins, ?_⟩
    have same : ((w₁.draw32 draws).placeRun chunk run (classMetaSize b) value).runs run = value :=
      Function.update_self _ _ _
    rw [same]
    exact navail
  exact ⟨made, taken.frame.chunks, taken.frame.chunkList, trees, working⟩

/-- A run comes from the first chunk with room; where none has, from a new chunk. -/
theorem arenaAllocateRun_wp {fuel : Nat} (inv : Inv w g none)
    (ready : BinReady b (w.arena.bins b) w.runs)
    (room : (w.arena.bins b).availRegs + classElems b ≤ 2048)
    (loops : ¬ w.RunsFit b 1 → ends.fuel) :
    wp ends (arenaAllocateRun env fuel b) (fun run w' => RunMade w b run w' ∧
      (w.RunsFit b 1 → ∀ n, w'.RunsFit b n ↔ w.RunsFit b (n + 1)) ∧
      (env.Fails w.mmapCalls → w.RunsFit b 1)) w := by
  have isClass := ready.isClass
  unfold arenaAllocateRun
  simp only [wp_bind, wp_get]
  rw [ready.pages, ready.regSize]
  apply wp_mono (chunkAllocateFrom_wp isClass w.arena.chunkList w inv (inv.blocks.nodup .chunk)
    fun _ => id)
  intro r w₁ post
  cases r with
  | some found =>
      rcases found with ⟨chunk, ptr⟩
      rcases post with ⟨member, n, ptrAt, taken, others, left⟩
      rw [ptrAt]
      have ready₁ : BinReady b (w₁.arena.bins b) w₁.runs := by
        rw [taken.arena, taken.runs]
        exact ready
      have room₁ : (w₁.arena.bins b).availRegs + classElems b ≤ 2048 := by
        rw [taken.arena]
        exact room
      have blocks : ∀ size, w₁.metaTake size = w.metaTake size := by
        intro size
        unfold World.metaTake
        rw [taken.arena, taken.intAllocs]
      have loops₁ : w₁.metaTake (classMetaSize b) = none → ends.fuel := by
        intro none
        rw [blocks] at none
        exact loops fun fits => (runsFit_one.mp fits).2 none
      apply wp_mono (arenaInitRun_wp taken.inv ready₁ taken.size taken.table room₁ loops₁)
      intro run w₂ post
      rcases post with ⟨made, chunks, chunkList, trees, working⟩
      have nodes : w₂.nodesLeft b + 1 = w.nodesLeft b := by
        unfold World.nodesLeft
        rw [chunks, chunkList, taken.arena]
        exact left
      refine ⟨⟨made.inv, taken.grows.trans made.grows, ?_, made.navail⟩, ?_, ?_⟩
      · rw [made.bins, taken.arena]
      · intro fits n
        apply runsFit_succ fits nodes
        intro ts some
        rw [← blocks] at some
        exact trees ts some
      · intro fails
        have some := working (fails.mono taken.grows.calls)
        rw [blocks] at some
        apply runsFit_one.mpr
        refine ⟨?_, some⟩
        omega
  | none =>
      rcases post with ⟨frame, arena, intAllocs, full⟩
      have empty : ¬ w.RunsFit b 1 := by
        intro fits
        have nodes := (runsFit_one.mp fits).1
        have none : w.nodesLeft b = 0 := full
        omega
      have inv₁ := inv.metaFrame frame fun _ _ _ => id
      simp only [wp_bind]
      apply wp_mono (arenaAllocateChunk_wp (b := b) inv₁ (loops empty))
      intro chunk w₂ post
      rcases post with ⟨inv₂, grows, member, avail, bins, runs, working⟩
      have some := avail.resolve_right (not_not_intro isClass)
      apply wp_mono (onChunkAllocateRun_wp inv₂ isClass member)
      intro r w₃ post
      cases r with
      | none =>
          rcases post with ⟨-, -, -, none⟩
          omega
      | some ptr =>
          rcases post with ⟨n, ptrAt, taken, -, -⟩
          rw [Option.getD_some, ptrAt]
          have bins₃ : w₃.arena.bins = w.arena.bins := by
            rw [taken.arena, bins, arena]
          have ready₃ : BinReady b (w₃.arena.bins b) w₃.runs := by
            rw [bins₃, taken.runs, runs, frame.runs]
            exact ready
          have room₃ : (w₃.arena.bins b).availRegs + classElems b ≤ 2048 := by
            rw [bins₃]
            exact room
          apply wp_mono (arenaInitRun_wp taken.inv ready₃ taken.size taken.table room₃ fun _ =>
            loops empty)
          intro run w₄ post
          rcases post with ⟨made, -⟩
          refine ⟨⟨made.inv, ?_, ?_, made.navail⟩, fun fits => absurd fits empty, ?_⟩
          · exact (frame.grows inv).trans (grows.trans (taken.grows.trans made.grows))
          · rw [made.bins, bins₃]
          · intro fails
            exact absurd (fails.mono frame.calls) working

/-- What a bin has after `rounds` new runs, each added to it. -/
structure Supplied (w : World) (b rounds : Nat) (w' : World) : Prop where
  inv : ∃ g, Inv w' g none
  grows : Grows w w'
  avail : (w'.arena.bins b).availRegs = (w.arena.bins b).availRegs + rounds * classElems b
  others : ∀ c, c ≠ b → w'.arena.bins c = w.arena.bins c

/-- `bin_add_run` of a run that was just made. -/
theorem RunMade.supplied {run : Nat} {w' : World} (made : RunMade w b run w')
    (room : (w.arena.bins b).availRegs + classElems b ≤ 2048) :
    Supplied w b 1 (w'.binAdded b run) := by
  refine ⟨made.inv, made.grows, ?_, ?_⟩
  · have bin : (w'.binAdded b run).arena.bins b =
        (w'.arena.bins b).addRun run (w'.runs run).navail := setBin_same w'
    have word : u32 ((w.arena.bins b).availRegs + classElems b) =
        (w.arena.bins b).availRegs + classElems b := Nat.mod_eq_of_lt (by omega)
    rw [bin, made.navail, made.bins, Nat.one_mul]
    exact word
  · intro c different
    have bin : (w'.binAdded b run).arena.bins c = w'.arena.bins c := setBin_other w' different
    rw [bin, made.bins]

/-- An initialised bin stays initialised while its regions do not vanish. -/
theorem Inv.ready_of_avail {pending : Option (Nat × Nat)} (inv : Inv w g pending)
    (some : (w.arena.bins b).availRegs ≠ 0) : BinReady b (w.arena.bins b) w.runs := by
  rcases inv.bins b with zero | ready
  · rw [zero] at some
    exact absurd rfl some
  · exact ready

theorem supplyRuns_wp {fuel : Nat} :
    ∀ (rounds : Nat) (w : World) (g : Layout), Inv w g none →
      BinReady b (w.arena.bins b) w.runs →
      (w.arena.bins b).availRegs + rounds * classElems b ≤ 2048 →
      (¬ w.RunsFit b rounds → ends.fuel) →
      wp ends (supplyRuns env fuel b rounds) (fun _ w' => Supplied w b rounds w' ∧
        (env.Fails w.mmapCalls → w.RunsFit b rounds)) w := by
  intro rounds
  induction rounds with
  | zero =>
      intro w g inv _ _ _
      refine ⟨⟨⟨g, inv⟩, Grows.refl w, ?_, fun _ _ => rfl⟩, ?_⟩
      · rw [Nat.zero_mul, Nat.add_zero]
      · exact fun _ => ⟨Nat.zero_le _, rfl⟩
  | succ rounds ih =>
      intro w g inv ready room loops
      have some := (classSize_facts b ready.isClass).2.2.2.1
      rw [Nat.succ_mul] at room
      have room₁ : (w.arena.bins b).availRegs + classElems b ≤ 2048 := by omega
      unfold supplyRuns binAddRun
      simp only [wp_bind, wp_modify]
      apply wp_mono (arenaAllocateRun_wp inv ready room₁ fun tight =>
        loops fun fits => tight fits.first)
      intro run w₁ post
      rcases post with ⟨made, left, working⟩
      have added := made.supplied room₁
      have left' : w.RunsFit b 1 →
          ∀ n, (w₁.binAdded b run).RunsFit b n ↔ w.RunsFit b (n + 1) := left
      have avail := added.avail
      rw [Nat.one_mul] at avail
      rcases added.inv with ⟨g', inv'⟩
      have ready' := inv'.ready_of_avail (b := b) (by omega)
      have loops' : ¬ (w₁.binAdded b run).RunsFit b rounds → ends.fuel := by
        intro tight
        apply loops
        intro fits
        exact tight ((left' fits.first rounds).mpr fits)
      apply wp_mono (ih (w₁.binAdded b run) g' inv' ready' (by omega) loops')
      intro _ w₂ post
      rcases post with ⟨rest, working'⟩
      refine ⟨⟨rest.inv, added.grows.trans rest.grows, ?_, ?_⟩, ?_⟩
      · rw [rest.avail, avail, Nat.succ_mul]
        omega
      · intro c different
        exact (rest.others c different).trans (added.others c different)
      · intro fails
        have fits := working fails
        exact (left' fits rounds).mp (working' (fails.mono added.grows.calls))

end Specs

end Sealloc
