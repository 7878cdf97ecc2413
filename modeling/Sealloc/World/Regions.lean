import Sealloc.World.Runs
import Sealloc.Run.History

/-! Regions of runs: `bin_get_run_for_allocation`, `run_allocate` and `run_deallocate` as steps
of the world. -/

namespace Sealloc

open Library Chunk

section Sum

variable {α : Type} [DecidableEq α] {entries : List α} {a : α} {f f' : α → Nat}

/-- One summand of a list changes. -/
theorem sum_change (member : a ∈ entries) (nodup : entries.Nodup)
    (others : ∀ x ∈ entries, x ≠ a → f' x = f x) :
    (entries.map f').sum + f a = (entries.map f).sum + f' a := by
  have perm := List.perm_cons_erase member
  have sum : ∀ h : α → Nat, (entries.map h).sum = h a + ((entries.erase a).map h).sum := by
    intro h
    rw [(perm.map h).sum_eq, List.map_cons, List.sum_cons]
  have rest : (entries.erase a).map f' = (entries.erase a).map f := by
    apply List.map_congr_left
    intro x inside
    have different : x ≠ a := fun same => nodup.not_mem_erase (same ▸ inside)
    exact others x (List.mem_of_mem_erase inside) different
  rw [sum f', sum f, rest]
  omega

end Sum

/-- The world in which a run of bin `b` has another content, and pointers other origins. -/
def World.withRegion (w : World) (b run : Nat) (value : Run) (bin : Bin)
    (origin : Nat → Option Origin) : World :=
  ((w.setRun run (w.arena.bins b).runMetaSize value).record
    { w.history with origin := origin }).setBin b bin

section Change

variable {w : World} {g : Layout} {b run : Nat} {value : Run} {bin : Bin}
  {origin : Nat → Option Origin}

theorem withRegion_run : (w.withRegion b run value bin origin).runs run = value :=
  Function.update_self _ _ _

theorem withRegion_run_other {r : Nat} (different : r ≠ run) :
    (w.withRegion b run value bin origin).runs r = w.runs r := Function.update_of_ne different _ _

theorem withRegion_bins_other {c : Nat} (different : c ≠ b) :
    (w.withRegion b run value bin origin).arena.bins c = w.arena.bins c :=
  setBin_other _ different

/-- The runs of the bin are on its lists as before, in whichever order. -/
theorem withRegion_member
    (lists : (bin.runListActive ++ bin.runListInactive).Perm (w.arena.entries (.run b)))
    {kind : Kind} {r : Nat} :
    r ∈ (w.withRegion b run value bin origin).arena.entries kind ↔ r ∈ w.arena.entries kind := by
  by_cases same : kind = .run b
  · rw [same]
    have here : (w.withRegion b run value bin origin).arena.entries (.run b) =
        bin.runListActive ++ bin.runListInactive := entries_setBin_same
    rw [here]
    exact lists.mem_iff
  · have there : (w.withRegion b run value bin origin).arena.entries kind =
        w.arena.entries kind := entries_setBin_other same
    rw [there]

/-- The regions of the other runs are as they were. -/
theorem withRegion_region
    (lists : (bin.runListActive ++ bin.runListInactive).Perm (w.arena.entries (.run b)))
    {chunk c r ptr : Nat} {s : BState} (different : r ≠ run) :
    Region (w.withRegion b run value bin origin) chunk c r ptr s ↔ Region w chunk c r ptr s := by
  unfold Region
  rw [withRegion_member lists, withRegion_run_other different]
  exact Iff.rfl

theorem withRegion_metaSize (ready : BinReady b (w.arena.bins b) w.runs)
    {runs : Nat → Run} (ready' : BinReady b bin runs) :
    (w.withRegion b run value bin origin).arena.metaSize = w.arena.metaSize := by
  apply metaSize_setBin
  exact ready'.bits.trans ready.bits.symm

/-- A run of a bin changes, and the bin with it. -/
theorem Inv.changeRun (inv : Inv w g none) (member : run ∈ w.arena.entries (.run b))
    (ready : BinReady b bin (Function.update w.runs run value))
    (lists : (bin.runListActive ++ bin.runListInactive).Perm (w.arena.entries (.run b)))
    (key : value.key = (w.runs run).key) (runInv : value.Inv (classElems b))
    (origins : ∀ ptr o len, Located (w.withRegion b run value bin origin) ptr o len →
      origin ptr = some o) :
    Inv (w.withRegion b run value bin origin) g none := by
  have members : ∀ kind r, r ∈ (w.withRegion b run value bin origin).arena.entries kind ↔
      r ∈ w.arena.entries kind := fun _ _ => withRegion_member lists
  have sizes : (w.withRegion b run value bin origin).arena.metaSize = w.arena.metaSize :=
    withRegion_metaSize (inv.ready member) ready
  refine ⟨inv.brk, ?_, inv.chunks, ?_, ?_, ?_, ?_, ?_, ?_, inv.huges, inv.owner, inv.owned,
    inv.granted, inv.findings, origins⟩
  · apply inv.blocks.fewer
    · intro kind addr inside
      exact ⟨(members kind addr).mp inside, congrFun sizes kind⟩
    · intro kind
      by_cases same : kind = .run b
      · have here : (w.withRegion b run value bin origin).arena.entries (.run b) =
            bin.runListActive ++ bin.runListInactive := entries_setBin_same
        rw [same, here]
        exact lists.nodup_iff.mpr (inv.blocks.nodup (.run b))
      · have there : (w.withRegion b run value bin origin).arena.entries kind =
            w.arena.entries kind := entries_setBin_other same
        rw [there]
        exact inv.blocks.nodup kind
  · intro c r inside
    exact inv.known c r ((members _ r).mp inside)
  · intro c r inside
    have before := (members _ r).mp inside
    have place := inv.runs c r before
    by_cases same : r = run
    · have kinds := inv.run_bin member (same ▸ before)
      rw [same] at place ⊢
      rw [withRegion_run]
      rw [kinds] at place ⊢
      exact ⟨place.isClass, place.live, key.trans place.key, place.size, runInv, place.table⟩
    · rw [withRegion_run_other same]
      exact place
  · intro chunk inside n live waiting
    rcases inv.cover chunk inside n live waiting with ⟨c, r, before, from_, node⟩
    exact ⟨c, r, (members _ r).mpr before, from_, node⟩
  · intro c c' r r' inside inside'
    exact inv.same c c' r r' ((members _ r).mp inside) ((members _ r').mp inside')
  · intro chunk n impossible
    simp at impossible
  · intro c
    by_cases same : c = b
    · right
      have here : (w.withRegion b run value bin origin).arena.bins b = bin := setBin_same _
      rw [same, here]
      exact ready
    · rw [withRegion_bins_other same]
      rcases inv.bins c with zero | ready'
      · exact Or.inl zero
      · have other : ∀ r ∈ w.arena.entries (.run c), r ≠ run := by
          intro r inside eq
          exact same (inv.run_bin member (eq ▸ inside))
        right
        apply ready'.congr
        · intro r inside
          rw [withRegion_run_other (other r (List.mem_append_left _ inside))]
        · intro r inside
          rw [withRegion_run_other (other r (List.mem_append_right _ inside))]
          exact ⟨rfl, rfl⟩

/-- What is allocated after a run has changed: what was allocated outside the run, and the run's
own regions by their new states. -/
theorem withRegion_located (inv : Inv w g none) (member : run ∈ w.arena.entries (.run b))
    (lists : (bin.runListActive ++ bin.runListInactive).Perm (w.arena.entries (.run b)))
    (key : value.key = (w.runs run).key) {p n : Nat} {o : Origin}
    (located : Located (w.withRegion b run value bin origin) p o n) :
    (Located w p o n ∧ ∀ chunk c, o ≠ .regular chunk c run) ∨
      (o = .regular (w.history.runChunk run) b run ∧ n = classSize b ∧
        ∃ i < classElems b, p = (w.runs run).key + i * classSize b ∧ value.state i = .alloc) := by
  cases o with
  | huge huge => exact Or.inl ⟨located, fun _ _ => nofun⟩
  | regular chunk c r =>
      by_cases same : r = run
      · right
        rcases located with ⟨⟨member', from_, i, small, ptrAt, state⟩, length⟩
        have inList := (withRegion_member lists).mp member'
        have kinds := inv.run_bin member (same ▸ inList)
        have from' : w.history.runChunk r = chunk := from_
        rw [same, withRegion_run] at ptrAt state
        rw [key, kinds] at ptrAt
        rw [kinds] at small length
        rw [← from', same, kinds]
        exact ⟨rfl, length, i, small, ptrAt, state⟩
      · left
        refine ⟨⟨(withRegion_region lists same).mp located.1, located.2⟩, ?_⟩
        intro chunk' c' eq
        rw [Origin.regular.injEq] at eq
        exact same eq.2.2

/-- What a change of a run keeps, if no region that is allocated changes but lost ones, and no
freed one. -/
theorem withRegion_keeps {lost : Nat → Prop} (inv : Inv w g none)
    (member : run ∈ w.arena.entries (.run b))
    (lists : (bin.runListActive ++ bin.runListInactive).Perm (w.arena.entries (.run b)))
    (key : value.key = (w.runs run).key)
    (kept : ∀ i < classElems b, ¬ lost ((w.runs run).key + i * classSize b) →
      (w.runs run).state i = .alloc → value.state i = .alloc)
    (freed : ∀ i < classElems b, (w.runs run).state i = .allocFree →
      value.state i = .allocFree) :
    Keeps lost w (w.withRegion b run value bin origin) := by
  have regions : ∀ chunk c r ptr s, (r = run → c = b → ∀ i < classElems b,
      ptr = (w.runs run).key + i * classSize b → (w.runs run).state i = s → value.state i = s) →
      Region w chunk c r ptr s → Region (w.withRegion b run value bin origin) chunk c r ptr s := by
    intro chunk c r ptr s same region
    by_cases this : r = run
    · rcases region with ⟨inside, from_, i, small, ptrAt, state⟩
      have kinds := inv.run_bin member (this ▸ inside)
      rw [this] at ptrAt state
      rw [kinds] at small ptrAt
      refine ⟨(withRegion_member lists).mpr inside, from_, i, ?_, ?_, ?_⟩
      · rw [kinds]
        exact small
      · rw [this, withRegion_run, key, kinds]
        exact ptrAt
      · rw [this, withRegion_run]
        exact same this kinds i small ptrAt state
    · exact (withRegion_region lists this).mpr region
  refine ⟨?_, ?_, ⟨[], rfl, ?_⟩⟩
  · intro ptr o len stays located
    cases o with
    | huge huge => exact located
    | regular chunk c r =>
        refine ⟨regions chunk c r ptr .alloc ?_ located.1, located.2⟩
        intro _ _ i small ptrAt state
        exact kept i small (ptrAt ▸ stays) state
  · intro ptr o len x _ located low high
    have placed := inv.blocks.placed _ run member
    exact scribble_other (inv.user_apart ⟨ptr, o, len, located, low, high⟩ placed)
  · intro ptr x spent
    left
    rcases spent with ⟨chunk, c, r, region, inside⟩ | unmapped
    · left
      refine ⟨chunk, c, r, regions chunk c r ptr .allocFree ?_ region, inside⟩
      intro _ _ i small _ state
      exact freed i small state
    · exact Or.inr unmapped

end Change

/-- A region of class `b` that `malloc` has just taken from the bin. -/
structure Given (w : World) (b ptr : Nat) (w' : World) : Prop where
  inv : ∃ g, Inv w' g none
  grows : Grows w w'
  located : ∃ chunk run, Located w' ptr (.regular chunk b run) (classSize b)
  new : ∀ o len, ¬ Located w ptr o len
  avail : (w'.arena.bins b).availRegs + 1 = (w.arena.bins b).availRegs
  others : ∀ c, c ≠ b → w'.arena.bins c = w.arena.bins c

section Allocate

variable {w : World} {g : Layout} {b run : Nat} {bin : Bin} {runs : Nat → Run}

/-- The bin after a region of one of its active runs has been taken. -/
def Bin.afterAllocate (bin : Bin) (run : Nat) (value : Run) : Bin :=
  if runIsDepleted value then bin.takeRegion.retireRun run else bin.takeRegion

theorem takeRegion_eq (some : 1 ≤ bin.availRegs) (word : bin.availRegs < 2 ^ 32) :
    bin.takeRegion = { bin with availRegs := bin.availRegs - 1 } := by
  have less : u32 (bin.availRegs + (2 ^ 32 - 1)) = bin.availRegs - 1 := by
    unfold u32
    omega
  unfold Bin.takeRegion
  rw [less]

theorem retireRun_eq (bin : Bin) (run : Nat) (some : 1 ≤ bin.runListActiveCnt) (word : bin.runListActiveCnt < 2 ^ 32) :
    bin.retireRun run = { bin with
      runListActive := bin.runListActive.erase run
      runListInactive := run :: bin.runListInactive
      runListActiveCnt := bin.runListActiveCnt - 1 } := by
  have less : u32 (bin.runListActiveCnt + (2 ^ 32 - 1)) = bin.runListActiveCnt - 1 := by
    unfold u32
    omega
  unfold Bin.retireRun
  rw [less]

/-- The bin after a region has been taken, without the reductions of machine words. -/
theorem BinReady.afterAllocate_eq {value : Run} (ready : BinReady b bin runs)
    (member : run ∈ bin.runListActive) : bin.afterAllocate run value =
      if runIsDepleted value then
        { bin with
          runListActive := bin.runListActive.erase run
          runListInactive := run :: bin.runListInactive
          runListActiveCnt := bin.runListActiveCnt - 1
          availRegs := bin.availRegs - 1 }
      else { bin with availRegs := bin.availRegs - 1 } := by
  have count := ready.count
  have length := ready.length_le
  have bound := ready.bound
  have positive : 0 < bin.runListActive.length := List.length_pos_of_mem member
  have some : 1 ≤ bin.runListActiveCnt := by omega
  have word : bin.runListActiveCnt < 2 ^ 32 := by omega
  have taken : bin.takeRegion = { bin with availRegs := bin.availRegs - 1 } :=
    takeRegion_eq (by omega) (by omega)
  unfold Bin.afterAllocate
  rw [taken, retireRun_eq { bin with availRegs := bin.availRegs - 1 } run some word]

theorem BinReady.afterAllocate_lists {value : Run} (ready : BinReady b bin runs)
    (member : run ∈ bin.runListActive) :
    ((bin.afterAllocate run value).runListActive ++
      (bin.afterAllocate run value).runListInactive).Perm
        (bin.runListActive ++ bin.runListInactive) := by
  rw [ready.afterAllocate_eq member]
  by_cases depleted : runIsDepleted value
  · rw [if_pos depleted]
    have moved : (bin.runListActive.erase run ++ run :: bin.runListInactive).Perm
        (run :: bin.runListActive.erase run ++ bin.runListInactive) := List.perm_middle
    exact moved.trans ((List.perm_cons_erase member).symm.append_right _)
  · rw [if_neg depleted]

/-- Taking a region keeps what a bin says about its runs. -/
theorem BinReady.allocate {value : Run} (ready : BinReady b bin runs)
    (member : run ∈ bin.runListActive) (nodup : bin.runListActive.Nodup)
    (apart : run ∉ bin.runListInactive) (navail : value.navail + 1 = (runs run).navail)
    (nfreed : value.nfreed < classElems b) :
    BinReady b (bin.afterAllocate run value) (Function.update runs run value) ∧
      (bin.afterAllocate run value).availRegs + 1 = bin.availRegs := by
  have count := ready.count
  have length := ready.length_le
  have bound := ready.bound
  have some := ready.active run member
  have others : ∀ r, r ≠ run → Function.update runs run value r = runs r :=
    fun r different => Function.update_of_ne different _ _
  have changed : (bin.runListActive.map fun r => (Function.update runs run value r).navail).sum +
      (runs run).navail = (bin.runListActive.map fun r => (runs r).navail).sum +
        (Function.update runs run value run).navail := by
    apply sum_change member nodup
    intro r _ different
    rw [others r different]
  rw [← ready.avail, Function.update_self] at changed
  have inactive : ∀ r ∈ bin.runListInactive, Function.update runs run value r = runs r :=
    fun r inside => others r fun same => apart (same ▸ inside)
  rw [ready.afterAllocate_eq member]
  by_cases depleted : runIsDepleted value
  · have none : value.navail = 0 := depleted
    have rest : ((bin.runListActive.erase run).map fun r =>
        (Function.update runs run value r).navail).sum = bin.availRegs - 1 := by
      have perm := ((List.perm_cons_erase member).map fun r =>
        (Function.update runs run value r).navail).sum_eq
      rw [List.map_cons, List.sum_cons] at perm
      simp only [Function.update_self] at perm
      omega
    rw [if_pos depleted]
    refine ⟨⟨ready.isClass, ready.regSize, ready.pages, ready.bits, ?_, rest.symm, ?_, ?_, ?_⟩, ?_⟩
    · simp only [List.length_erase_of_mem member, count]
    · simp only
      omega
    · intro r inside
      have different : r ≠ run := fun same => nodup.not_mem_erase (same ▸ inside)
      rw [others r different]
      exact ready.active r (List.mem_of_mem_erase inside)
    · intro r inside
      rcases List.mem_cons.mp inside with rfl | before
      · rw [Function.update_self]
        exact ⟨none, nfreed⟩
      · rw [inactive r before]
        exact ready.inactive r before
    · simp only
      omega
  · have left : value.navail ≠ 0 := depleted
    rw [if_neg depleted]
    refine ⟨⟨ready.isClass, ready.regSize, ready.pages, ready.bits, count, ?_, ?_, ?_, ?_⟩, ?_⟩
    · simp only
      omega
    · simp only
      omega
    · intro r inside
      by_cases same : r = run
      · rw [same, Function.update_self]
        omega
      · rw [others r same]
        exact ready.active r inside
    · intro r inside
      rw [inactive r inside]
      exact ready.inactive r inside
    · simp only
      omega

theorem runAllocate_avail (run : Run) (bin : Bin) (n : Nat) :
    runAllocate run { bin with availRegs := n } = runAllocate run bin := rfl

theorem takeRegion_avail (bin : Bin) : ∃ n, bin.takeRegion = { bin with availRegs := n } :=
  ⟨_, rfl⟩

theorem setBin_setBin (w : World) (b : Nat) (first second : Bin) :
    (w.setBin b first).setBin b second = w.setBin b second := by
  unfold World.setBin World.setArena
  simp only [Function.update_idem]

/-- The run of a bin is one of its class, on addresses that do not wrap. -/
theorem Inv.runSite (inv : Inv w g none) (member : run ∈ w.arena.entries (.run b)) :
    RunSite b (w.runs run).key := by
  have place := inv.runs b run member
  have chunk := inv.chunks _ (inv.known b run member)
  have bounds := nodeRun_bounds (w.chunks (w.history.runChunk run)).key (inv.node member)
  have high := chunk.high
  have key := place.key
  have size := place.size
  refine ⟨place.isClass, ?_⟩
  unfold userspaceEnd at high
  omega

end Allocate

section Specs

variable {ends : Ends World} {w : World} {g : Layout} {env : Env} {b : Nat}

/-- A draw and a finding that passes. -/
theorem Inv.noted (inv : Inv w g none) (finding : Finding) (passes : finding.Passes) (draws : Nat) :
    Inv ((w.draw32 draws).record
      { w.history with findings := finding :: w.history.findings }) g none := by
  refine ⟨inv.brk, inv.blocks, inv.chunks, inv.known, inv.runs, inv.cover, inv.same, inv.waits,
    inv.bins, inv.huges, inv.owner, inv.owned, inv.granted, ?_, inv.origin⟩
  intro other member
  rcases List.mem_cons.mp member with rfl | before
  · exact passes
  · exact inv.findings other before

theorem noted_grows (w : World) (finding : Finding) (draws : Nat) : Grows w
    ((w.draw32 draws).record { w.history with findings := finding :: w.history.findings }) where
  keeps := by
    apply Keeps.of_regions
    · exact ⟨[], rfl, fun x => by simp [World.Mapped, World.record, World.draw32]⟩
    · exact fun _ _ _ _ _ _ region => region
    · exact fun huge member => ⟨member, rfl⟩
    · exact fun _ _ => rfl
  copies := rfl
  calls := Nat.le_refl _

/-- Nothing is allocated at a region that is free. -/
theorem Inv.free_notLocated (inv : Inv w g none) {chunk c r start : Nat}
    (free : Region w chunk c r start .free) : ∀ o len, ¬ Located w start o len := by
  intro o len located
  have size := inv.region_pos free
  have some := inv.located_pos located
  cases o with
  | regular chunk' c' r' =>
      rcases located with ⟨region, rfl⟩
      have same := inv.region_same region free (Nat.le_refl start) (by omega)
        (Nat.le_refl start) (by omega)
      simp at same
  | huge huge =>
      have owner := inv.owner _ _ start
        (inv.located_owner located (Nat.le_refl start) (by omega))
        (inv.region_owner free (Nat.le_refl start) (by omega))
      simp [Origin.owner] at owner

/-- A run of the active list gives its next region: what the invariant says afterwards. -/
theorem Inv.allocate {run : Nat} (inv : Inv w g none) (ready : BinReady b (w.arena.bins b) w.runs)
    (member : run ∈ (w.arena.bins b).runListActive) :
    Given w b (runAllocate (w.runs run) (w.arena.bins b)).1
      (w.withRegion b run (runAllocate (w.runs run) (w.arena.bins b)).2
        ((w.arena.bins b).afterAllocate run (runAllocate (w.runs run) (w.arena.bins b)).2)
        (Function.update w.history.origin (runAllocate (w.runs run) (w.arena.bins b)).1
          (some (.regular (w.history.runChunk run) b run)))) := by
  have entry : run ∈ w.arena.entries (.run b) := List.mem_append_left _ member
  have nodup := List.nodup_append.mp (inv.blocks.nodup (.run b))
  have apart : run ∉ (w.arena.bins b).runListInactive :=
    fun inactive => nodup.2.2 run member run inactive rfl
  have place := inv.runs b run entry
  have avail := ready.active run member
  have runInv := place.inv
  rw [← ready.elems] at runInv
  rcases runAllocate_inv runInv avail with ⟨inside, free, runInv', left, nfreed, key, stores, ptr⟩
  rw [ready.elems] at inside free runInv' stores ptr
  rw [ready.regSize, (inv.runSite entry).address inside] at ptr
  generalize (runAllocate (w.runs run) (w.arena.bins b)).2 = value at *
  generalize (runAllocate (w.runs run) (w.arena.bins b)).1 = start at *
  generalize (w.runs run).next (classElems b) = idx at *
  have before : Region w (w.history.runChunk run) b run start .free :=
    ⟨entry, rfl, idx, inside, ptr, free⟩
  have new : ∀ o len, ¬ Located w start o len := inv.free_notLocated before
  have navail : value.navail + 1 = (w.runs run).navail := by omega
  have fewer : value.nfreed < classElems b := by
    have counted := @Run.count_add_le (w.runs run) (classElems b)
      .free .allocFree (by decide)
    have navail' := place.inv.navail
    have nfreed' := place.inv.nfreed
    omega
  rcases ready.allocate member nodup.1 apart navail fewer with ⟨ready', avail'⟩
  have lists := @BinReady.afterAllocate_lists _ _ _ _ value ready member
  have after : value.state idx = .alloc := by
    rw [stores idx, if_pos rfl]
  have others : ∀ i, i ≠ idx → value.state i = (w.runs run).state i := by
    intro i different
    rw [stores i, if_neg different]
  refine ⟨⟨g, inv.changeRun entry ready' lists key runInv' ?_⟩, ⟨?_, rfl, Nat.le_refl _⟩, ?_, new,
    ?_, ?_⟩
  · intro p o len located
    rcases withRegion_located inv entry lists key located with
      ⟨old, -⟩ | ⟨rfl, rfl, i, small, rfl, state⟩
    · have different : p ≠ start := fun same => new o len (same ▸ old)
      rw [Function.update_of_ne different]
      exact inv.origin p o len old
    · by_cases given : i = idx
      · rw [given, ← ptr]
        exact Function.update_self _ _ _
      · rw [others i given] at state
        have old : Located w ((w.runs run).key + i * classSize b)
            (.regular (w.history.runChunk run) b run) (classSize b) :=
          ⟨⟨entry, rfl, i, small, rfl, state⟩, rfl⟩
        have different : (w.runs run).key + i * classSize b ≠ start :=
          fun same => new _ _ (same ▸ old)
        rw [Function.update_of_ne different]
        exact inv.origin _ _ _ old
  · apply withRegion_keeps inv entry lists key
    · intro i small _ state
      rw [stores i]
      split
      · rfl
      · exact state
    · intro i small state
      have different : i ≠ idx := by
        intro is
        rw [is, free] at state
        simp at state
      rw [others i different]
      exact state
  · refine ⟨w.history.runChunk run, run, ⟨⟨?_, rfl, idx, inside, ?_, ?_⟩, rfl⟩⟩
    · exact (withRegion_member lists).mpr entry
    · rw [withRegion_run, key]
      exact ptr
    · rw [withRegion_run]
      exact after
  · have here : (w.withRegion b run value ((w.arena.bins b).afterAllocate run value)
      (Function.update w.history.origin start (some (.regular (w.history.runChunk run) b run)))).arena.bins b =
        (w.arena.bins b).afterAllocate run value := setBin_same _
    rw [here]
    exact avail'
  · intro c different
    exact withRegion_bins_other different

theorem Given.earlier {w₁ w₂ : World} {ptr : Nat} (grows : Grows w w₁)
    (bins : w₁.arena.bins = w.arena.bins) (given : Given w₁ b ptr w₂) : Given w b ptr w₂ where
  inv := given.inv
  grows := grows.trans given.grows
  located := given.located
  new := fun o len located => given.new o len (grows.keeps.located ptr o len id located)
  avail := by
    rw [← bins]
    exact given.avail
  others := by
    rw [← bins]
    exact given.others

/-- The next region of the run that was picked, whose bin has already counted it. -/
theorem allocateFromRun_wp {run : Nat} {Q : Nat → World → Prop}
    (ready : BinReady b (w.arena.bins b) w.runs)
    (given : Q (runAllocate (w.runs run) (w.arena.bins b)).1
      (w.withRegion b run (runAllocate (w.runs run) (w.arena.bins b)).2
        ((w.arena.bins b).afterAllocate run (runAllocate (w.runs run) (w.arena.bins b)).2)
        (Function.update w.history.origin (runAllocate (w.runs run) (w.arena.bins b)).1
          (some (.regular (w.history.runChunk run) b run))))) :
    wp ends (allocateFromRun b run) Q (w.setBin b (w.arena.bins b).takeRegion) := by
  have facts := classSize_facts b ready.isClass
  have notZero : (w.arena.bins b).elems ≠ 0 := by
    rw [ready.elems]
    omega
  rcases takeRegion_avail (w.arena.bins b) with ⟨n, taken⟩
  have elems : (w.arena.bins b).takeRegion.elems = (w.arena.bins b).elems := by rw [taken]; rfl
  have size : (w.arena.bins b).takeRegion.runMetaSize = (w.arena.bins b).runMetaSize := by
    rw [taken]
    rfl
  have out : runAllocate (w.runs run) (w.arena.bins b).takeRegion =
      runAllocate (w.runs run) (w.arena.bins b) := by
    rw [taken, runAllocate_avail]
  unfold World.withRegion Bin.afterAllocate at given
  unfold allocateFromRun
  clear taken
  generalize (w.arena.bins b).takeRegion = taken at elems size out given ⊢
  have runs : (w.setBin b taken).runs = w.runs := rfl
  have from_ : (w.setBin b taken).history.runChunk = w.history.runChunk := rfl
  have origin : (w.setBin b taken).history.origin = w.history.origin := rfl
  simp only [wp_bind, wp_get, setBin_same, elems, if_neg notZero, size, runs, from_, out,
    wp_modify, setOrigin]
  generalize runAllocate (w.runs run) (w.arena.bins b) = result at given ⊢
  generalize (w.arena.bins b).runMetaSize = bytes at given ⊢
  have moved : ∀ origins, ((w.setBin b taken).setRun run bytes result.2).record
      { w.history with origin := origins } =
        ((w.setRun run bytes result.2).record { w.history with origin := origins }).setBin b taken :=
    fun _ => rfl
  have same : ((w.setBin b taken).setRun run bytes result.2).history = w.history := rfl
  by_cases depleted : runIsDepleted result.2
  · simp only [if_pos depleted] at given ⊢
    simp only [wp_bind, binRetireRun, wp_modify, wp_pure, same, moved, setBin_same, setBin_setBin]
    exact given
  · simp only [if_neg depleted] at given ⊢
    simp only [wp_pure, same, moved]
    exact given

/-- A bin with an available region has an active run. -/
theorem BinReady.active_pos {bin : Bin} {runs : Nat → Run} (ready : BinReady b bin runs)
    (some : 1 ≤ bin.availRegs) : 0 < bin.runListActive.length := by
  have sum := ready.avail
  by_contra none
  have empty : bin.runListActive = [] := List.length_eq_zero_iff.mp (by omega)
  rw [empty] at sum
  simp only [List.map_nil, List.sum_nil] at sum
  omega

/-- The end of `sealloc_allocate_with_bin`, on a bin with an available region. -/
theorem pickRegion_wp (inv : Inv w g none) (available : 1 ≤ (w.arena.bins b).availRegs) :
    wp ends (do
      let run ← binGetRunForAllocation env b
      allocateFromRun b run) (fun ptr w' => Given w b ptr w') w := by
  have ready := inv.ready_of_avail (b := b) (by omega)
  have positive := ready.active_pos available
  have count := ready.count
  have nonzero : (w.arena.bins b).runListActiveCnt ≠ 0 := by omega
  unfold binGetRunForAllocation
  simp only [wp_bind, wp_splitmix32, wp_get]
  have same : (w.draw32 1).arena = w.arena := rfl
  simp only [same]
  rw [if_neg nonzero]
  have inside : u32 (env.rand32 w.rand32Draws) % (w.arena.bins b).runListActiveCnt <
      (w.arena.bins b).runListActive.length := by
    rw [← count]
    exact Nat.mod_lt _ (by omega)
  generalize u32 (env.rand32 w.rand32Draws) % (w.arena.bins b).runListActiveCnt = idx at inside ⊢
  have passes : (Finding.picked b idx (w.arena.bins b).runListActive.length).Passes := inside
  have inv' := inv.noted _ passes 1
  have grows := noted_grows w (.picked b idx (w.arena.bins b).runListActive.length) 1
  have found : (w.arena.bins b).runListActive[idx]? =
      some (w.arena.bins b).runListActive[idx] := List.getElem?_eq_getElem inside
  have member : (w.arena.bins b).runListActive[idx] ∈ (w.arena.bins b).runListActive :=
    List.getElem_mem inside
  simp only [wp_bind, note, wp_modify, found, wp_pure]
  generalize (w.arena.bins b).runListActive[idx] = run at member ⊢
  have history : (w.draw32 1).history = w.history := rfl
  rw [history]
  generalize noted : (w.draw32 1).record { w.history with
    findings := .picked b idx (w.arena.bins b).runListActive.length :: w.history.findings } = w₁
    at inv' grows ⊢
  have bins : w₁.arena.bins = w.arena.bins := by
    rw [← noted]
    rfl
  have runs : w₁.runs = w.runs := by
    rw [← noted]
    rfl
  rw [← bins] at ready member
  rw [← runs] at ready
  apply allocateFromRun_wp ready
  exact (inv'.allocate ready member).earlier grows bins

end Specs

end Sealloc
