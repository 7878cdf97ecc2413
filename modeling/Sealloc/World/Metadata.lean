import Sealloc.World.Frame
import Sealloc.Library.Lists

/-! Metadata blocks: what `arena_internal_alloc` and `arena_internal_free` do to the world. -/

namespace Sealloc

open Library

/-- The first tree of a list that has room for a block of height `k` gives one. -/
def firstFit (k : Nat) : List Buddy → Option (List Buddy)
  | [] => none
  | t :: trees =>
      match Buddy.alloc k 18 t with
      | some (_, rest) => some (rest :: trees)
      | none => (firstFit k trees).map (t :: ·)

/-- The trees of internal mappings. -/
def treesOf (ias : Nat → IntAlloc) (roots : List Nat) : List Buddy :=
  roots.map fun root => (ias root).tree

/-- What the internal mappings are left with by a block of `size` bytes. -/
def World.metaTake (w : World) (size : Nat) : Option (List Buddy) :=
  firstFit (blockHeight size) (treesOf w.intAllocs w.arena.internalAllocList)

/-- Blocks that start at one address are one block. -/
theorem IntAlloc.block_single {root addr k k' : Nat} {ia : IntAlloc}
    (block : (addr, k) ∈ ia.blocks root) (block' : (addr, k') ∈ ia.blocks root) : k = k' := by
  by_contra different
  have : Std.Symm fun first second : Nat × Nat =>
      first.1 + 32 * 2 ^ first.2 ≤ second.1 ∨ second.1 + 32 * 2 ^ second.2 ≤ first.1 :=
    ⟨fun _ _ => Or.symm⟩
  have two : (addr, k) ≠ (addr, k') := fun same => different (Prod.mk.inj same).2
  have apart := (IntAlloc.blocks_apart root ia).forall block block' two
  have some := Nat.two_pow_pos k
  have some' := Nat.two_pow_pos k'
  simp only at apart
  omega

section Roots

variable {w : World} {root addr : Nat}

/-- A block lies inside the range of its internal mapping. -/
theorem IntAlloc.block_range {k : Nat} {ia : IntAlloc} (block : (addr, k) ∈ ia.blocks root) :
    root ≤ addr ∧ addr < root + alignupPage intAllocSizeof := by
  have bounds := IntAlloc.block_bounds block
  have whole := intAllocMemory_end root
  have rounded := intAllocSizeof_le
  have header : root ≤ intAllocMemory root := Nat.le_add_right _ _
  have some := Nat.two_pow_pos k
  omega

/-- A change of one internal mapping that keeps its blocks, but for those that `gone` names. -/
theorem setIntAlloc_metaFrame {gone : Nat → Prop} {ia : IntAlloc}
    (member : root ∈ w.arena.internalAllocList) (valid : ia.Valid)
    (kept : ∀ addr k, ¬ gone addr → (addr, k) ∈ (w.intAllocs root).blocks root →
      (addr, k) ∈ ia.blocks root) : MetaFrame gone w (w.setIntAlloc root ia) where
  chunks := rfl
  runs := rfl
  huges := rfl
  chunkList := rfl
  hugeAllocList := rfl
  bins := rfl
  brk := id
  copies := rfl
  findings := rfl
  runChunk := rfl
  origin := rfl
  calls := Nat.le_refl _
  granted := ⟨[], rfl, fun x => by simp [World.Mapped, World.setIntAlloc]⟩
  memory := by
    intro x _ external
    apply if_neg
    intro inside
    have rounded := intAllocSizeof_le
    have header : intAllocHeaderBytes + internalAllocBuddyTreeSizeBytes ≤ intAllocSizeof :=
      Nat.le_add_right _ _
    exact external ⟨root, member, inside.1, by omega⟩
  ok := by
    intro ok
    refine ⟨ok.nodup, ?_, ok.bounds, ok.unique, ok.mapped, ok.aligned⟩
    intro other inside
    by_cases same : other = root
    · rw [same, setIntAlloc_same]
      exact valid
    · rw [setIntAlloc_other w same]
      exact ok.valid other inside
  old := fun _ inside => Or.inl inside
  placed := by
    intro addr size stays placed
    apply placed.mono
    intro other inside k block
    refine ⟨inside, ?_⟩
    by_cases same : other = root
    · subst same
      rw [setIntAlloc_same]
      exact kept addr k stays block
    · rw [setIntAlloc_other w same]
      exact block

theorem treesOf_update {ias : Nat → IntAlloc} {ia : IntAlloc} {roots : List Nat}
    (other : root ∉ roots) : treesOf (Function.update ias root ia) roots = treesOf ias roots := by
  apply List.map_congr_left
  intro r member
  have different : r ≠ root := fun same => other (same ▸ member)
  rw [Function.update_of_ne different]

end Roots

/-- A metadata block of `size` bytes at `a` that nothing had before. -/
structure Taken (w : World) (size a : Nat) (w' : World) : Prop where
  frame : MetaFrame (fun _ => False) w w'
  placed : Placed w'.arena.internalAllocList w'.intAllocs a size
  fresh : ∀ size', ¬ Placed w.arena.internalAllocList w.intAllocs a size'

section Specs

variable {ends : Ends World} {w : World} {env : Env} {size : Nat}

theorem setIntAlloc_self (w : World) {root : Nat} (ok : RootsOk w)
    (member : root ∈ w.arena.internalAllocList) :
    MetaFrame (fun _ => False) w (w.setIntAlloc root (w.intAllocs root)) ∧
      (w.setIntAlloc root (w.intAllocs root)).intAllocs = w.intAllocs :=
  ⟨setIntAlloc_metaFrame member (ok.valid root member) fun _ _ _ block => block,
    Function.update_eq_self _ _⟩

/-- One call of the internal allocator: a new block, or the tree has no room. -/
theorem onIntAlloc_wp (ok : RootsOk w) {root : Nat} (member : root ∈ w.arena.internalAllocList)
    (positive : 1 ≤ size) (small : size ≤ 4194304) :
    wp ends (onIntAlloc root (internalAlloc root size)) (fun r w' =>
      w'.arena = w.arena ∧
      match r with
      | none => MetaFrame (fun _ => False) w w' ∧ w'.intAllocs = w.intAllocs ∧
          Buddy.alloc (blockHeight size) 18 (w.intAllocs root).tree = none
      | some a => Taken w size a w' ∧ ∃ ia offset,
          w'.intAllocs = Function.update w.intAllocs root ia ∧
          Buddy.alloc (blockHeight size) 18 (w.intAllocs root).tree = some (offset, ia.tree)) w := by
  have valid := ok.valid root member
  have space : root + intAllocSizeof < 2 ^ 64 := by
    have bounds := ok.bounds root member
    have rounded := intAllocSizeof_le
    unfold userspaceEnd at bounds
    omega
  have refines := internalAlloc_refines valid space positive small
  cases taken : Buddy.alloc (blockHeight size) 18 (w.intAllocs root).tree with
  | none =>
      rw [taken] at refines
      have run : onIntAlloc root (internalAlloc root size) w =
          .ok none (w.setIntAlloc root (w.intAllocs root)) := by
        unfold onIntAlloc Prog.zoom
        rw [refines]
      apply wp_of_ok run
      have same := setIntAlloc_self w ok member
      exact ⟨rfl, same.1, same.2, rfl⟩
  | some result =>
      rcases result with ⟨offset, rest⟩
      rw [taken] at refines
      rcases refines with ⟨ia, called, tree, valid'⟩
      have run : onIntAlloc root (internalAlloc root size) w =
          .ok (.some (intAllocMemory root + 32 * offset)) (w.setIntAlloc root ia) := by
        unfold onIntAlloc Prog.zoom
        rw [called]
      have blocks : (ia.blocks root).Perm
          ((intAllocMemory root + 32 * offset, blockHeight size) :: (w.intAllocs root).blocks root) :=
        IntAlloc.blocks_alloc (blockHeight_le (by omega)) taken tree
      have inside : (intAllocMemory root + 32 * offset, blockHeight size) ∈ ia.blocks root :=
        blocks.mem_iff.mpr List.mem_cons_self
      have frame : MetaFrame (fun _ => False) w (w.setIntAlloc root ia) := by
        apply setIntAlloc_metaFrame member valid'
        intro addr k _ block
        exact blocks.mem_iff.mpr (List.mem_cons_of_mem _ block)
      apply wp_of_ok run
      refine ⟨rfl, ⟨frame, ?_, ?_⟩, ia, offset, rfl, ?_⟩
      · refine ⟨root, member, blockHeight size, ?_, (blockHeight_spec size).1⟩
        rw [setIntAlloc_same]
        exact inside
      · intro size' placed
        rcases placed with ⟨root', member', k, block, -⟩
        have both : (intAllocMemory root + 32 * offset, k) ∈ (w.intAllocs root).blocks root := by
          have range := IntAlloc.block_range inside
          have range' := IntAlloc.block_range block
          have same := ok.unique root root' _ member member' range.1 range.2 range'.1 range'.2
          subst same
          exact block
        have apart := (blocks.pairwise_iff (fun {_ _} => Or.symm)).mp
          (IntAlloc.blocks_apart root ia)
        have disjoint := (List.pairwise_cons.mp apart).1 _ both
        have filled := Nat.two_pow_pos k
        have filled' := Nat.two_pow_pos (blockHeight size)
        simp only at disjoint
        omega
      · rw [tree]

theorem Taken.earlier {w₁ w₂ : World} {a : Nat} (frame : MetaFrame (fun _ => False) w w₁)
    (taken : Taken w₁ size a w₂) : Taken w size a w₂ where
  frame := frame.trans taken.frame
  placed := taken.placed
  fresh := fun size' before => taken.fresh size' (frame.placed a size' id before)

/-- The search over the mappings stops at the first that has room. -/
theorem internalAllocFrom_wp (positive : 1 ≤ size) (small : size ≤ 4194304) :
    ∀ (roots : List Nat) (w : World), RootsOk w → roots.Nodup →
      (∀ root ∈ roots, root ∈ w.arena.internalAllocList) →
      wp ends (internalAllocFrom size roots) (fun r w' =>
        w'.arena = w.arena ∧
        match r with
        | none => MetaFrame (fun _ => False) w w' ∧ w'.intAllocs = w.intAllocs ∧
            firstFit (blockHeight size) (treesOf w.intAllocs roots) = none
        | some a => Taken w size a w' ∧ (∀ r, r ∉ roots → w'.intAllocs r = w.intAllocs r) ∧
            firstFit (blockHeight size) (treesOf w.intAllocs roots) =
              some (treesOf w'.intAllocs roots)) w := by
  intro roots
  induction roots with
  | nil =>
      intro w ok _ _
      refine ⟨rfl, (MapFrame.refl w).metaFrame, rfl, rfl⟩
  | cons root rest ih =>
      intro w ok nodup members
      have single := List.nodup_cons.mp nodup
      unfold internalAllocFrom
      rw [wp_bind]
      apply wp_mono (onIntAlloc_wp ok (members root List.mem_cons_self) positive small)
      intro r w₁ post
      rcases post with ⟨arena, post⟩
      cases r with
      | some a =>
          rcases post with ⟨taken, ia, offset, update, tree⟩
          refine ⟨arena, taken, ?_, ?_⟩
          · intro r outside
            rw [update, Function.update_of_ne fun same : r = root => outside (same ▸ List.mem_cons_self)]
          · have others : treesOf (Function.update w.intAllocs root ia) rest =
                treesOf w.intAllocs rest := treesOf_update single.1
            unfold treesOf at others ⊢
            simp only [List.map_cons, firstFit, tree, update, Function.update_self, others]
      | none =>
          rcases post with ⟨frame, same, tree⟩
          have inside : ∀ r ∈ rest, r ∈ w₁.arena.internalAllocList := by
            intro r member
            rw [arena]
            exact members r (List.mem_cons_of_mem root member)
          apply wp_mono (ih w₁ (frame.ok ok) single.2 inside)
          intro r w₂ post
          rcases post with ⟨arena', post⟩
          refine ⟨arena'.trans arena, ?_⟩
          have first : firstFit (blockHeight size) (treesOf w.intAllocs (root :: rest)) =
              (firstFit (blockHeight size) (treesOf w₁.intAllocs rest)).map
                ((w.intAllocs root).tree :: ·) := by
            unfold treesOf
            rw [List.map_cons, firstFit, tree, same]
          cases r with
          | none =>
              rcases post with ⟨frame', same', full⟩
              refine ⟨frame.trans frame', same'.trans same, ?_⟩
              rw [first, full]
              rfl
          | some a =>
              rcases post with ⟨taken, others, fits⟩
              refine ⟨taken.earlier frame, ?_, ?_⟩
              · intro r outside
                rw [others r fun member => outside (List.mem_cons_of_mem root member), same]
              · rw [first, fits, Option.map_some, ← same, ← others root single.1]
                rfl

/-- A new internal mapping. -/
theorem addRoot_metaFrame {w' : World} {map : Nat} {ia : IntAlloc} (ok : RootsOk w)
    (frame : MapFrame w w') (fresh : FreshMap w w' ⟨map, alignupPage intAllocSizeof⟩)
    (valid : ia.Valid) :
    MetaFrame (fun _ => False) w ((w'.setIntAlloc map ia).setArena
      { w'.arena with internalAllocList := map :: w'.arena.internalAllocList }) := by
  have rounded := intAllocSizeof_le
  have header : intAllocHeaderBytes + internalAllocBuddyTreeSizeBytes ≤ intAllocSizeof :=
    Nat.le_add_right _ _
  have unmapped : ∀ x, map ≤ x → x < map + alignupPage intAllocSizeof → ¬ w.Mapped x :=
    fun x low high => fresh.before x ⟨low, high⟩
  have outside : ∀ root x, root ∈ w.arena.internalAllocList → root ≤ x →
      x < root + alignupPage intAllocSizeof → map ≤ x →
      x < map + alignupPage intAllocSizeof → False := by
    intro root x member low high low' high'
    exact unmapped x low' high' (ok.mapped x ⟨root, member, low, high⟩)
  have new : map ∉ w.arena.internalAllocList := by
    intro member
    have size : map < map + alignupPage intAllocSizeof := Nat.lt_add_of_pos_right fresh.len
    exact outside map map member (Nat.le_refl _) size (Nat.le_refl _) size
  have other : ∀ root ∈ w.arena.internalAllocList,
      (w'.setIntAlloc map ia).intAllocs root = w.intAllocs root := by
    intro root member
    have different : root ≠ map := fun same => new (same ▸ member)
    rw [setIntAlloc_other w' different, frame.intAllocs]
  have members : ∀ root ∈ map :: w'.arena.internalAllocList,
      root = map ∨ root ∈ w.arena.internalAllocList := by
    rw [frame.internalAllocList]
    exact fun root => List.mem_cons.mp
  refine ⟨frame.chunks, frame.runs, frame.huges, frame.chunkList, frame.hugeAllocList, frame.bins,
    frame.brk, frame.copies, frame.findings, frame.runChunk, frame.origin, frame.calls,
    frame.granted, ?_, ?_, ?_, ?_⟩
  · intro x mapped _
    have away : ¬ (map ≤ x ∧
        x < map + (intAllocHeaderBytes + internalAllocBuddyTreeSizeBytes)) := by
      intro inside
      exact unmapped x inside.1 (by omega) mapped
    exact (scribble_other away).trans (frame.memory x mapped)
  · intro _
    refine ⟨?_, ?_, ?_, ?_, ?_, ?_⟩
    · apply List.nodup_cons.mpr
      rw [frame.internalAllocList]
      exact ⟨new, ok.nodup⟩
    · intro root member
      rcases members root member with rfl | before
      · exact (setIntAlloc_same w').symm ▸ valid
      · have same := other root before
        exact same.symm ▸ ok.valid root before
    · intro root member
      rcases members root member with rfl | before
      · exact fresh.low
      · exact ok.bounds root before
    · intro root root' x member member' low high low' high'
      rcases members root member with rfl | before
      · rcases members root' member' with rfl | before'
        · rfl
        · exact (outside root' x before' low' high' low high).elim
      · rcases members root' member' with rfl | before'
        · exact (outside root x before low high low' high').elim
        · exact ok.unique root root' x before before' low high low' high'
    · intro x internal
      rcases internal with ⟨root, member, low, high⟩
      rcases members root member with rfl | before
      · exact fresh.after x ⟨low, high⟩
      · exact frame.mapped (ok.mapped x ⟨root, before, low, high⟩)
    · intro root member
      rcases members root member with rfl | before
      · exact fresh.aligned
      · exact ok.aligned root before
  · intro root member
    rcases members root member with rfl | before
    · exact Or.inr unmapped
    · exact Or.inl before
  · intro addr size _ placed
    apply placed.mono
    intro root member k block
    refine ⟨?_, ?_⟩
    · apply List.mem_cons_of_mem
      rw [frame.internalAllocList]
      exact member
    · have same := other root member
      exact same.symm ▸ block

/-- How the internal mappings change when a block of `size` bytes is taken: the first with room
gives it, or all are left as they were and a new one is made, which gives it. -/
def MetaTaken (w : World) (size : Nat) (w' : World) : Prop :=
  (w'.arena.internalAllocList = w.arena.internalAllocList ∧
    w.metaTake size = some (treesOf w'.intAllocs w'.arena.internalAllocList)) ∨
  (w.metaTake size = none ∧ ∃ map, w'.arena.internalAllocList = map :: w.arena.internalAllocList ∧
    (∀ root ∈ w.arena.internalAllocList, w'.intAllocs root = w.intAllocs root) ∧
    firstFit (blockHeight size) [.free] = some [(w'.intAllocs map).tree])

/-- A metadata block is taken from the first internal mapping with room; where none has, a new
one is made. -/
theorem arenaInternalAlloc_taken (size : Nat) {fuel : Nat} (ok : RootsOk w)
    (below : w.arena.brk < maxUserspaceAddr64) (positive : 1 ≤ size) (small : size ≤ 4194304)
    (loops : w.metaTake size = none → ends.fuel) :
    wp ends (arenaInternalAlloc env fuel size) (fun r w' => ∃ a, r = some a ∧ Taken w size a w' ∧
      MetaTaken w size w' ∧ (env.Fails w.mmapCalls → w.metaTake size ≠ none)) w := by
  unfold arenaInternalAlloc
  simp only [wp_bind, wp_get]
  apply wp_mono (internalAllocFrom_wp positive small w.arena.internalAllocList w ok ok.nodup
    fun _ => id)
  intro r w₁ post
  rcases post with ⟨arena, post⟩
  cases r with
  | some a =>
      rcases post with ⟨taken, -, fits⟩
      refine ⟨a, rfl, taken, Or.inl ?_, ?_⟩
      · rw [arena]
        exact ⟨rfl, fits⟩
      · intro _ none
        have impossible := fits.symm.trans none
        simp at impossible
  | none =>
      rcases post with ⟨frame, same, full⟩
      have full' : w.metaTake size = none := full
      simp only [wp_bind]
      apply wp_mono (arenaMorecore_wp (loops full') (resetPtrStart_resets env .internalAlloc)
        fuel (alignupPage intAllocSizeof) (fun _ => maxUserspaceAddr64) (frame.brk below))
      intro map w₂ got
      rcases got with ⟨mapped, fresh, working⟩
      apply wp_mono (skipMapping_wp .internalAlloc map (alignupPage intAllocSizeof))
      intro _ w₃ skipped
      simp only [wp_modify]
      have valid := internalAllocatorInit_valid ⟨0, fun _ => 0#8⟩
      have added := addRoot_metaFrame (frame.ok ok) (mapped.trans skipped) (fresh.mono skipped)
        valid.2
      have before := frame.trans added
      have member : map ∈ map :: w₃.arena.internalAllocList := List.mem_cons_self
      have list : w₃.arena.internalAllocList = w.arena.internalAllocList := by
        rw [skipped.internalAllocList, mapped.internalAllocList, arena]
      have trees : w₃.intAllocs = w.intAllocs := by
        rw [skipped.intAllocs, mapped.intAllocs, same]
      have single : map ∉ w.arena.internalAllocList := by
        rw [← list]
        exact (List.nodup_cons.mp (before.ok ok).nodup).1
      apply wp_mono (onIntAlloc_wp (before.ok ok) member positive small)
      intro r w₄ post
      rcases post with ⟨arena', post⟩
      have tree : ((w₃.setIntAlloc map (internalAllocatorInit ⟨0, fun _ => 0#8⟩)).intAllocs
          map).tree = .free := by
        rw [setIntAlloc_same]
        exact valid.1
      cases r with
      | none =>
          rcases post with ⟨-, -, impossible⟩
          have found : Buddy.alloc (blockHeight size) 18
            ((w₃.setIntAlloc map (internalAllocatorInit ⟨0, fun _ => 0#8⟩)).intAllocs map).tree =
              none := impossible
          rw [tree] at found
          simp [Buddy.alloc] at found
      | some a =>
          rcases post with ⟨taken, ia, offset, update, found⟩
          refine ⟨a, rfl, taken.earlier before, Or.inr ⟨full', map, ?_, ?_, ?_⟩, ?_⟩
          · rw [arena']
            exact congrArg (map :: ·) list
          · intro root member'
            have different : root ≠ map := fun is => single (is ▸ member')
            rw [update, Function.update_of_ne different]
            exact (setIntAlloc_other w₃ different).trans (congrFun trees root)
          · have first : Buddy.alloc (blockHeight size) 18 .free = some (offset, ia.tree) :=
              tree ▸ found
            rw [firstFit, first, update, Function.update_self]
          · intro fails
            exact absurd (fails.mono frame.calls) working

theorem arenaInternalAlloc_wp (size : Nat) {fuel : Nat} (ok : RootsOk w)
    (below : w.arena.brk < maxUserspaceAddr64) (positive : 1 ≤ size) (small : size ≤ 4194304)
    (loops : w.metaTake size = none → ends.fuel) :
    wp ends (arenaInternalAlloc env fuel size) (fun r w' => ∃ a, r = some a ∧ Taken w size a w' ∧
      (∀ trees, w.metaTake size = some trees →
        treesOf w'.intAllocs w'.arena.internalAllocList = trees) ∧
      (env.Fails w.mmapCalls → w.metaTake size ≠ none)) w := by
  apply wp_mono (arenaInternalAlloc_taken size ok below positive small loops)
  intro r w' post
  rcases post with ⟨a, found, taken, change, working⟩
  refine ⟨a, found, taken, ?_, working⟩
  intro trees some
  rcases change with ⟨-, fits⟩ | ⟨full, -⟩
  · exact Option.some.inj (fits.symm.trans some)
  · rw [full] at some
    simp at some

theorem intAllocSizeof_lt : intAllocSizeof < alignupPage intAllocSizeof := by
  decide

/-- A metadata block in use is given back to the mapping that it belongs to. -/
theorem arenaInternalFree_block (ok : RootsOk w) {root addr k : Nat}
    (member : root ∈ w.arena.internalAllocList)
    (block : (addr, k) ∈ (w.intAllocs root).blocks root) :
    ∃ ia, internalFree root addr (w.intAllocs root) = .ok () ia ∧
      arenaInternalFree addr w = .ok () (w.setIntAlloc root ia) ∧ ia.Valid ∧
      ((w.intAllocs root).blocks root).Perm ((addr, k) :: ia.blocks root) := by
  have bounds := IntAlloc.block_bounds block
  have found : w.arena.internalAllocList.find? (fun root => decide
      (intAllocMemory root ≤ addr ∧ addr ≤ intAllocMemory root + internalAllocChunkSizeBytes)) =
      some root := by
    have header : ∀ r, r ≤ intAllocMemory r := fun r => Nat.le_add_right _ _
    have filled := Nat.two_pow_pos k
    apply find?_unique member
    · apply decide_eq_true
      exact ⟨bounds.1, by omega⟩
    · intro other inside accepted
      have range := of_decide_eq_true accepted
      have whole := intAllocMemory_end other
      have whole' := intAllocMemory_end root
      have rounded := intAllocSizeof_lt
      have low := header other
      have low' := header root
      exact ok.unique other root addr inside member (by omega) (by omega) (by omega) (by omega)
  rcases internalFree_valid (ok.valid root member) block with ⟨ia, called, valid', blocks⟩
  refine ⟨ia, called, ?_, valid', blocks⟩
  unfold arenaInternalFree
  rw [bind_apply, get_apply]
  simp only
  rw [found]
  exact zoom_ok called

theorem arenaInternalFree_wp (ok : RootsOk w) {addr : Nat}
    (placed : Placed w.arena.internalAllocList w.intAllocs addr size) :
    wp ends (arenaInternalFree addr)
      (fun _ w' => MetaFrame (fun a => a = addr) w w' ∧ w'.history = w.history) w := by
  rcases placed with ⟨root, member, k, block, -⟩
  rcases arenaInternalFree_block ok member block with ⟨ia, -, run, valid', blocks⟩
  apply wp_of_ok run
  refine ⟨?_, rfl⟩
  apply setIntAlloc_metaFrame member valid'
  intro other k' different block'
  rcases List.mem_cons.mp (blocks.mem_iff.mp block') with same | kept
  · exact absurd (Prod.mk.inj same).1 different
  · exact kept

end Specs

end Sealloc
