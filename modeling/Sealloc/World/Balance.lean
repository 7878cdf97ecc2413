import Sealloc.Library.Trace
import Sealloc.World.Credits
import Sealloc.World.Refused

/-! What every call leaves on the books, and what follows for runs of the allocator: no metadata
is lost, the allocated regions are those that the program has, and what the allocator did not map
it leaves alone. -/

namespace Sealloc

open Library Chunk

/-- The pointer that a function returns. -/
def Hand.result (r : Option Nat) : Hand := ⟨∅, ∅, {p | r = some p}⟩

theorem Hand.result_none : Hand.result none = .empty := by
  simp [result, empty]

theorem Hand.result_some (p : Nat) : Hand.result (some p) = .ptr p := by
  have same : {q | some p = some q} = {p} := by
    ext q
    simp [eq_comm]
  unfold result ptr
  rw [same]

section User

variable {w : World} {g : Layout} {held : Hand} {ptr len size : Nat} {o : Origin}

theorem Inv.located_unalien (inv : Inv w g none) (located : Located w ptr o len) {x : Nat}
    (alien : x ∈ w.aliens) : ¬ (ptr ≤ x ∧ x < ptr + len) := by
  intro inside
  exact alien.2.1 (inv.owned_iff.mpr ⟨o.owner, inv.located_owner located inside.1 inside.2⟩)

/-- A copy into a region is not on the books. -/
theorem Inv.copyBytes_ledger {copy : Copy} (inv : Inv w g none) (located : Located w copy.dst o len)
    (fits : copy.len ≤ len) : Ledger held w held (w.copyBytes copy) := by
  refine .same rfl rfl rfl ?_
  intro x alien
  apply if_neg
  intro inside
  exact inv.located_unalien located alien ⟨inside.1, by omega⟩

/-- Neither are the bytes of a region that are cleared. -/
theorem Inv.clear_ledger (inv : Inv w g none) (located : Located w ptr o len)
    (fits : size ≤ len) :
    Ledger held w held { w with memory := scribble w.memory ptr size } := by
  refine .same rfl rfl rfl ?_
  intro x alien
  apply scribble_other
  intro inside
  exact inv.located_unalien located alien ⟨inside.1, by omega⟩

end User

section Calls

variable {w : World} {g : Layout} {env : Env} {fuel ptr len : Nat}

theorem seallocMalloc_ledger {size : Nat} (inv : Inv w g none) (stocked : Stocked w) :
    wlp (seallocMalloc env fuel size) (fun r w' => Ledger .empty w (.result r) w') w := by
  have request := requestSize_spec size
  have same : (if size = 0 then smallSizeMinRegion else size) = requestSize size := rfl
  unfold seallocMalloc
  simp only [same]
  by_cases huge : isSizeHuge (requestSize size)
  · rw [if_pos huge, wlp_bind]
    refine wlp_mono (arenaAllocateHugeMapping_ledger inv) ?_
    intro addr w' books
    rw [wlp_bind, wlp_get, wlp_pure, Hand.result_some]
    exact books
  · rcases binIndex_alignup request.1 huge with ⟨isClass, sized, -⟩
    rw [if_neg huge, wlp_bind]
    refine wlp_mono (allocateRegular_ledger inv stocked isClass fun _ => sized) ?_
    intro q w' books
    rw [wlp_pure, Hand.result_some]
    exact books

theorem seallocCalloc_ledger {nmemb size : Nat} (inv : Inv w g none) (stocked : Stocked w) :
    wlp (seallocCalloc env fuel nmemb size) (fun r w' => Ledger .empty w (.result r) w') w := by
  unfold seallocCalloc
  by_cases nothing : nmemb = 0 ∨ size = 0
  · rw [if_pos nothing, wlp_pure, Hand.result_none]
    exact .refl _ w
  · have word : u64 (nmemb * size) < 2 ^ 64 := Nat.mod_lt _ (by decide)
    rw [if_neg nothing, wlp_bind]
    refine wlp_mono (wlp_both (@seallocMalloc_wp mayEnd w g env fuel _ inv stocked word
      fun _ => trivial) (seallocMalloc_ledger inv stocked)) ?_
    intro r w₁ post
    rcases post with ⟨⟨q, rfl, malloced, -⟩, books⟩
    rcases malloced.inv with ⟨g₁, inv₁⟩
    rcases malloced.located with ⟨o, len, located, fits⟩
    simp only [wlp_bind, memset0, wlp_modify, wlp_pure]
    exact books.trans (inv₁.clear_ledger located fits)

theorem seallocFree_ledger {o : Origin} (inv : Inv w g none) (located : Located w ptr o len) :
    wlp (seallocFree env (some ptr)) (fun _ w' => Ledger .empty w .empty w') w := by
  unfold seallocFree
  rw [wlp_bind]
  refine wlp_of_ok (inv.locate located) ?_
  cases o with
  | regular chunk b run =>
      rcases located with ⟨region, rfl⟩
      exact seallocFreeWithMetadata_ledger inv region
  | huge huge =>
      rcases located with ⟨member, rfl, rfl⟩
      exact arenaDeallocateHugeMapping_ledger inv member

theorem reallocHuge_ledger {huge size : Nat} (inv : Inv w g none) (stocked : Stocked w)
    (member : huge ∈ w.arena.hugeAllocList) (word : size < 2 ^ 64) (pages : size % pageSize = 0) :
    wlp (reallocHuge env fuel huge size) (fun r w' => Ledger .empty w (.result r) w') w := by
  have old : Located w (w.huges huge).key (.huge huge) (w.huges huge).len := ⟨member, rfl, rfl⟩
  unfold reallocHuge
  by_cases isHuge : isSizeHuge size
  · rw [if_pos isHuge, wlp_bind]
    refine wlp_mono (arenaReallocateHugeMapping_ledger inv member isHuge pages) ?_
    intro _ w' books
    rw [wlp_bind, wlp_get, wlp_pure, Hand.result_some]
    exact books
  · rw [if_neg isHuge, wlp_bind]
    refine wlp_mono (wlp_both (@seallocMalloc_wp mayEnd w g env fuel size inv stocked word
      fun _ => trivial) (seallocMalloc_ledger inv stocked)) ?_
    intro r w₁ post
    rcases post with ⟨⟨q, rfl, malloced, -⟩, books⟩
    rcases malloced.inv with ⟨g₁, inv₁⟩
    rcases malloced.located with ⟨o, newLen, located, enough⟩
    have still := malloced.grows.keeps.located _ _ _ id old
    have copied := @Inv.copyBytes_ledger w₁ g₁ (.result (some q)) newLen o
      ⟨q, (w₁.huges huge).key, size⟩ inv₁ located enough
    have after := inv₁.copyBytes ⟨q, (w₁.huges huge).key, size⟩
    simp only [wlp_bind, wlp_get, memcpy, wlp_modify]
    refine wlp_mono (@arenaDeallocateHugeMapping_ledger _ _ env huge after still.1) ?_
    intro _ w' freed
    rw [wlp_pure]
    exact books.trans (copied.trans (freed.carry_quiet _))

/-- The bin that a region is reallocated from; of no bytes it is one that is in use. -/
theorem realloc_class {size : Nat} (sane : size = 0 → w.arena.bins 36 ≠ Bin.zero)
    (small : ¬ isSizeHuge size) : binIndex (alignupSize size) < 43 ∧
      (w.arena.bins (binIndex (alignupSize size)) = Bin.zero →
        alignupSize size = classSize (binIndex (alignupSize size))) := by
  by_cases nothing : size = 0
  · rw [nothing, alignupSize_zero.2]
    exact ⟨by decide, fun zero => absurd zero (sane nothing)⟩
  · rcases binIndex_alignup (Nat.pos_of_ne_zero nothing) small with ⟨isClass, sized, -⟩
    exact ⟨isClass, fun _ => sized⟩

/-- A reallocation that has returned did not divide by zero. -/
theorem Inv.realloc_sane {p size : Nat} {o : Origin} {r : Option Nat} {w' : World}
    (inv : Inv w g none) (located : Located w p o len)
    (run : seallocRealloc env fuel (some p) size w = .ok r w') :
    size = 0 → (∃ huge, o = .huge huge) ∨ w.arena.bins 36 ≠ Bin.zero := by
  rintro rfl
  by_contra neither
  rw [not_or, not_not] at neither
  cases o with
  | huge huge => exact neither.1 ⟨huge, rfl⟩
  | regular chunk b r =>
      rw [seallocRealloc_zero inv located neither.2] at run
      simp at run

theorem reallocRegular_ledger {chunk b run newSize : Nat} (inv : Inv w g none)
    (stocked : Stocked w) (located : Located w ptr (.regular chunk b run) len)
    (word : newSize < 2 ^ 64) (sane : newSize = 0 → w.arena.bins 36 ≠ Bin.zero) :
    wlp (reallocRegular env fuel chunk b run ptr newSize)
      (fun r w' => Ledger .empty w (.result r) w') w := by
  have length : len = classSize b := located.2
  have ready := inv.ready located.1.1
  have facts := classSize_facts b ready.isClass
  unfold reallocRegular
  simp only [wlp_bind, wlp_get]
  rw [ready.regSize, ← length]
  by_cases isHuge : isSizeHuge newSize
  · have large := alignupPage_huge isHuge word
    simp only [if_pos isHuge, wlp_bind]
    refine wlp_mono (wlp_both (@arenaAllocateHugeMapping_wp mayEnd w g env fuel _ inv
      (large.imp And.left And.left) (alignupPage_aligned newSize) trivial)
        (arenaAllocateHugeMapping_ledger inv)) ?_
    intro huge w₁ post
    rcases post with ⟨⟨made, positive, -⟩, books⟩
    rcases made.inv with ⟨g₁, inv₁⟩
    have still := made.grows.keeps.located ptr _ len id located
    have after := inv₁.copyBytes ⟨(w₁.huges huge).key, ptr, len⟩
    unfold isSizeHuge at isHuge
    have fits : len ≤ alignupPage newSize := by omega
    have copied := @Inv.copyBytes_ledger w₁ g₁ (.ptr (w₁.huges huge).key) _ _
      ⟨(w₁.huges huge).key, ptr, len⟩ inv₁ made.located fits
    simp only [wlp_get, memcpy, wlp_modify]
    refine wlp_mono (wlp_both (@seallocFreeWithMetadata_wp mayEnd _ _ env b chunk run ptr
      (exits_mayEnd env) after still.1) (seallocFreeWithMetadata_ledger after still.1)) ?_
    intro _ w' post
    rcases post with ⟨released, freed⟩
    have different : (w₁.huges huge).key ≠ ptr := by
      intro same
      exact made.new _ _ (same ▸ located)
    have found := released.keeps.located (w₁.huges huge).key (.huge huge) (alignupPage newSize)
      different made.located
    simp only [wlp_pure]
    rw [found.2.1, Hand.result_some]
    exact books.trans (copied.trans (freed.carry_quiet _))
  · have isClass := realloc_class sane isHuge
    simp only [if_neg isHuge, wlp_bind]
    refine wlp_mono (wlp_both (@allocateRegular_wp mayEnd w g env fuel newSize inv stocked
      isClass.1 isClass.2 fun _ => trivial)
        (allocateRegular_ledger inv stocked isClass.1 isClass.2)) ?_
    intro q w₁ post
    rcases post with ⟨⟨allocated, -⟩, books⟩
    rcases allocated.inv with ⟨g₁, inv₁⟩
    rcases allocated.located with ⟨chunk', run', found⟩
    have ready₁ := inv₁.ready found.1.1
    have still := allocated.grows.keeps.located ptr _ len id located
    simp only [wlp_get, memcpy, wlp_modify]
    rw [ready₁.regSize]
    generalize count : (if classSize (binIndex (alignupSize newSize)) > len then len
      else classSize (binIndex (alignupSize newSize))) = n
    have fits : n ≤ classSize (binIndex (alignupSize newSize)) := by
      rw [← count]
      split
      · omega
      · omega
    have copied := @Inv.copyBytes_ledger w₁ g₁ (.ptr q) _ _ ⟨q, ptr, n⟩ inv₁ found fits
    have after := inv₁.copyBytes ⟨q, ptr, n⟩
    refine wlp_mono (@seallocFreeWithMetadata_ledger _ _ env b chunk run ptr after still.1) ?_
    intro _ w' freed
    rw [wlp_pure, Hand.result_some]
    exact books.trans (copied.trans (freed.carry_quiet _))

theorem seallocRealloc_ledger {newSize : Nat} {o : Origin} (inv : Inv w g none)
    (stocked : Stocked w) (located : Located w ptr o len) (word : newSize < 2 ^ 64)
    (sane : newSize = 0 → (∃ huge, o = .huge huge) ∨ w.arena.bins 36 ≠ Bin.zero) :
    wlp (seallocRealloc env fuel (some ptr) newSize)
      (fun r w' => Ledger .empty w (.result r) w') w := by
  unfold seallocRealloc
  rw [wlp_bind]
  refine wlp_of_ok (inv.locate located) ?_
  cases o with
  | huge huge =>
      rcases located with ⟨member, rfl, rfl⟩
      exact reallocHuge_ledger inv stocked member (alignupPage_lt newSize)
        (alignupPage_aligned newSize)
  | regular chunk b run =>
      have nonzero := inv.region_regSize located.1
      have valid := (inv.validate_region located.1).mpr rfl
      simp only [Origin.metadata, wlp_bind, wlp_get, if_neg nonzero, if_neg valid]
      apply reallocRegular_ledger inv stocked located word
      intro nothing
      rcases sane nothing with ⟨huge, impossible⟩ | used
      · simp at impossible
      · exact used

/-- A call that has returned has put nothing on the books but what it returns. -/
theorem Call.run_ledger {call : Call} (inv : Inv w g none) (stocked : Stocked w)
    (words : call.Words) (located : ∀ p, call.old = some p → ∃ o len, Located w p o len) :
    wlp (call.run env fuel) (fun r w' => Ledger .empty w (.result r) w') w := by
  cases call with
  | malloc size => exact seallocMalloc_ledger inv stocked
  | calloc nmemb size => exact seallocCalloc_ledger inv stocked
  | realloc ptr newSize =>
      cases ptr with
      | none => exact seallocMalloc_ledger inv stocked
      | some p =>
          rcases located p rfl with ⟨o, len, found⟩
          intro r w' run
          exact seallocRealloc_ledger inv stocked found words (inv.realloc_sane found run) r w' run
  | free ptr =>
      unfold Call.run
      rw [wlp_bind]
      cases ptr with
      | none =>
          refine wlp_of_ok rfl ((wlp_pure _).mpr ?_)
          rw [Hand.result_none]
          exact .refl _ w
      | some p =>
          rcases located p rfl with ⟨o, len, found⟩
          refine wlp_mono (seallocFree_ledger inv found) ?_
          intro _ w₁ books
          rw [wlp_pure, Hand.result_none]
          exact books

theorem Call.free_returns {ptr : Option Nat} :
    wlp (Call.run env fuel (.free ptr)) (fun r _ => r = none) w := by
  unfold Call.run
  rw [wlp_bind]
  exact fun _ _ _ => (wlp_pure _).mpr rfl

end Calls

/-- What a program does: it calls the allocator and gets a result, or it writes to memory. -/
inductive Event where
  | call (call : Call) (result : Option Nat)
  | write (memory : Nat → Byte)

/-- A step of a run, in which calls are answered as `rule` allows and the program writes only to
the regions that it has. -/
inductive Session.Step (rule : Env → Prop) : Event → Session → Session → Prop
  | call {s : Session} {env : Env} {fuel : Nat} {call : Call} {result : Option Nat} {w : World}
      (legal : call.Legal s) (kept : rule env)
      (run : call.run env fuel s.world = .ok result w) :
      Step rule (.call call result) s (s.after call result w)
  | write {s : Session} {memory : Nat → Byte}
      (inside : ∀ x, memory x ≠ s.world.memory x → ∃ region ∈ s.live, region.Holds x) :
      Step rule (.write memory) s { s with world := { s.world with memory := memory } }

section Runs

variable {rule : Env → Session → Call → Session → Prop} {answers : Env → Prop} {event : Event}
  {s t : Session}

theorem Session.Step.reach (step : Session.Step answers event s t) (reach : Reach anyCalls s) :
    Reach anyCalls t := by
  cases step with
  | call legal _ run => exact .call reach legal trivial run
  | write inside => exact .write reach inside

theorem exec_steps {env : Env} {fuel : Nat} {calls : List Call} (kept : answers env) :
    ∀ {s t : Session}, s.exec env fuel calls = some t →
      ∃ events, Trace (Session.Step answers) events s t ∧
        ∀ event ∈ events, ∃ call ∈ calls, ∃ result, event = .call call result := by
  induction calls with
  | nil =>
      intro s t run
      rw [Option.some.inj run.symm]
      exact ⟨[], .nil s, fun _ member => absurd member List.not_mem_nil⟩
  | cons call rest ih =>
      intro s t run
      unfold Session.exec at run
      by_cases legal : call.Legal s
      · rw [if_pos legal] at run
        cases outcome : call.run env fuel s.world with
        | ok result w =>
            rw [outcome] at run
            rcases ih run with ⟨events, steps, made⟩
            refine ⟨.call call result :: events, .cons (.call legal kept outcome) steps, ?_⟩
            intro event member
            rcases List.mem_cons.mp member with rfl | later
            · exact ⟨call, List.mem_cons_self, result, rfl⟩
            · rcases made event later with ⟨c, listed, answer⟩
              exact ⟨c, List.mem_cons_of_mem call listed, answer⟩
        | abort w => simp [outcome] at run
        | exit w => simp [outcome] at run
        | crash w => simp [outcome] at run
        | fuel => simp [outcome] at run
      · rw [if_neg legal] at run
        simp at run

theorem play_steps {env : Env} {fuel brk : Nat} {calls : List Call} (kept : answers env)
    (run : Session.play env fuel brk calls = some s) :
    ∃ w events, arenaInit env brk World.blank = .ok () w ∧
      Trace (Session.Step answers) events ⟨w, [], []⟩ s := by
  unfold Session.play at run
  cases init : arenaInit env brk World.blank with
  | ok value w =>
      rw [init] at run
      rcases exec_steps kept run with ⟨events, steps, -⟩
      exact ⟨w, events, rfl, steps⟩
  | abort w => simp [init] at run
  | exit w => simp [init] at run
  | crash w => simp [init] at run
  | fuel => simp [init] at run

/-- What a legal call that has returned leaves on the books. -/
theorem Session.Inv.ledger {env : Env} {fuel : Nat} {call : Call} {result : Option Nat} {w : World}
    (inv : s.Inv) (legal : call.Legal s) (run : call.run env fuel s.world = .ok result w) :
    Ledger .empty s.world (.result result) w := by
  rcases inv.inv with ⟨g, world⟩
  have args := inv.legal legal
  exact Call.run_ledger world inv.stocked args.1 args.2 result w run

/-- In every state of a run no metadata block is lost, and what is allocated is the program's. -/
theorem Reach.books (reach : Reach rule s) :
    s.world.strays = ∅ ∧ s.world.starts ⊆ {p | ∃ region ∈ s.live, region.ptr = p} := by
  induction reach with
  | @init env w₀ w brk granted findings below call =>
      rcases wp_ok (@arenaInit_frame w₀ mayEnd env brk below) call with ⟨w₁, frame, rfl⟩
      have roots : w₁.arena.internalAllocList = [] := frame.internalAllocList
      have huges : w₁.arena.hugeAllocList = [] := frame.hugeAllocList
      constructor
      · apply Set.eq_empty_of_forall_notMem
        intro a stray
        rcases stray.1 with ⟨root, member, -⟩
        have listed : root ∈ w₁.arena.internalAllocList := member
        rw [roots] at listed
        exact absurd listed List.not_mem_nil
      · intro p start
        rcases start with ⟨o, n, located⟩
        cases o with
        | regular chunk b run =>
            have none := @entries_zero (w₁.setArena { w₁.arena with bins := fun _ => Bin.zero }) b rfl
            have listed := located.1.1
            rw [none] at listed
            exact absurd listed List.not_mem_nil
        | huge huge =>
            have listed : huge ∈ w₁.arena.hugeAllocList := located.1
            rw [huges] at listed
            exact absurd listed List.not_mem_nil
  | @call s env fuel call result w before legal kept run ih =>
      have ledger := before.inv.ledger legal run
      have answered := before.inv.answered legal run
      constructor
      · apply Set.eq_empty_of_subset_empty
        rw [← ih.1]
        exact ledger.blocks.settled
      · intro p start
        by_cases returned : result = some p
        · refine ⟨⟨p, call.request, w.regionLen p⟩, ?_, rfl⟩
          apply List.mem_append_left
          rw [returned]
          exact List.mem_singleton.mpr rfl
        · rcases ih.2 (ledger.ptrs ⟨start, returned⟩).1 with ⟨region, member, rfl⟩
          refine ⟨region, List.mem_append_right _ (List.mem_filter.mpr ⟨member, ?_⟩), rfl⟩
          -- what is lost is not allocated any more
          apply decide_eq_true
          intro lost
          rcases start with ⟨o, n, located⟩
          exact (answered.gone region.ptr lost).1 o n located
  | write before inside ih => exact ih

theorem Session.Step.aliens (step : Session.Step answers event s t) (reach : Reach anyCalls s) :
    t.world.aliens = s.world.aliens ∧
      ∀ x ∈ s.world.aliens, t.world.memory x = s.world.memory x := by
  cases step with
  | call legal _ run =>
      have ledger := reach.inv.ledger legal run
      refine ⟨Set.Subset.antisymm ledger.bytes.settled ?_, ?_⟩
      · exact fun x alien => (ledger.kept x ⟨alien, id⟩).1.1
      · exact fun x alien => (ledger.kept x ⟨alien, id⟩).2
  | write inside =>
      refine ⟨rfl, ?_⟩
      intro x alien
      by_contra changed
      rcases inside x changed with ⟨region, member, holds⟩
      rcases reach.inv.inv with ⟨g, world⟩
      rcases reach.inv.located region member with ⟨o, located⟩
      exact world.located_unalien located alien holds

end Runs

section Start

variable {w w₀ : World} {env : Env}

theorem arenaInit_brings (brk : Nat) : Steps (Brings ∅) (arenaInit env brk) := by
  unfold arenaInit
  refine .bind (.modify fun w => setArena_brings w _) fun _ => .bind
    (quiet_brings resetChunkPtrStart_quiet) fun _ => .bind (quiet_brings (resetPtrStart_quiet _))
      fun _ => .bind (quiet_brings (resetPtrStart_quiet _)) fun _ =>
        .modify fun w => setArena_brings w _

/-- An arena with empty lists owns nothing. -/
theorem Brings.start_aliens (brings : Brings ∅ w₀ w) (roots : w.arena.internalAllocList = [])
    (chunks : w.arena.chunkList = []) (huges : w.arena.hugeAllocList = []) :
    w.aliens = {x | w₀.Mapped x ∧ ¬ w₀.Forgotten x} := by
  ext x
  have unowned : ¬ w.Owned x := by
    intro owned
    unfold World.Owned Internal at owned
    rw [roots, chunks, huges] at owned
    simp at owned
  constructor
  · intro alien
    rcases alien with ⟨mapped, -, known⟩
    refine ⟨?_, fun zero => known (brings.forgotten x zero)⟩
    rcases brings.mapped x mapped with before | impossible | zero
    · exact before
    · exact absurd impossible id
    · exact absurd zero known
  · intro before
    refine ⟨brings.still x before.1, unowned, ?_⟩
    intro zero
    rcases brings.zero x zero with forgotten | unmapped
    · exact before.2 forgotten
    · exact unmapped before.1

end Start

section Balance

variable {s : Session}

/-- The metadata blocks in use are the entries of the lists, each of one list. -/
theorem metadata_listed (reach : Reach anyCalls s) (a : Nat) :
    Placed s.world.arena.internalAllocList s.world.intAllocs a 0 ↔
      ∃! kind, a ∈ s.world.arena.entries kind := by
  rcases reach.inv.inv with ⟨g, world⟩
  constructor
  · intro block
    have listed : ∃ kind, a ∈ s.world.arena.entries kind := by
      by_contra unlisted
      have stray : a ∈ s.world.strays := ⟨block, fun kind member => unlisted ⟨kind, member⟩⟩
      rw [reach.books.1] at stray
      exact stray
    rcases listed with ⟨kind, member⟩
    refine ⟨kind, member, ?_⟩
    exact fun other member' => world.blocks.single other kind a member' member
  · intro listed
    rcases listed.exists with ⟨kind, member⟩
    exact (world.blocks.placed kind a member).some

/-- A region, a huge mapping and the metadata of both. -/
theorem metadata_listed_two : ∃ s, Reach anyCalls s ∧ s.live.length = 2 ∧
    ∀ a, Placed s.world.arena.internalAllocList s.world.intAllocs a 0 ↔
      ∃! kind, a ∈ s.world.arena.entries kind := by
  have played : (Session.play (.willing fun n => (n + 1) * 2 ^ 44) 3 (2 ^ 45)
      [.malloc 16, .malloc (2 ^ 21)]).map (fun s => s.live.length) = some 2 := by decide +kernel
  rcases Option.map_eq_some_iff.mp played with ⟨s, run, two⟩
  have reach : Reach anyCalls s := play_reach (fun _ _ _ _ => trivial) (by decide) run
  exact ⟨s, reach, two, metadata_listed reach⟩

theorem Reach.located_live {p n : Nat} {o : Origin} (reach : Reach rule s)
    (located : Located s.world p o n) : ∃ region ∈ s.live, region.ptr = p ∧ region.len = n := by
  rcases reach.inv.inv with ⟨g, world⟩
  rcases reach.books.2 ⟨o, n, located⟩ with ⟨region, member, rfl⟩
  rcases reach.inv.located region member with ⟨o', located'⟩
  exact ⟨region, member, rfl, (world.located_unique located located').2.symm⟩

/-- What is allocated is what the program has. -/
theorem allocated_live (reach : Reach anyCalls s) (p n : Nat) :
    (∃ o, Located s.world p o n) ↔ ∃ region ∈ s.live, region.ptr = p ∧ region.len = n := by
  constructor
  · intro found
    rcases found with ⟨o, located⟩
    exact reach.located_live located
  · intro live
    rcases live with ⟨region, member, rfl, rfl⟩
    exact reach.inv.located region member

/-- A region that was freed and one that was not. -/
theorem allocated_live_two : ∃ s, Reach anyCalls s ∧ s.live.length = 1 ∧ s.dead.length = 1 ∧
    ∀ p n, (∃ o, Located s.world p o n) ↔ ∃ region ∈ s.live, region.ptr = p ∧ region.len = n := by
  have played : (Session.play (.willing fun n => (n + 1) * 2 ^ 44) 3 (2 ^ 45)
      [.malloc (2 ^ 21), .malloc 16, .free (some (2 ^ 46))]).map (fun s =>
        (s.live.length, s.dead.length)) = some (1, 1) := by decide +kernel
  rcases Option.map_eq_some_iff.mp played with ⟨s, run, both⟩
  rw [Prod.mk.injEq] at both
  have reach : Reach anyCalls s := play_reach (fun _ _ _ _ => trivial) (by decide) run
  exact ⟨s, reach, both.1, both.2, allocated_live reach⟩

/-- Of all addresses `sealloc_free` refuses, and changes nothing, those that are no region of the
program's, but for a tail that reads as an allocated region; `sealloc_realloc` refuses these too. -/
theorem free_aborts_iff (reach : Reach anyCalls s) (env : Env) (ptr : Nat) :
    (seallocFree env (some ptr) s.world = .abort s.world ↔
      (∀ region ∈ s.live, region.ptr ≠ ptr) ∧ ¬ StaleTail s.world ptr) ∧
    ((∀ region ∈ s.live, region.ptr ≠ ptr) ∧ ¬ StaleTail s.world ptr →
      ∀ fuel newSize, seallocRealloc env fuel (some ptr) newSize s.world = .abort s.world) := by
  rcases reach.inv.inv with ⟨g, world⟩
  have unknown : (¬ ∃ o n, Located s.world ptr o n) ↔ ∀ region ∈ s.live, region.ptr ≠ ptr := by
    constructor
    · intro nothing region member same
      rcases reach.inv.located region member with ⟨o, located⟩
      exact nothing ⟨o, region.len, same ▸ located⟩
    · intro foreign found
      rcases reach.books.2 found with ⟨region, member, same⟩
      exact foreign region member same
  have refused : ¬ Accepted s.world ptr ↔
      (∀ region ∈ s.live, region.ptr ≠ ptr) ∧ ¬ StaleTail s.world ptr := by
    unfold Accepted
    rw [not_or, unknown]
  rw [← refused]
  exact @Inv.free_refuses s.world g ptr env world

/-- The tail of the run of a region of 80 bytes whose block held ones before. -/
theorem free_aborts_tail : ∃ s env, Reach anyCalls s ∧ StaleTail s.world 9469888 ∧
    (seallocFree env (some 9469888) s.world = .abort s.world ↔
      (∀ region ∈ s.live, region.ptr ≠ 9469888) ∧ ¬ StaleTail s.world 9469888) := by
  let env : Env := { Env.willing fun n => (n + 1) * 2 ^ 44 with
    rand32 := fun n => 2 ^ 20 + 513 * n
    staleRun := fun _ => { World.blank.runs 0 with regBitmap := fun _ => 1#8 } }
  have played : (Session.play env 3 (2 ^ 45) [.malloc 80]).map (fun s =>
      (decide (52776558297120 ∈ s.world.arena.entries (.run 4)),
        (s.world.runs 52776558297120).key, (s.world.runs 52776558297120).state 204)) =
          some (true, 9453568, .alloc) := by decide +kernel
  rcases Option.map_eq_some_iff.mp played with ⟨s, run, all⟩
  simp only [Prod.mk.injEq, decide_eq_true_eq] at all
  rcases all with ⟨member, key, state⟩
  have reach : Reach anyCalls s := play_reach (fun _ _ _ _ => trivial) (by decide) run
  refine ⟨s, env, reach, ⟨4, _, member, by decide, ?_, state⟩, (free_aborts_iff reach env _).1⟩
  rw [key]
  rfl

/-- The bytes that are mapped and that the allocator has no use for are, in the course of any run,
those that were mapped before it started, and it never writes to them; only a range that was
granted at address zero is lost to it. -/
theorem foreign_kept {answers : Env → Prop} {events : List Event} {env : Env} {brk : Nat}
    {w₀ w : World}
    (granted : w₀.history.granted = w₀.maps) (findings : w₀.history.findings = [])
    (below : brk < maxUserspaceAddr64) (init : arenaInit env brk w₀ = .ok () w)
    (steps : Trace (Session.Step answers) events ⟨w, [], []⟩ s) :
    s.world.aliens = {x | w₀.Mapped x ∧ ¬ w₀.Forgotten x} ∧
      ∀ x ∈ s.world.aliens, s.world.memory x = w₀.memory x := by
  have run : Reach anyCalls s ∧ s.world.aliens = w.aliens ∧
      ∀ x ∈ w.aliens, s.world.memory x = w.memory x := by
    refine @Trace.invariant _ _ _ _ _ _ (fun t => Reach anyCalls t ∧ t.world.aliens = w.aliens ∧
      ∀ x ∈ w.aliens, t.world.memory x = w.memory x) steps ?_
        ⟨.init granted findings below init, rfl, fun _ _ => rfl⟩
    intro event _ s t before step
    rcases before with ⟨reach, same, memory⟩
    have next := step.aliens reach
    refine ⟨step.reach reach, next.1.trans same, ?_⟩
    intro x alien
    rw [next.2 x (same ▸ alien)]
    exact memory x alien
  have start := wlp_both (@arenaInit_frame w₀ mayEnd env brk below) (arenaInit_brings brk w₀) () w init
  rcases start with ⟨⟨w₁, frame, rfl⟩, brings⟩
  have aliens := brings.start_aliens frame.internalAllocList frame.chunkList frame.hugeAllocList
  have internal : ∀ x, ¬ Internal [] x := by
    intro x inside
    rcases inside with ⟨root, member, -⟩
    exact absurd member List.not_mem_nil
  rw [run.2.1, aliens]
  refine ⟨rfl, ?_⟩
  intro x known
  rw [run.2.2 x (aliens ▸ known)]
  exact frame.metaFrame.memory x known.1 (internal x)

/-- A huge mapping is made and unmapped in a process that has a page. -/
theorem foreign_kept_page : ∃ (w₀ : World) (s : Session), s.dead.length = 1 ∧
    s.world.aliens = {x | w₀.Mapped x ∧ ¬ w₀.Forgotten x} ∧
      ∀ x ∈ s.world.aliens, s.world.memory x = w₀.memory x := by
  have played : (arenaInit (.willing fun n => (n + 1) * 2 ^ 44) (2 ^ 45)
      (World.blank.addMap ⟨2 ^ 40, 4096⟩)).returns fun _ w =>
        (Session.exec (.willing fun n => (n + 1) * 2 ^ 44) 3
          [.malloc (2 ^ 21), .free (some (2 ^ 46))] ⟨w, [], []⟩).map (fun s => s.dead.length) =
            some 1 := by decide +kernel
  rcases Outcome.of_returns played with ⟨value, w, init, freed⟩
  rcases Option.map_eq_some_iff.mp (of_decide_eq_true freed) with ⟨s, run, one⟩
  rcases @exec_steps (fun _ => True) _ _ _ trivial _ _ run with ⟨events, steps, -⟩
  exact ⟨_, s, one, foreign_kept rfl rfl (by decide) init steps⟩

end Balance

end Sealloc
