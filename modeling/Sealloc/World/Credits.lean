import Sealloc.World.Debits
import Sealloc.World.Granted

/-! The books while huge mappings are made, moved and unmapped, and while regions are freed: the
pages and the metadata blocks that are given back are on the books no more. -/

namespace Sealloc

open Library Chunk

section Huge

variable {w w' : World} {g : Layout} {env : Env} {huge n : Nat} {value : HugeChunk}

/-- A new huge mapping takes its block and its pages out of hand. -/
theorem HugeAdded.ledger (added : HugeAdded w huge value w')
    (unused : huge ∉ w.arena.hugeAllocList) (memory : ∀ x ∈ w.aliens, w'.memory x = w.memory x) :
    Ledger ⟨{huge}, {x | Span.Holds ⟨value.key, value.len⟩ x}, ∅⟩ w (.ptr value.key) w' := by
  have others : ∀ h ∈ w.arena.hugeAllocList, w'.huges h = w.huges h := by
    intro h member
    rw [added.huges]
    apply Function.update_of_ne
    intro same
    rw [same] at member
    exact unused member
  refine .settle ?_ ?_ rfl ?_ fun x alien _ => memory x alien
  · have list : w'.arena.entries .huge = huge :: w.arena.entries .huge := added.list
    apply strays_enter added.change.internalAllocList added.change.intAllocs
    · intro kind b listed
      by_cases isHuge : kind = .huge
      · rw [isHuge] at listed ⊢
        rw [list]
        exact List.mem_cons_of_mem huge listed
      · rw [added.change.entries isHuge]
        exact listed
    · refine ⟨.huge, ?_⟩
      rw [list]
      exact List.mem_cons_self
  · apply Accounts.take
    intro p start
    rcases start with ⟨o, m, located⟩
    rcases (added.located unused).mp located with ⟨-, same, -⟩ | before
    · exact Or.inr same.symm
    · exact Or.inl ⟨o, m, before⟩
  · apply @aliens_change w w' ∅ _ added.change.granted
    · intro x
      unfold World.Mapped
      rw [added.maps]
      simp
    · intro x
      have listed : (∃ h ∈ huge :: w.arena.hugeAllocList, (w'.huges h).key ≤ x ∧
          x < (w'.huges h).key + (w'.huges h).len) ↔ Span.Holds ⟨value.key, value.len⟩ x ∨
            ∃ h ∈ w.arena.hugeAllocList, (w.huges h).key ≤ x ∧
              x < (w.huges h).key + (w.huges h).len := by
        rw [List.exists_mem_cons_iff, added.huges, Function.update_self, ← added.huges]
        apply or_congr_right
        apply exists_congr
        intro h
        apply and_congr_right
        intro member
        rw [others h member]
      unfold World.Owned
      rw [added.change.internalAllocList, added.change.chunkList, added.change.chunks, added.list,
        listed]
      simp only [Set.mem_empty_iff_false, not_false_iff, and_true, Set.mem_ofPred_eq]
      constructor
      · rintro (internal | chunk | here | other)
        · exact Or.inl (Or.inl internal)
        · exact Or.inl (Or.inr (Or.inl chunk))
        · exact Or.inr here
        · exact Or.inl (Or.inr (Or.inr other))
      · rintro ((internal | chunk | other) | here)
        · exact Or.inl internal
        · exact Or.inr (Or.inl chunk)
        · exact Or.inr (Or.inr (Or.inr other))
        · exact Or.inr (Or.inr (Or.inl here))
    · exact fun x impossible => impossible.elim

theorem arenaAllocateHugeMapping_ledger {fuel len : Nat} (inv : Inv w g none) :
    wlp (arenaAllocateHugeMapping env fuel len)
      (fun huge w' => Ledger .empty w (.ptr (w'.huges huge).key) w') w := by
  unfold arenaAllocateHugeMapping
  rw [wlp_bind]
  refine wlp_mono (arenaInternalAlloc_ledger hugeChunkSizeof inv.rootsOk inv.brk (by decide)
    (by decide)) ?_
  intro r w₁ post
  rcases post with ⟨huge, rfl, taken, block⟩
  have inv₁ := inv.metaFrame taken.frame fun _ _ _ => id
  simp only
  rw [wlp_bind]
  have spec := @arenaMorecore_wp mayEnd w₁ env trivial .hugeAlloc (resetPtrStart env .hugeAlloc)
    (resetPtrStart_resets env .hugeAlloc) fuel len (fun _ => maxUserspaceAddr64) inv₁.brk
  refine wlp_mono (wlp_both spec (arenaMorecoreLoop_brings (resetPtrStart_quiet _) fuel
    len (fun _ => maxUserspaceAddr64) fuel w₁)) ?_
  intro map w₂ post
  rcases post with ⟨⟨mapped, fresh, -⟩, brings⟩
  have unused : ∀ kind, huge ∉ w₂.arena.entries kind := by
    rw [(taken.frame.trans mapped.metaFrame).entries.1]
    exact inv.blocks.unused taken.fresh
  have placed : Placed w₂.arena.internalAllocList w₂.intAllocs huge hugeChunkSizeof := by
    rw [mapped.internalAllocList, mapped.intAllocs]
    exact taken.placed
  have range := block.trans ((mapped.ledger fresh brings).carry (.block huge))
  rw [Hand.range_add_block] at range
  simp only [wlp_bind, wlp_modify]
  refine wlp_mono (wlp_of_wp (@skipMapping_probe mayEnd _ .hugeAlloc map
    (u64 (len + pageSize)))) ?_
  intro _ w₃ skipped
  rcases skipped with ⟨addr, rfl⟩
  simp only [setOrigin, wlp_modify, wlp_pure]
  generalize made : World.record _ _ = w₄
  have added : HugeAdded w₂ huge ⟨map, len⟩ w₄ := by
    rw [← made]
    refine ⟨⟨rfl, rfl, rfl, rfl, rfl, rfl, rfl, rfl, rfl, rfl⟩, rfl, rfl, rfl, rfl⟩
  rw [added.huges, Function.update_self]
  refine range.trans (added.ledger (unused .huge) ?_)
  intro x alien
  rw [← made]
  exact scribble_other (aliens_apart alien placed)

theorem movedHuge_entries (kind : Kind) :
    (w.movedHuge huge n value).arena.entries kind = w.arena.entries kind := by
  rw [movedHuge_arena]

theorem movedHuge_owned (inv : Inv w g none) (member : huge ∈ w.arena.hugeAllocList)
    (place : HugePlace value)
    (mapped : ∀ x, value.key ≤ x → x < value.key + value.len → w.Mapped x)
    (unowned : ∀ o x, value.key ≤ x → x < value.key + value.len → ¬ Owns w g o x) (x : Nat) :
    (w.movedHuge huge n value).Owned x ↔
      (w.Owned x ∧ ¬ ((w.huges huge).key ≤ x ∧ x < (w.huges huge).key + (w.huges huge).len)) ∨
        (value.key ≤ x ∧ x < value.key + value.len) := by
  have moved := @Inv.moveHuge w g huge n value inv member place mapped unowned
  rw [inv.owned_iff, moved.owned_iff]
  constructor
  · intro owned
    rcases owned with ⟨o, owns⟩
    rcases movedHuge_owns owns with ⟨-, inside⟩ | ⟨before, other⟩
    · exact Or.inr inside
    · left
      refine ⟨⟨o, before⟩, ?_⟩
      intro inside
      exact other (inv.owner o (.huge huge) x before ⟨member, inside⟩)
  · rintro (⟨⟨o, owns⟩, outside⟩ | inside)
    · refine ⟨o, ?_⟩
      cases o with
      | internal root => exact (movedHuge_change.owns (by simp) x).mpr owns
      | chunk chunk => exact (movedHuge_change.owns (by simp) x).mpr owns
      | huge other =>
          have different : other ≠ huge := by
            intro same
            rw [same] at owns
            exact outside owns.2
          refine ⟨owns.1, ?_⟩
          rw [movedHuge_other different]
          exact owns.2
    · refine ⟨.huge huge, member, ?_⟩
      rw [movedHuge_same]
      exact inside

/-- A mapping that has moved: its new pages are out of hand, its old ones are unmapped. -/
theorem movedHuge_ledger (inv : Inv w g none) (member : huge ∈ w.arena.hugeAllocList)
    (place : HugePlace value) (short : n ≤ value.len)
    (mapped : ∀ x, value.key ≤ x → x < value.key + value.len → w.Mapped x)
    (unowned : ∀ o x, value.key ≤ x → x < value.key + value.len → ¬ Owns w g o x) :
    Ledger (.range ⟨value.key, value.len⟩) w (.ptr value.key) (w.movedHuge huge n value) := by
  have placed := inv.blocks.placed .huge huge member
  refine .settle ?_ ?_ rfl ?_ ?_
  · apply Accounts.same
    unfold World.strays
    simp only [movedHuge_change.intAllocs, movedHuge_arena]
  · apply Accounts.take
    intro p start
    rcases start with ⟨o, m, located⟩
    rcases (movedHuge_located member).mp located with ⟨-, same, -⟩ | ⟨before, -⟩
    · exact Or.inr same.symm
    · exact Or.inl ⟨o, m, before⟩
  · exact @aliens_change w (w.movedHuge huge n value)
      {x | (w.huges huge).key ≤ x ∧ x < (w.huges huge).key + (w.huges huge).len} _ rfl
      movedHuge_mapped (movedHuge_owned inv member place mapped unowned)
      fun x inside => Or.inr (Or.inr ⟨huge, member, inside⟩)
  · intro x alien outside
    have apart : ¬ (huge ≤ x ∧ x < huge + hugeChunkSizeof) := aliens_apart alien placed
    have scribbled : (w.movedHuge huge n value).memory x =
        (w.copyBytes ⟨value.key, (w.huges huge).key, n⟩).memory x := scribble_other apart
    rw [scribbled]
    apply if_neg
    intro inside
    have inDst : value.key ≤ x ∧ x < value.key + n := inside
    have below : x < value.key + value.len := by omega
    exact outside ⟨inDst.1, below⟩

theorem arenaReallocateHugeMapping_ledger {fuel newSize : Nat} (inv : Inv w g none)
    (member : huge ∈ w.arena.hugeAllocList) (large : largeSizeMaxRegion < newSize)
    (pages : newSize % pageSize = 0) :
    wlp (arenaReallocateHugeMapping env fuel huge newSize)
      (fun _ w' => Ledger .empty w (.ptr (w'.huges huge).key) w') w := by
  unfold arenaReallocateHugeMapping
  rw [wlp_bind]
  have spec := @arenaMorecore_wp mayEnd w env trivial .hugeAlloc (resetPtrStart env .hugeAlloc)
    (resetPtrStart_resets env .hugeAlloc) fuel newSize (fun _ => maxUserspaceAddr64) inv.brk
  refine wlp_mono (wlp_both spec (arenaMorecoreLoop_brings (resetPtrStart_quiet _) fuel
    newSize (fun _ => maxUserspaceAddr64) fuel w)) ?_
  intro map w₁ post
  rcases post with ⟨⟨mapped, fresh, -⟩, brings⟩
  rw [wlp_bind]
  refine wlp_mono (wlp_both (@skipMapping_wp mayEnd w₁ .hugeAlloc map (u64 (newSize + pageSize)))
    (quiet_brings (skipMapping_quiet .hugeAlloc map (u64 (newSize + pageSize))) w₁)) ?_
  intro _ w₂ post
  rcases post with ⟨skipped, nothing⟩
  have frame := mapped.trans skipped
  have fresh₂ := fresh.mono skipped
  have inv₂ := inv.metaFrame frame.metaFrame fun _ _ _ => id
  have unowned := fun o x low high => inv.unowned frame fresh₂ o x ⟨low, high⟩
  have listed : huge ∈ w₂.arena.hugeAllocList := by
    rw [frame.hugeAllocList]
    exact member
  have newPlace : HugePlace ⟨map, newSize⟩ :=
    ⟨fresh.aligned, fresh.start, large, pages, fresh.low⟩
  have range := (mapped.ledger fresh brings).trans ((skipped.ledger_quiet nothing).carry_quiet _)
  simp only [wlp_bind, wlp_get, memcpy, wlp_modify]
  refine wlp_mono (platformUnmap_unmaps _ _ _) ?_
  intro _ w₃ unmapped
  rw [unmapped]
  simp only [wlp_modify, setOrigin]
  generalize count : (if (w₂.huges huge).len > newSize then newSize else (w₂.huges huge).len) = n
  have bound : n ≤ newSize := by
    rw [← count]
    split
    · omega
    · omega
  have moved := @movedHuge_ledger w₂ g huge n ⟨map, newSize⟩ inv₂ listed newPlace bound
    (fun x low high => fresh₂.after x ⟨low, high⟩) unowned
  have key : ((w₂.movedHuge huge n ⟨map, newSize⟩).huges huge).key = map := by rw [movedHuge_same]
  have total : Ledger .empty w (.ptr ((w₂.movedHuge huge n ⟨map, newSize⟩).huges huge).key)
      (w₂.movedHuge huge n ⟨map, newSize⟩) := by
    rw [key]
    exact range.trans moved
  exact total

theorem withoutHuge_owned (inv : Inv w g none) (member : huge ∈ w.arena.hugeAllocList) (x : Nat) :
    (w.withoutHuge huge).Owned x ↔
      w.Owned x ∧ ¬ ((w.huges huge).key ≤ x ∧ x < (w.huges huge).key + (w.huges huge).len) := by
  rw [inv.owned_iff, (inv.dropHuge member).1.owned_iff]
  constructor
  · intro owned
    rcases owned with ⟨o, owns⟩
    have before : Owns w g o x ∧ o ≠ .huge huge := by
      cases o with
      | internal root => exact ⟨owns, by simp⟩
      | chunk chunk => exact ⟨owns, by simp⟩
      | huge other =>
          have still := (inv.blocks.nodup .huge).mem_erase_iff.mp owns.1
          refine ⟨⟨still.2, owns.2⟩, ?_⟩
          rw [ne_eq, Owner.huge.injEq]
          exact still.1
    refine ⟨⟨o, before.1⟩, ?_⟩
    intro inside
    exact before.2 (inv.owner o (.huge huge) x before.1 ⟨member, inside⟩)
  · intro owned
    rcases owned with ⟨⟨o, owns⟩, outside⟩
    refine ⟨o, ?_⟩
    cases o with
    | internal root => exact owns
    | chunk chunk => exact owns
    | huge other =>
        refine ⟨(inv.blocks.nodup .huge).mem_erase_iff.mpr ⟨?_, owns.1⟩, owns.2⟩
        intro same
        rw [same] at owns
        exact outside owns.2

/-- A huge mapping that is unmapped leaves its block in hand. -/
theorem withoutHuge_ledger (inv : Inv w g none) (member : huge ∈ w.arena.hugeAllocList) :
    Ledger .empty w (.block huge) (w.withoutHuge huge) := by
  have aliens := @aliens_change w (w.withoutHuge huge)
    {x | (w.huges huge).key ≤ x ∧ x < (w.huges huge).key + (w.huges huge).len} ∅ rfl
    (withoutHuge_mapped w huge) (fun x => by simpa using withoutHuge_owned inv member x)
    fun x inside => Or.inr (Or.inr ⟨huge, member, inside⟩)
  refine .settle ?_ ?_ rfl aliens fun _ _ _ => rfl
  · refine strays_leave rfl rfl ?_
    intro kind b listed
    cases kind with
    | chunk => exact Or.inr listed
    | run c => exact Or.inr listed
    | huge =>
        by_cases same : b = huge
        · exact Or.inl same
        · exact Or.inr ((List.mem_erase_of_ne same).mpr listed)
  · apply Accounts.take
    intro p start
    rcases start with ⟨o, m, located⟩
    left
    refine ⟨o, m, ?_⟩
    cases o with
    | regular chunk b run => exact located
    | huge other => exact ⟨List.mem_of_mem_erase located.1, located.2⟩

theorem arenaDeallocateHugeMapping_ledger (inv : Inv w g none)
    (member : huge ∈ w.arena.hugeAllocList) :
    wlp (arenaDeallocateHugeMapping env huge) (fun _ w' => Ledger .empty w .empty w') w := by
  have placed := inv.blocks.placed .huge huge member
  have after := (inv.dropHuge member).1
  have dropped := withoutHuge_ledger inv member
  unfold arenaDeallocateHugeMapping
  simp only [wlp_bind, wlp_get]
  refine wlp_mono (platformUnmap_unmaps _ _ _) ?_
  intro _ w₁ unmapped
  rw [unmapped, wlp_modify]
  refine wlp_mono (@arenaInternalFree_ledger (w.withoutHuge huge) huge hugeChunkSizeof
    after.rootsOk placed) ?_
  exact fun _ w₂ freed => dropped.trans freed

end Huge

section Runs

variable {w : World} {g : Layout} {env : Env} {b chunk run n i : Nat} {value : Run} {ck : Chunk}

/-- A region of a run that is marked freed. -/
theorem markFreed_ledger (inv : Inv w g none) (member : run ∈ w.arena.entries (.run b))
    (key : value.key = (w.runs run).key)
    (states : ∀ j < classElems b, value.state j = .alloc → (w.runs run).state j = .alloc) :
    Ledger .empty w .empty (w.setRun run (w.arena.bins b).runMetaSize value) := by
  have marked := @withRegion_ledger w g b run ∅ value (w.arena.bins b) w.history.origin inv member
    (List.Perm.refl _) key fun j small state => Or.inl (states j small state)
  rw [withRegion_setRun] at marked
  exact marked

/-- A run that is deleted leaves its block in hand. -/
theorem withoutRun_ledger (inv : Inv w g none) (inactive : run ∈ (w.arena.bins b).runListInactive) :
    Ledger .empty w (.block run) (w.withoutRun b run value) := by
  have entry : run ∈ w.arena.entries (.run b) := List.mem_append_right _ inactive
  have aliens : (w.withoutRun b run value).aliens = w.aliens \ ∅ := by
    rw [Set.sdiff_empty]
    rfl
  refine .settle ?_ ?_ rfl aliens ?_
  · refine strays_leave rfl rfl ?_
    intro kind r listed
    by_cases same : r = run
    · exact Or.inl same
    · exact Or.inr ((inv.withoutRun_member inactive).mpr ⟨listed, same⟩)
  · apply Accounts.take
    intro p start
    rcases start with ⟨o, m, located⟩
    left
    refine ⟨o, m, ?_⟩
    cases o with
    | huge huge => exact located
    | regular c d r => exact ⟨((inv.withoutRun_region inactive).mp located.1).1, located.2⟩
  · exact fun x alien _ => scribble_other (aliens_apart alien (inv.blocks.placed _ run entry))

theorem withoutNode_owned (inv : Inv w g (some (chunk, n)))
    (after : Inv (w.withoutNode chunk n ck) (g.kill chunk n) none)
    (key : ck.key = (w.chunks chunk).key) (x : Nat) :
    (w.withoutNode chunk n ck).Owned x ↔
      w.Owned x ∧ ¬ (nodeRun (w.chunks chunk).key n).Holds x := by
  have waits := inv.waits chunk n rfl
  have here : (w.withoutNode chunk n ck).chunks chunk = ck := setChunk_same _
  have there : ∀ c, c ≠ chunk → (w.withoutNode chunk n ck).chunks c = w.chunks c :=
    fun c other => setChunk_other _ other
  have deadHere : (g.kill chunk n).dead chunk = n :: g.dead chunk := Function.update_self _ _ _
  have deadThere : ∀ c, c ≠ chunk → (g.kill chunk n).dead c = g.dead c :=
    fun c other => Function.update_of_ne other _ _
  have elsewhere : ∀ o, o ≠ .chunk chunk → Owns w g o x →
      ¬ (nodeRun (w.chunks chunk).key n).Holds x := by
    intro o other owns inside
    exact other (inv.owner o (.chunk chunk) x owns (inv.owns_live waits.1 waits.2.1 inside))
  rw [inv.owned_iff, after.owned_iff]
  constructor
  · intro owned
    rcases owned with ⟨o, owns⟩
    cases o with
    | internal root => exact ⟨⟨.internal root, owns⟩, elsewhere (.internal root) (by simp) owns⟩
    | huge huge => exact ⟨⟨.huge huge, owns⟩, elsewhere (.huge huge) (by simp) owns⟩
    | chunk c =>
        rcases owns with ⟨member, inside⟩
        by_cases same : c = chunk
        · rw [same, here, key, deadHere] at inside
          rcases inside with ⟨low, high, outside⟩
          refine ⟨⟨.chunk chunk, waits.1, low, high, ?_⟩, outside n List.mem_cons_self⟩
          exact fun m dead => outside m (List.mem_cons_of_mem n dead)
        · rw [there c same, deadThere c same] at inside
          exact ⟨⟨.chunk c, member, inside⟩, elsewhere (.chunk c) (by simp [same]) ⟨member, inside⟩⟩
  · intro owned
    rcases owned with ⟨⟨o, owns⟩, outside⟩
    refine ⟨o, ?_⟩
    cases o with
    | internal root => exact owns
    | huge huge => exact owns
    | chunk c =>
        rcases owns with ⟨member, low, high, intact⟩
        refine ⟨member, ?_⟩
        by_cases same : c = chunk
        · rw [same] at low high intact
          rw [same, here, key, deadHere]
          refine ⟨low, high, ?_⟩
          intro m dead
          rcases List.mem_cons.mp dead with rfl | before
          · exact outside
          · exact intact m before
        · rw [there c same, deadThere c same]
          exact ⟨low, high, intact⟩

/-- The pages of a run are unmapped and are the allocator's no more. -/
theorem withoutNode_ledger (inv : Inv w g (some (chunk, n)))
    (after : Inv (w.withoutNode chunk n ck) (g.kill chunk n) none)
    (key : ck.key = (w.chunks chunk).key) :
    Ledger .empty w .empty (w.withoutNode chunk n ck) := by
  have waits := inv.waits chunk n rfl
  have aliens := @aliens_change w (w.withoutNode chunk n ck)
    {x | (nodeRun (w.chunks chunk).key n).Holds x} ∅ rfl (fun x => withoutNode_mapped x)
    (fun x => by simpa using withoutNode_owned inv after key x) fun x inside =>
      inv.owned_iff.mpr ⟨.chunk chunk, inv.owns_live waits.1 waits.2.1 inside⟩
  refine .settle (.same rfl) (.same rfl) rfl aliens ?_
  exact fun x alien _ => scribble_other (aliens_apart alien
    (inv.blocks.placed .chunk chunk waits.1))

theorem onChunkDeallocateRun_key (p : Nat) : wlp (onChunkDeallocateRun env chunk p)
    (fun _ w' => (w'.chunks chunk).key = (w.chunks chunk).key) w := by
  unfold onChunkDeallocateRun
  simp only [wlp_bind, wlp_get]
  cases found : chunkDeallocateRun (w.chunks chunk) p with
  | none => exact wlp_exit
  | some out =>
      simp only [wlp_bind]
      refine wlp_mono (platformUnmap_unmaps _ _ w) ?_
      intro _ w₁ unmapped
      simp only [wlp_modify, wlp_pure, setChunk_same]
      exact chunkDeallocateRun_key found

/-- Nothing is left of a chunk that has no runs any more. -/
theorem Inv.gone_owns (inv : Inv w g none) (member : chunk ∈ w.arena.chunkList)
    (whole : Gone (g.dead chunk) 1) (x : Nat) : ¬ Owns w g (.chunk chunk) x := by
  intro owns
  have place := inv.chunks chunk member
  have backed := place.backed.mpr owns.2
  have root : IsNode 1 := ⟨by decide, by decide⟩
  apply backed.2.2 1 root
  · rw [nodeRun_holds root backed.1 backed.2.1]
    exact below_one (by omega)
  · exact (place.inv.states.unmapped 1 root).mpr whole

/-- A chunk that is taken off the list leaves its block in hand. -/
theorem dropChunk_ledger (inv : Inv w g none) (member : chunk ∈ w.arena.chunkList)
    (whole : Gone (g.dead chunk) 1) : Ledger .empty w (.block chunk)
      (w.setArena { w.arena with chunkList := w.arena.chunkList.erase chunk }) := by
  have dropped := inv.dropChunk whole
  have owned : ∀ x, (w.setArena { w.arena with
      chunkList := w.arena.chunkList.erase chunk }).Owned x ↔ w.Owned x := by
    intro x
    rw [inv.owned_iff, dropped.owned_iff]
    apply exists_congr
    intro o
    cases o with
    | internal root => exact Iff.rfl
    | huge huge => exact Iff.rfl
    | chunk c =>
        constructor
        · exact fun owns => ⟨List.mem_of_mem_erase owns.1, owns.2⟩
        · intro owns
          refine ⟨(inv.blocks.nodup .chunk).mem_erase_iff.mpr ⟨?_, owns.1⟩, owns.2⟩
          intro same
          rw [same] at owns
          exact inv.gone_owns member whole x owns
  have aliens : (w.setArena { w.arena with
      chunkList := w.arena.chunkList.erase chunk }).aliens = w.aliens \ ∅ := by
    rw [Set.sdiff_empty]
    unfold World.aliens
    simp only [owned]
    rfl
  refine .settle ?_ (.same rfl) rfl aliens fun _ _ _ => rfl
  refine strays_leave rfl rfl ?_
  intro kind b listed
  cases kind with
  | huge => exact Or.inr listed
  | run c => exact Or.inr listed
  | chunk =>
      by_cases same : b = chunk
      · exact Or.inl same
      · exact Or.inr ((List.mem_erase_of_ne same).mpr listed)

theorem arenaDeallocateChunk_ledger (inv : Inv w g none) (member : chunk ∈ w.arena.chunkList)
    (whole : Gone (g.dead chunk) 1) :
    wlp (arenaDeallocateChunk chunk) (fun _ w' => Ledger .empty w .empty w') w := by
  have placed := chunk_placed inv member
  have dropped := dropChunk_ledger inv member whole
  unfold arenaDeallocateChunk
  simp only [wlp_bind, wlp_modify]
  refine wlp_mono (@arenaInternalFree_ledger (w.setArena { w.arena with
    chunkList := w.arena.chunkList.erase chunk }) chunk chunkSizeof (inv.dropChunk whole).rootsOk
      placed) ?_
  exact fun _ w₁ freed => dropped.trans freed

/-- The whole of a run that is given back: its block, its pages, and its chunk when no run is
left in it. -/
theorem deleteRun_ledger (inv : Inv w g none) (inactive : run ∈ (w.arena.bins b).runListInactive)
    (inside : i < classElems b) (alloc : (w.runs run).state i = .alloc)
    (others : ∀ j < classElems b, j ≠ i → (w.runs run).state j = .allocFree)
    (key : value.key = (w.runs run).key) :
    wlp (deleteRun env (w.history.runChunk run) b run) (fun _ w' => Ledger .empty w .empty w')
      (w.setRun run (w.arena.bins b).runMetaSize value) := by
  have entry : run ∈ w.arena.entries (.run b) := List.mem_append_right _ inactive
  have known := inv.known b run entry
  have dropped := @Inv.dropRun w g b run value inv inactive
  have block := @withoutRun_ledger w g b run value inv inactive
  refine wlp_of_eq (inv.deleteRun_run inactive key) ?_
  rw [wlp_bind]
  refine wlp_mono (wlp_both (onChunkDeallocateRun_wp (exits_mayEnd env) dropped)
    (onChunkDeallocateRun_key _)) ?_
  intro whole w₁ post
  rcases post with ⟨⟨ck, rfl, inv₁, isWhole⟩, sameKey⟩
  have keyed : ck.key = ((w.withoutRun b run value).chunks (w.history.runChunk run)).key := by
    rw [← sameKey]
    exact (congrArg Chunk.key (setChunk_same _)).symm
  have pages := block.trans ((withoutNode_ledger dropped inv₁ keyed).carry_quiet (.block run))
  have placed : Placed ((w.withoutRun b run value).withoutNode (w.history.runChunk run)
      (g.node run) ck).arena.internalAllocList ((w.withoutRun b run value).withoutNode
        (w.history.runChunk run) (g.node run) ck).intAllocs run (w.arena.metaSize (.run b)) :=
    inv.blocks.placed _ run entry
  have member : w.history.runChunk run ∈ ((w.withoutRun b run value).withoutNode
    (w.history.runChunk run) (g.node run) ck).arena.chunkList := known
  have different : run ≠ w.history.runChunk run := by
    intro same
    have kinds := inv.blocks.single (.run b) .chunk run entry (same ▸ known)
    simp at kinds
  have released := inv.releaseRun inactive inside alloc others inv₁
  generalize (w.withoutRun b run value).withoutNode (w.history.runChunk run) (g.node run) ck = w₂
    at inv₁ released pages placed member ⊢
  by_cases isTrue : whole = true
  · rw [if_pos isTrue, wlp_bind]
    refine wlp_mono (wlp_both (@Released.freeChunk mayEnd _ _ _ _ _ _ released inv₁ member
      (isWhole.mp isTrue)) (arenaDeallocateChunk_ledger inv₁ member (isWhole.mp isTrue))) ?_
    intro _ w₃ post
    rcases post with ⟨⟨-, inv₃, kept, -⟩, chunk⟩
    have sofar := pages.trans (chunk.carry_quiet (.block run))
    refine wlp_mono (arenaInternalFree_ledger inv₃.rootsOk (kept run _ different placed)) ?_
    exact fun _ w₄ freed => sofar.trans freed
  · rw [if_neg isTrue]
    refine wlp_mono (arenaInternalFree_ledger inv₁.rootsOk placed) ?_
    exact fun _ w₃ freed => pages.trans freed

/-- A run that is freeable once a region is freed is inactive, and its other regions were freed
before. -/
theorem Inv.emptied (inv : Inv w g none) (member : run ∈ w.arena.entries (.run b))
    (inside : i < classElems b) (alloc : (w.runs run).state i = .alloc)
    (freeable : runIsFreeable (runMarkFreed (w.runs run) i) (w.arena.bins b)) :
    run ∈ (w.arena.bins b).runListInactive ∧
      ∀ j < classElems b, j ≠ i → (w.runs run).state j = .allocFree := by
  have ready := inv.ready member
  rcases runMarkFreed_inv (inv.runs b run member).inv inside alloc with
    ⟨runInv, -, navail, -, stores⟩
  have full : (runMarkFreed (w.runs run) i).nfreed = classElems b := by
    rw [← ready.elems]
    exact freeable
  constructor
  · rcases List.mem_append.mp member with active | inactive
    · have available := ready.active run active
      have counts := @Run.count_add_le (runMarkFreed (w.runs run) i) (classElems b)
        .free .allocFree (by decide)
      rw [← runInv.nfreed, ← runInv.navail, navail, full] at counts
      omega
    · exact inactive
  · intro j small different
    have state : (runMarkFreed (w.runs run) i).state j = .allocFree :=
      Run.count_full (by rw [← runInv.nfreed, full]) small
    rw [stores j, if_neg different] at state
    exact state

theorem seallocFreeWithMetadata_ledger {ptr : Nat} (inv : Inv w g none)
    (region : Region w chunk b run ptr .alloc) :
    wlp (seallocFreeWithMetadata env chunk b run ptr)
      (fun _ w' => Ledger .empty w .empty w') w := by
  rcases region with ⟨member, rfl, i, inside, rfl, alloc⟩
  have ready := inv.ready member
  have place := inv.runs b run member
  have facts := classSize_facts b place.isClass
  have nonzero : (w.arena.bins b).regSize ≠ 0 := by
    rw [ready.regSize]
    omega
  rcases runMarkFreed_inv place.inv inside alloc with ⟨-, -, -, key, stores⟩
  unfold seallocFreeWithMetadata
  simp only [wlp_bind, wlp_get]
  rw [if_neg nonzero, inv.runDeallocate_alloc member alloc]
  simp only [wlp_bind, wlp_modify]
  by_cases freeable : runIsFreeable (runMarkFreed (w.runs run) i) (w.arena.bins b)
  · rcases inv.emptied member inside alloc freeable with ⟨inactive, others⟩
    rw [if_pos freeable]
    exact deleteRun_ledger inv inactive inside alloc others key
  · rw [if_neg freeable]
    refine (wlp_pure _).mpr (markFreed_ledger inv member key ?_)
    intro j _ state
    by_cases same : j = i
    · rw [same]
      exact alloc
    · rw [stores j, if_neg same] at state
      exact state

end Runs

end Sealloc
