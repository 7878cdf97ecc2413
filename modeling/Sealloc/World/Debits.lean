import Sealloc.World.Ledger

/-! The books while memory is allocated: chunks and runs leave no metadata block and no page
behind, and a region is allocated at the address that is returned and at no other. -/

namespace Sealloc

open Library Chunk

section Chunks

variable {w : World} {g : Layout} {env : Env} {chunk b : Nat}

/-- A change of a chunk that gives nothing of it back. -/
theorem setChunk_ledger {held : Hand} {draws : Nat} {ck : Chunk}
    (placed : Placed w.arena.internalAllocList w.intAllocs chunk chunkSizeof)
    (same : ∀ x, Backed ck x ↔ Backed (w.chunks chunk) x) :
    Ledger held w held ((w.draw32 draws).setChunk chunk ck) := by
  have owned : ((w.draw32 draws).setChunk chunk ck).Owned = w.Owned := by
    funext x
    have chunks : ∀ c, Backed (((w.draw32 draws).setChunk chunk ck).chunks c) x ↔
        Backed (w.chunks c) x := by
      intro c
      by_cases here : c = chunk
      · rw [here, setChunk_same]
        exact same x
      · rw [setChunk_other _ here]
        exact Iff.rfl
    unfold World.Owned
    simp only [chunks]
    rfl
  refine Ledger.same rfl ?_ rfl ?_
  · unfold World.aliens
    rw [owned]
    rfl
  · exact fun x alien => scribble_other (aliens_apart alien placed)

theorem onChunkAllocateRun_ledger (inv : Inv w g none) (isClass : b < 43)
    (member : chunk ∈ w.arena.chunkList) :
    wlp (onChunkAllocateRun env chunk (classRunBytes b) (classSize b))
      (fun _ w' => Ledger .empty w .empty w') w := by
  have place := inv.chunks chunk member
  have placed := chunk_placed inv member
  intro r w' run
  unfold onChunkAllocateRun at run
  rcases place.allocate isClass fun i => u32 (env.rand32 (w.rand32Draws + i)) with
    ⟨draws, result, -⟩ | ⟨n, ck, draws, result, new⟩
  · simp only [result] at run
    injection run with _ state
    rw [← state]
    exact setChunk_ledger placed fun x => Iff.rfl
  · simp only [result] at run
    injection run with _ state
    rw [← state]
    apply setChunk_ledger placed
    intro x
    rw [new.place.backed, place.backed, new.key]

theorem chunkAllocateFrom_ledger (isClass : b < 43) : ∀ (entries : List Nat) (w : World),
    Inv w g none → (∀ chunk ∈ entries, chunk ∈ w.arena.chunkList) →
    wlp (chunkAllocateFrom env (classRunBytes b) (classSize b) entries)
      (fun _ w' => Ledger .empty w .empty w') w := by
  intro entries
  induction entries with
  | nil =>
      intro w _ _
      exact (wlp_pure _).mpr (.refl _ w)
  | cons chunk rest ih =>
      intro w inv members
      have member := members chunk List.mem_cons_self
      unfold chunkAllocateFrom
      rw [wlp_bind]
      refine wlp_mono (wlp_both (@onChunkAllocateRun_wp mayEnd w g env b inv isClass chunk member)
        (onChunkAllocateRun_ledger inv isClass member)) ?_
      intro r w₁ post
      rcases post with ⟨spec, first⟩
      cases r with
      | some ptr => exact (wlp_pure _).mpr first
      | none =>
          rcases spec with ⟨frame, arena, -⟩
          have inv₁ := inv.metaFrame frame fun _ _ _ => id
          refine wlp_mono (ih w₁ inv₁ ?_) fun _ w₂ later => first.trans later
          intro c inside
          rw [arena]
          exact members c (List.mem_cons_of_mem chunk inside)

/-- A new chunk takes its block and its pages out of hand. -/
theorem addChunk_ledger {ck : Chunk} (unused : chunk ∉ w.arena.chunkList)
    (placed : Placed w.arena.internalAllocList w.intAllocs chunk chunkSizeof)
    (place : ChunkPlace ck [] []) :
    Ledger ((Hand.range ⟨ck.key, chunkSizeBytes⟩).add (.block chunk)) w .empty
      ((w.setChunk chunk ck).setArena
        { w.arena with chunkList := chunk :: w.arena.chunkList }) := by
  have chunks : ∀ c ∈ w.arena.chunkList, (w.setChunk chunk ck).chunks c = w.chunks c :=
    fun c member => setChunk_other w fun same => unused (same ▸ member)
  have owned : ∀ x, ((w.setChunk chunk ck).setArena
      { w.arena with chunkList := chunk :: w.arena.chunkList }).Owned x ↔
        w.Owned x ∨ Span.Holds ⟨ck.key, chunkSizeBytes⟩ x := by
    intro x
    have whole : Backed ck x ↔ Span.Holds ⟨ck.key, chunkSizeBytes⟩ x := by
      rw [place.backed]
      simp [Span.Holds]
    have listed : (∃ c ∈ chunk :: w.arena.chunkList, Backed ((w.setChunk chunk ck).chunks c) x) ↔
        Backed ck x ∨ ∃ c ∈ w.arena.chunkList, Backed (w.chunks c) x := by
      rw [List.exists_mem_cons_iff, setChunk_same]
      apply or_congr_right
      apply exists_congr
      intro c
      apply and_congr_right
      intro member
      rw [chunks c member]
    have lists : ((w.setChunk chunk ck).setArena
        { w.arena with chunkList := chunk :: w.arena.chunkList }).Owned x ↔
          Internal w.arena.internalAllocList x ∨
          (∃ c ∈ chunk :: w.arena.chunkList, Backed ((w.setChunk chunk ck).chunks c) x) ∨
          ∃ huge ∈ w.arena.hugeAllocList, (w.huges huge).key ≤ x ∧
            x < (w.huges huge).key + (w.huges huge).len := Iff.rfl
    rw [lists, listed, whole]
    constructor
    · rintro (internal | (here | inside) | huge)
      · exact Or.inl (Or.inl internal)
      · exact Or.inr here
      · exact Or.inl (Or.inr (Or.inl inside))
      · exact Or.inl (Or.inr (Or.inr huge))
    · rintro ((internal | inside | huge) | here)
      · exact Or.inl internal
      · exact Or.inr (Or.inl (Or.inr inside))
      · exact Or.inr (Or.inr huge)
      · exact Or.inr (Or.inl (Or.inl here))
  refine ⟨?_, ?_, ?_, ?_⟩
  · intro a stray
    rcases stray with ⟨⟨block, unlisted⟩, -⟩
    refine ⟨⟨block, ?_⟩, ?_⟩
    · intro kind inside
      apply unlisted kind
      cases kind with
      | chunk => exact List.mem_cons_of_mem chunk inside
      | huge => exact inside
      | run c => exact inside
    · intro isHeld
      rcases isHeld with impossible | same
      · exact impossible
      · exact unlisted .chunk (List.mem_cons.mpr (Or.inl same))
  · intro x alien
    rcases alien with ⟨⟨mapped, unowned, known⟩, -⟩
    rw [owned] at unowned
    refine ⟨⟨mapped, fun before => unowned (Or.inl before), known⟩, ?_⟩
    intro isHeld
    rcases isHeld with inside | impossible
    · exact unowned (Or.inr inside)
    · exact impossible
  · intro p start
    exact ⟨start.1, fun isHeld => isHeld.elim id id⟩
  · intro x alien
    rcases alien with ⟨⟨mapped, unowned, known⟩, notHeld⟩
    refine ⟨⟨⟨mapped, ?_, known⟩, id⟩, ?_⟩
    · rw [owned]
      rintro (before | inside)
      · exact unowned before
      · exact notHeld (Or.inl inside)
    · exact scribble_other (aliens_apart ⟨mapped, unowned, known⟩ placed)

theorem arenaAllocateChunk_ledger {fuel : Nat} (inv : Inv w g none) :
    wlp (arenaAllocateChunk env fuel) (fun _ w' => Ledger .empty w .empty w') w := by
  unfold arenaAllocateChunk
  rw [wlp_bind]
  refine wlp_mono (arenaInternalAlloc_ledger chunkSizeof inv.rootsOk inv.brk (by decide)
    (by decide)) ?_
  intro r w₁ post
  rcases post with ⟨chunk, rfl, taken, block⟩
  have inv₁ := inv.metaFrame taken.frame fun _ _ _ => id
  rw [wlp_bind]
  have spec := @arenaMorecore_wp mayEnd w₁ env trivial .chunkAlloc (resetChunkPtrStart env)
    (resetChunkPtrStart_resets env) fuel chunkSizeBytes (·.brk) inv₁.brk
  refine wlp_mono (wlp_both spec (arenaMorecoreLoop_brings resetChunkPtrStart_quiet fuel
    chunkSizeBytes (·.brk) fuel w₁)) ?_
  intro ptr w₂ post
  rcases post with ⟨⟨mapped, fresh, -⟩, brings⟩
  rw [wlp_bind]
  refine wlp_mono (wlp_both (@skipMapping_wp mayEnd w₂ .chunkAlloc ptr (chunkSizeBytes + pageSize))
    (quiet_brings (skipMapping_quiet .chunkAlloc ptr (chunkSizeBytes + pageSize)) w₂)) ?_
  intro _ w₃ post
  rcases post with ⟨skipped, nothing⟩
  have frame := mapped.trans skipped
  rcases chunkInit_place (env.staleChunk chunk) fresh.aligned fresh.start fresh.low with
    ⟨place, key, -⟩
  have unused : chunk ∉ w₃.arena.chunkList := by
    have entries := (taken.frame.trans frame.metaFrame).entries.1
    have before := inv.blocks.unused taken.fresh .chunk
    rw [← entries] at before
    exact before
  have placed : Placed w₃.arena.internalAllocList w₃.intAllocs chunk chunkSizeof := by
    rw [frame.internalAllocList, frame.intAllocs]
    exact taken.placed
  have range := ((mapped.ledger fresh brings).trans
    ((skipped.ledger_quiet nothing).carry_quiet _)).carry (.block chunk)
  simp only [wlp_bind, wlp_modify, wlp_pure]
  have added := addChunk_ledger unused placed place
  rw [key] at added
  exact block.trans (range.trans added)

end Chunks

/-- A run is in hand, and none of its regions is allocated. -/
structure RunHeld (w : World) (b run : Nat) (w' : World) : Prop where
  ledger : Ledger .empty w (.block run) w'
  clear : ∀ i < classElems b, (w'.runs run).state i ≠ .alloc

section Runs

variable {w : World} {g : Layout} {env : Env} {b chunk run : Nat}

theorem RunHeld.earlier {w₁ w₂ : World} (first : Ledger .empty w .empty w₁)
    (held : RunHeld w₁ b run w₂) : RunHeld w b run w₂ :=
  ⟨first.trans held.ledger, held.clear⟩

/-- The metadata of a run that is on no list. -/
theorem placeRun_ledger {held : Hand} {draws size : Nat} {value : Run}
    (unused : ∀ kind, run ∉ w.arena.entries kind)
    (placed : Placed w.arena.internalAllocList w.intAllocs run size) :
    Ledger held w held ((w.draw32 draws).placeRun chunk run size value) := by
  have located : ∀ p o n, Located ((w.draw32 draws).placeRun chunk run size value) p o n ↔
      Located w p o n := by
    intro p o n
    cases o with
    | huge huge => exact Iff.rfl
    | regular c d r =>
        rw [located_regular, located_regular]
        apply and_congr_left
        intro _
        apply and_congr_right
        intro member
        have different : r ≠ run := fun same => unused _ (same ▸ member)
        have runs : ((w.draw32 draws).placeRun chunk run size value).runs r = w.runs r :=
          Function.update_of_ne different _ _
        have home : ((w.draw32 draws).placeRun chunk run size value).history.runChunk r =
            w.history.runChunk r := Function.update_of_ne different _ _
        rw [runs, home]
  refine Ledger.same rfl rfl ?_ ?_
  · unfold World.starts
    simp only [located]
  · exact fun x alien => scribble_other (aliens_apart alien placed)

/-- A run that is put on a list of its bin. -/
theorem binAdded_ledger (clear : ∀ i < classElems b, (w.runs run).state i ≠ .alloc) :
    Ledger (.block run) w .empty (w.binAdded b run) := by
  have here : (w.binAdded b run).arena.entries (.run b) = run :: w.arena.entries (.run b) :=
    entries_setBin_same
  have there : ∀ kind, kind ≠ .run b →
      (w.binAdded b run).arena.entries kind = w.arena.entries kind :=
    fun kind different => entries_setBin_other different
  refine ⟨?_, .same rfl, ?_, fun x alien => ⟨⟨alien.1, id⟩, rfl⟩⟩
  · apply Accounts.give
    intro a stray
    rcases stray with ⟨block, unlisted⟩
    refine ⟨⟨block, ?_⟩, ?_⟩
    · intro kind inside
      apply unlisted kind
      by_cases same : kind = .run b
      · rw [same, here]
        rw [same] at inside
        exact List.mem_cons_of_mem run inside
      · rw [there kind same]
        exact inside
    · intro isRun
      apply unlisted (.run b)
      rw [here]
      exact List.mem_cons.mpr (Or.inl isRun)
  · apply Accounts.give
    intro p start
    rcases start with ⟨o, n, located⟩
    refine ⟨⟨o, n, ?_⟩, id⟩
    cases o with
    | huge huge => exact located
    | regular c d r =>
        rcases located with ⟨⟨member, home, i, small, ptrAt, state⟩, length⟩
        refine ⟨⟨?_, home, i, small, ptrAt, state⟩, length⟩
        by_cases same : d = b
        · rw [same, here] at member
          rcases List.mem_cons.mp member with isRun | before
          · rw [same] at small
            rw [isRun] at state
            exact absurd state (clear i small)
          · rw [same]
            exact before
        · rw [there _ fun eq => same (Kind.run.inj eq)] at member
          exact member

theorem arenaInitRun_ledger {fuel ptr : Nat} {pending : Option (Nat × Nat)}
    (inv : Inv w g pending) (ready : BinReady b (w.arena.bins b) w.runs) :
    wlp (arenaInitRun env fuel b chunk ptr) (fun run w' => RunHeld w b run w') w := by
  have metaFacts := classMetaSize_facts b ready.isClass
  have facts := classSize_facts b ready.isClass
  have notZero : (w.arena.bins b).elems ≠ 0 := by
    rw [ready.elems]
    omega
  unfold arenaInitRun
  simp only [wlp_bind, wlp_get]
  rw [ready.metaSize]
  refine wlp_mono (arenaInternalAlloc_ledger (classMetaSize b) inv.rootsOk inv.brk metaFacts.1
    metaFacts.2) ?_
  intro r w₁ post
  rcases post with ⟨run, rfl, taken, block⟩
  have unused : ∀ kind, run ∉ w₁.arena.entries kind := by
    rw [taken.frame.entries.1]
    exact inv.blocks.unused taken.fresh
  simp only [if_neg notZero, wlp_bind, wlp_modify, setRunChunk, wlp_pure]
  generalize generatorDraws (w.arena.bins b).regSize + 1 = draws
  have bits : (w.arena.bins b).regMaskSizeBits = 2 * (w.arena.bins b).elems := by
    rw [ready.elems, ready.bits]
  have fresh := runInit_inv (env.staleRun run) ready.isClass ready.regSize ready.elems bits
    (fun i => u32 (env.rand32 (w₁.rand32Draws + i))) ptr
  rw [ready.elems] at fresh
  generalize runInit (fun i => u32 (env.rand32 (w₁.rand32Draws + i))) (env.staleRun run)
    (w.arena.bins b) ptr = value at fresh
  rcases fresh with ⟨-, -, free⟩
  refine ⟨block.trans (@placeRun_ledger w₁ chunk run _ draws _ value unused taken.placed), ?_⟩
  intro i small allocated
  have same : ((w₁.draw32 draws).placeRun chunk run (classMetaSize b) value).runs run = value :=
    Function.update_self _ _ _
  have state : (((w₁.draw32 draws).placeRun chunk run (classMetaSize b) value).runs run).state i =
      .alloc := allocated
  rw [same, free i small] at state
  simp at state

theorem arenaAllocateRun_ledger {fuel : Nat} (inv : Inv w g none)
    (ready : BinReady b (w.arena.bins b) w.runs) :
    wlp (arenaAllocateRun env fuel b) (fun run w' => RunHeld w b run w') w := by
  have isClass := ready.isClass
  have members : ∀ chunk ∈ w.arena.chunkList, chunk ∈ w.arena.chunkList := fun _ => id
  unfold arenaAllocateRun
  simp only [wlp_bind, wlp_get]
  rw [ready.pages, ready.regSize]
  refine wlp_mono (wlp_both (@chunkAllocateFrom_wp mayEnd g env b isClass w.arena.chunkList w inv
    (inv.blocks.nodup .chunk) members)
      (chunkAllocateFrom_ledger isClass w.arena.chunkList w inv members)) ?_
  intro r w₁ post
  rcases post with ⟨spec, first⟩
  cases r with
  | some found =>
      rcases found with ⟨chunk, ptr⟩
      rcases spec with ⟨-, n, -, taken, -⟩
      have ready₁ : BinReady b (w₁.arena.bins b) w₁.runs := by
        rw [taken.arena, taken.runs]
        exact ready
      refine wlp_mono (arenaInitRun_ledger taken.inv ready₁) ?_
      exact fun run w₂ held => held.earlier first
  | none =>
      rcases spec with ⟨frame, arena, -, -⟩
      have inv₁ := inv.metaFrame frame fun _ _ _ => id
      simp only [wlp_bind]
      refine wlp_mono (wlp_both (@arenaAllocateChunk_wp mayEnd w₁ g env b fuel inv₁ trivial)
        (arenaAllocateChunk_ledger inv₁)) ?_
      intro chunk w₂ post
      rcases post with ⟨⟨inv₂, -, member, -, bins, runs, -⟩, second⟩
      refine wlp_mono (wlp_both (@onChunkAllocateRun_wp mayEnd w₂ _ env b inv₂ isClass chunk member)
        (onChunkAllocateRun_ledger inv₂ isClass member)) ?_
      intro r w₃ post
      rcases post with ⟨spec, third⟩
      have books := first.trans (second.trans third)
      cases r with
      | none =>
          rcases spec with ⟨frame₃, arena₃, -, -⟩
          have inv₃ := inv₂.metaFrame frame₃ fun _ _ _ => id
          have ready₃ : BinReady b (w₃.arena.bins b) w₃.runs := by
            rw [arena₃, bins, arena, frame₃.runs, runs, frame.runs]
            exact ready
          refine wlp_mono (arenaInitRun_ledger inv₃ ready₃) ?_
          exact fun run w₄ held => held.earlier books
      | some ptr =>
          rcases spec with ⟨n, -, taken, -, -⟩
          have ready₃ : BinReady b (w₃.arena.bins b) w₃.runs := by
            rw [taken.arena, bins, arena, taken.runs, runs, frame.runs]
            exact ready
          refine wlp_mono (arenaInitRun_ledger taken.inv ready₃) ?_
          exact fun run w₄ held => held.earlier books

/-- A run that was made and put on the list of its bin. -/
theorem RunHeld.added {w₁ : World} (held : RunHeld w b run w₁) :
    Ledger .empty w .empty (w₁.binAdded b run) := held.ledger.trans (binAdded_ledger held.clear)

theorem supplyRuns_ledger {fuel : Nat} : ∀ (rounds : Nat) (w : World) (g : Layout),
    Inv w g none → BinReady b (w.arena.bins b) w.runs →
    (w.arena.bins b).availRegs + rounds * classElems b ≤ 2048 →
    wlp (supplyRuns env fuel b rounds) (fun _ w' => Ledger .empty w .empty w') w := by
  intro rounds
  induction rounds with
  | zero =>
      intro w g _ _ _
      exact (wlp_pure _).mpr (.refl _ w)
  | succ rounds ih =>
      intro w g inv ready room
      have some := (classSize_facts b ready.isClass).2.2.2.1
      rw [Nat.succ_mul] at room
      have room₁ : (w.arena.bins b).availRegs + classElems b ≤ 2048 := by omega
      unfold supplyRuns binAddRun
      simp only [wlp_bind, wlp_modify]
      refine wlp_mono (wlp_both (@arenaAllocateRun_wp mayEnd w g env b fuel inv ready room₁
        fun _ => trivial) (arenaAllocateRun_ledger inv ready)) ?_
      intro run w₁ post
      rcases post with ⟨⟨made, -⟩, held⟩
      have added := made.supplied room₁
      have avail := added.avail
      rw [Nat.one_mul] at avail
      rcases added.inv with ⟨g', inv'⟩
      have ready' := inv'.ready_of_avail (b := b) (by omega)
      refine wlp_mono (ih (w₁.binAdded b run) g' inv' ready' (by omega)) ?_
      exact fun _ w₂ later => held.added.trans later

theorem arenaSupplyRuns_ledger {fuel : Nat} (inv : Inv w g none)
    (ready : BinReady b (w.arena.bins b) w.runs) (empty : (w.arena.bins b).availRegs = 0) :
    wlp (arenaSupplyRuns env fuel b) (fun _ w' => Ledger .empty w .empty w') w := by
  have bound := @runsNeeded_bound b 0 ready.isClass rfl
  have facts := classSize_facts b ready.isClass
  have nonzero : (w.arena.bins b).elems ≠ 0 := by
    rw [ready.elems]
    omega
  have rounds : ceilDiv (binMinimumRegions - (w.arena.bins b).availRegs) (w.arena.bins b).elems =
      runsNeeded b 0 := by
    rw [empty, ready.elems]
    rfl
  unfold arenaSupplyRuns
  simp only [wlp_bind, wlp_get]
  rw [if_neg nonzero, rounds]
  apply supplyRuns_ledger _ w g inv ready
  rw [empty]
  omega

end Runs

section Regions

variable {w : World} {g : Layout} {env : Env} {b run : Nat}

/-- A run of a bin whose regions change their states: those at `given` may be allocated. -/
theorem withRegion_ledger {given : Set Nat} {value : Run} {bin : Bin}
    {origin : Nat → Option Origin} (inv : Inv w g none) (member : run ∈ w.arena.entries (.run b))
    (lists : (bin.runListActive ++ bin.runListInactive).Perm (w.arena.entries (.run b)))
    (key : value.key = (w.runs run).key)
    (states : ∀ i < classElems b, value.state i = .alloc → (w.runs run).state i = .alloc ∨
      (w.runs run).key + i * classSize b ∈ given) :
    Ledger .empty w ⟨∅, ∅, given⟩ (w.withRegion b run value bin origin) where
  blocks := by
    apply Accounts.same
    unfold World.strays
    simp only [withRegion_member lists]
    rfl
  bytes := .same rfl
  ptrs := by
    apply Accounts.take
    intro p start
    rcases start with ⟨o, n, located⟩
    rcases withRegion_located inv member lists key located with
      ⟨old, -⟩ | ⟨rfl, rfl, i, small, rfl, state⟩
    · exact Or.inl ⟨o, n, old⟩
    · rcases states i small state with before | new
      · have region : Region w (w.history.runChunk run) b run
            ((w.runs run).key + i * classSize b) .alloc := ⟨member, rfl, i, small, rfl, before⟩
        exact Or.inl ⟨.regular (w.history.runChunk run) b run, classSize b, region, rfl⟩
      · exact Or.inr new
  kept := by
    intro x alien
    exact ⟨⟨alien.1, id⟩,
      scribble_other (aliens_apart alien.1 (inv.blocks.placed _ run member))⟩

/-- The next region of an active run is the only one that is allocated. -/
theorem Inv.allocate_ledger (inv : Inv w g none) (ready : BinReady b (w.arena.bins b) w.runs)
    (member : run ∈ (w.arena.bins b).runListActive) :
    Ledger .empty w (.ptr (runAllocate (w.runs run) (w.arena.bins b)).1)
      (w.withRegion b run (runAllocate (w.runs run) (w.arena.bins b)).2
        ((w.arena.bins b).afterAllocate run (runAllocate (w.runs run) (w.arena.bins b)).2)
        (Function.update w.history.origin (runAllocate (w.runs run) (w.arena.bins b)).1
          (some (.regular (w.history.runChunk run) b run)))) := by
  have entry : run ∈ w.arena.entries (.run b) := List.mem_append_left _ member
  have avail := ready.active run member
  have runInv := (inv.runs b run entry).inv
  rw [← ready.elems] at runInv
  rcases runAllocate_inv runInv avail with ⟨inside, -, -, -, -, key, stores, ptr⟩
  rw [ready.elems] at inside stores ptr
  rw [ready.regSize, (inv.runSite entry).address inside] at ptr
  apply withRegion_ledger inv entry (ready.afterAllocate_lists member) key
  intro i _ state
  by_cases next : i = (w.runs run).next (classElems b)
  · right
    rw [next]
    exact ptr.symm
  · left
    rw [stores i, if_neg next] at state
    exact state

theorem noted_ledger (finding : Finding) (draws : Nat) : Ledger .empty w .empty
    ((w.draw32 draws).record { w.history with findings := finding :: w.history.findings }) :=
  .same rfl rfl rfl fun _ _ => rfl

theorem pickRegion_ledger (inv : Inv w g none) (available : 1 ≤ (w.arena.bins b).availRegs) :
    wlp (do
      let run ← binGetRunForAllocation env b
      allocateFromRun b run) (fun ptr w' => Ledger .empty w (.ptr ptr) w') w := by
  have ready := inv.ready_of_avail (b := b) (by omega)
  have positive := ready.active_pos available
  have count := ready.count
  have nonzero : (w.arena.bins b).runListActiveCnt ≠ 0 := by omega
  refine @wlp_of_wp _ _ _ _ mayEnd _ ?_
  unfold binGetRunForAllocation
  simp only [wp_bind, wp_splitmix32, wp_get]
  have same : (w.draw32 1).arena = w.arena := rfl
  simp only [same]
  rw [if_neg nonzero]
  have inside : u32 (env.rand32 w.rand32Draws) % (w.arena.bins b).runListActiveCnt <
      (w.arena.bins b).runListActive.length := by
    rw [← count]
    exact Nat.mod_lt _ (by omega)
  generalize u32 (env.rand32 w.rand32Draws) % (w.arena.bins b).runListActiveCnt = idx at inside ⊢
  have passes : (Finding.picked b idx (w.arena.bins b).runListActive.length).Passes := inside
  have inv' := inv.noted _ passes 1
  have noted := @noted_ledger w (.picked b idx (w.arena.bins b).runListActive.length) 1
  have found : (w.arena.bins b).runListActive[idx]? =
      some (w.arena.bins b).runListActive[idx] := List.getElem?_eq_getElem inside
  have member : (w.arena.bins b).runListActive[idx] ∈ (w.arena.bins b).runListActive :=
    List.getElem_mem inside
  simp only [wp_bind, note, wp_modify, found, wp_pure]
  generalize (w.arena.bins b).runListActive[idx] = run at member ⊢
  have history : (w.draw32 1).history = w.history := rfl
  rw [history]
  generalize next : (w.draw32 1).record { w.history with
    findings := .picked b idx (w.arena.bins b).runListActive.length :: w.history.findings } = w₁
    at inv' noted ⊢
  have bins : w₁.arena.bins = w.arena.bins := by
    rw [← next]
    rfl
  have runs : w₁.runs = w.runs := by
    rw [← next]
    rfl
  rw [← bins] at ready member
  rw [← runs] at ready
  apply allocateFromRun_wp ready
  exact noted.trans (inv'.allocate_ledger ready member)

theorem drawRegion_ledger (inv : Inv w g none)
    (enough : binMinimumRegions ≤ (w.arena.bins b).availRegs) :
    wlp (do
      let w ← Prog.get
      note (.minimumRegions b (w.arena.bins b).availRegs)
      let run ← binGetRunForAllocation env b
      allocateFromRun b run) (fun ptr w' => Ledger .empty w (.ptr ptr) w') w := by
  have inv' := inv.noted (.minimumRegions b (w.arena.bins b).availRegs) enough 0
  have noted := @noted_ledger w (.minimumRegions b (w.arena.bins b).availRegs) 0
  have none : w.draw32 0 = w := rfl
  rw [none] at inv' noted
  rw [wlp_bind, wlp_get, wlp_bind, note, wlp_modify]
  unfold binMinimumRegions at enough
  refine wlp_mono (@pickRegion_ledger _ g env b inv' (Nat.le_trans (by decide) enough)) ?_
  exact fun ptr w₂ later => noted.trans later

theorem seallocAllocateWithBin_ledger {fuel : Nat} (inv : Inv w g none)
    (stocked : binMinimumRegions - 1 ≤ (w.arena.bins b).availRegs) :
    wlp (seallocAllocateWithBin env fuel b) (fun ptr w' => Ledger .empty w (.ptr ptr) w') w := by
  have nonzero : (w.arena.bins b).availRegs ≠ 0 := by
    unfold binMinimumRegions at stocked
    omega
  have ready := inv.ready_of_avail nonzero
  have facts := classSize_facts b ready.isClass
  unfold seallocAllocateWithBin
  rw [wlp_bind, wlp_get]
  by_cases few : (w.arena.bins b).availRegs < binMinimumRegions
  · have room : (w.arena.bins b).availRegs + classElems b ≤ 2048 := by
      unfold binMinimumRegions at few
      omega
    simp only [if_pos few]
    rw [wlp_bind]
    refine wlp_mono (wlp_both (@arenaAllocateRun_wp mayEnd w g env b fuel inv ready room
      fun _ => trivial) (arenaAllocateRun_ledger inv ready)) ?_
    intro run w₁ post
    rcases post with ⟨⟨made, -⟩, held⟩
    have supplied := made.supplied room
    rcases supplied.inv with ⟨g', inv'⟩
    have avail := supplied.avail
    rw [Nat.one_mul] at avail
    have enough : binMinimumRegions ≤ ((w₁.binAdded b run).arena.bins b).availRegs := by
      unfold binMinimumRegions at stocked ⊢
      omega
    rw [wlp_bind, binAddRun, wlp_modify]
    refine wlp_mono (@drawRegion_ledger _ g' env b inv' enough) ?_
    exact fun ptr w₂ later => held.added.trans later
  · simp only [if_neg few]
    exact drawRegion_ledger inv (Nat.le_of_not_lt few)

/-- A bin that is initialised has no runs before and after. -/
theorem arenaGetBinByRegSize_ledger {regSize : Nat} (inv : Inv w g none)
    (sized : w.arena.bins (binIndex regSize) = Bin.zero → regSize = classSize (binIndex regSize)) :
    wlp (arenaGetBinByRegSize regSize) (fun _ w' => Ledger .empty w .empty w') w := by
  unfold arenaGetBinByRegSize
  simp only [wlp_bind, wlp_get]
  rcases inv.bins (binIndex regSize) with zero | ready
  · have clear : (w.arena.bins (binIndex regSize)).regSize = 0 := by
      rw [zero]
      rfl
    rw [if_pos clear, wlp_bind]
    unfold binInit
    by_cases nothing : regSize = 0
    · rw [if_pos nothing]
      exact wlp_crash
    · rw [if_neg nothing, wlp_modify, wlp_pure, congrArg Bin.init (sized zero)]
      generalize binIndex regSize = c at zero ⊢
      have entries := initBin_entries zero
      have located : ∀ p o n, Located (w.setBin c (Bin.init (classSize c))) p o n ↔
          Located w p o n := by
        intro p o n
        cases o with
        | huge huge => exact Iff.rfl
        | regular d e r =>
            rw [located_regular, located_regular, initBin_region zero]
      refine Ledger.same ?_ rfl ?_ fun _ _ => rfl
      · unfold World.strays
        simp only [entries]
        rfl
      · unfold World.starts
        simp only [located]
  · have facts := classSize_facts _ ready.isClass
    have set : (w.arena.bins (binIndex regSize)).regSize ≠ 0 := by
      rw [ready.regSize]
      omega
    rw [if_neg set]
    exact (wlp_pure _).mpr (.refl _ w)

theorem allocateRegular_ledger {fuel size : Nat} (inv : Inv w g none) (stocked : Stocked w)
    (isClass : binIndex (alignupSize size) < 43)
    (sized : w.arena.bins (binIndex (alignupSize size)) = Bin.zero →
      alignupSize size = classSize (binIndex (alignupSize size))) :
    wlp (allocateRegular env fuel size) (fun ptr w' => Ledger .empty w (.ptr ptr) w') w := by
  unfold allocateRegular
  rw [wlp_bind]
  refine wlp_mono (wlp_both (@arenaGetBinByRegSize_wp mayEnd w g _ inv isClass sized)
    (arenaGetBinByRegSize_ledger inv sized)) ?_
  generalize binIndex (alignupSize size) = b at isClass sized ⊢
  intro c w₁ post
  rcases post with ⟨⟨rfl, bin, rfl, inv₁, -, ready, avail⟩, first⟩
  have same : (w.setBin c bin).arena.bins c = bin := setBin_same w
  have ready' : BinReady c ((w.setBin c bin).arena.bins c) (w.setBin c bin).runs := by
    rw [same]
    exact ready
  generalize w.setBin c bin = w₁ at inv₁ same ready' first ⊢
  rw [wlp_bind, wlp_get]
  by_cases empty : (w₁.arena.bins c).availRegs = 0
  · simp only [if_pos empty, wlp_bind]
    refine wlp_mono (wlp_both (@arenaSupplyRuns_wp mayEnd w₁ g env c fuel inv₁ ready' empty
      fun _ => trivial) (arenaSupplyRuns_ledger inv₁ ready' empty)) ?_
    intro _ w₂ post
    rcases post with ⟨⟨supplied, -⟩, second⟩
    rcases supplied.inv with ⟨g', inv₂⟩
    have bound := @runsNeeded_bound c 0 isClass rfl
    have avail' := supplied.avail
    have stock : binMinimumRegions - 1 ≤ (w₂.arena.bins c).availRegs := by omega
    refine wlp_mono (seallocAllocateWithBin_ledger inv₂ stock) ?_
    exact fun ptr w₃ later => first.trans (second.trans later)
  · simp only [if_neg empty]
    have stock : binMinimumRegions - 1 ≤ (w₁.arena.bins c).availRegs := by
      rw [same, avail] at empty ⊢
      rcases stocked c with zero | enough
      · rw [zero] at empty
        exact absurd rfl empty
      · exact enough
    refine wlp_mono (seallocAllocateWithBin_ledger inv₁ stock) ?_
    exact fun ptr w₃ later => first.trans later

end Regions

end Sealloc
