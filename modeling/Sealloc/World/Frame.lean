import Sealloc.World.Invariant

/-! What a step of the allocator leaves alone: the allocated regions and their bytes, and the
freed ones, which no step brings back. -/

namespace Sealloc

open Library Chunk

/-- The internal mappings are valid allocators on ranges of their own. -/
structure RootsOk (w : World) : Prop where
  nodup : w.arena.internalAllocList.Nodup
  valid : ∀ root ∈ w.arena.internalAllocList, (w.intAllocs root).Valid
  bounds : ∀ root ∈ w.arena.internalAllocList, root + alignupPage intAllocSizeof ≤ userspaceEnd
  unique : ∀ root root' x, root ∈ w.arena.internalAllocList → root' ∈ w.arena.internalAllocList →
    root ≤ x → x < root + alignupPage intAllocSizeof →
    root' ≤ x → x < root' + alignupPage intAllocSizeof → root = root'
  mapped : ∀ x, Internal w.arena.internalAllocList x → w.Mapped x
  aligned : ∀ root ∈ w.arena.internalAllocList, root % pageSize = 0

/-- The mappings that were granted meanwhile, and what is mapped now. -/
def Grants (w w' : World) : Prop :=
  ∃ fresh, w'.history.granted = fresh ++ w.history.granted ∧
    ∀ x, w'.Mapped x ↔ w.Mapped x ∨ ∃ span ∈ fresh, span.Holds x

/-- Only internal mappings are made and metadata blocks taken from them; the blocks for which
`gone` holds may have been given back. -/
structure MetaFrame (gone : Nat → Prop) (w w' : World) : Prop where
  chunks : w'.chunks = w.chunks
  runs : w'.runs = w.runs
  huges : w'.huges = w.huges
  chunkList : w'.arena.chunkList = w.arena.chunkList
  hugeAllocList : w'.arena.hugeAllocList = w.arena.hugeAllocList
  bins : w'.arena.bins = w.arena.bins
  brk : w.arena.brk < maxUserspaceAddr64 → w'.arena.brk < maxUserspaceAddr64
  copies : w'.history.copies = w.history.copies
  findings : w'.history.findings = w.history.findings
  runChunk : w'.history.runChunk = w.history.runChunk
  origin : w'.history.origin = w.history.origin
  calls : w.mmapCalls ≤ w'.mmapCalls
  granted : Grants w w'
  memory : ∀ x, w.Mapped x → ¬ Internal w.arena.internalAllocList x →
    w'.memory x = w.memory x
  ok : RootsOk w → RootsOk w'
  old : ∀ root ∈ w'.arena.internalAllocList, root ∈ w.arena.internalAllocList ∨
    ∀ x, root ≤ x → x < root + alignupPage intAllocSizeof → ¬ w.Mapped x
  placed : ∀ addr size, ¬ gone addr → Placed w.arena.internalAllocList w.intAllocs addr size →
    Placed w'.arena.internalAllocList w'.intAllocs addr size

section MetaFrame

variable {w w' w'' : World} {gone : Nat → Prop}

theorem Grants.mapped (grants : Grants w w') {x : Nat} (mapped : w.Mapped x) : w'.Mapped x := by
  rcases grants with ⟨fresh, -, all⟩
  exact (all x).mpr (Or.inl mapped)

theorem Grants.trans (first : Grants w w') (second : Grants w' w'') : Grants w w'' := by
  rcases first with ⟨fresh, eq, all⟩
  rcases second with ⟨fresh', eq', all'⟩
  refine ⟨fresh' ++ fresh, ?_, ?_⟩
  · rw [eq', eq, List.append_assoc]
  · intro x
    rw [all' x, all x]
    simp only [List.mem_append, or_and_right, exists_or]
    rw [or_assoc, Or.comm (a := ∃ span, span ∈ fresh' ∧ span.Holds x)]

theorem MetaFrame.trans (first : MetaFrame gone w w') (second : MetaFrame gone w' w'') :
    MetaFrame gone w w'' where
  chunks := second.chunks.trans first.chunks
  runs := second.runs.trans first.runs
  huges := second.huges.trans first.huges
  chunkList := second.chunkList.trans first.chunkList
  hugeAllocList := second.hugeAllocList.trans first.hugeAllocList
  bins := second.bins.trans first.bins
  brk := fun below => second.brk (first.brk below)
  copies := second.copies.trans first.copies
  findings := second.findings.trans first.findings
  runChunk := second.runChunk.trans first.runChunk
  origin := second.origin.trans first.origin
  calls := first.calls.trans second.calls
  granted := first.granted.trans second.granted
  memory := by
    intro x mapped external
    have still : ¬ Internal w'.arena.internalAllocList x := by
      intro internal
      rcases internal with ⟨root, member, low, high⟩
      rcases first.old root member with before | fresh
      · exact external ⟨root, before, low, high⟩
      · exact fresh x low high mapped
    exact (second.memory x (first.granted.mapped mapped) still).trans
      (first.memory x mapped external)
  ok := fun ok => second.ok (first.ok ok)
  old := by
    intro root member
    rcases second.old root member with before | fresh
    · exact first.old root before
    · exact Or.inr fun x low high mapped => fresh x low high (first.granted.mapped mapped)
  placed := fun addr size kept placed =>
    second.placed addr size kept (first.placed addr size kept placed)

theorem MapFrame.metaFrame (frame : MapFrame w w') : MetaFrame (fun _ => False) w w' where
  chunks := frame.chunks
  runs := frame.runs
  huges := frame.huges
  chunkList := frame.chunkList
  hugeAllocList := frame.hugeAllocList
  bins := frame.bins
  brk := frame.brk
  copies := frame.copies
  findings := frame.findings
  runChunk := frame.runChunk
  origin := frame.origin
  calls := frame.calls
  granted := frame.granted
  memory := fun x mapped _ => frame.memory x mapped
  ok := by
    intro ok
    refine ⟨?_, ?_, ?_, ?_, ?_, ?_⟩
    · rw [frame.internalAllocList]
      exact ok.nodup
    · rw [frame.internalAllocList, frame.intAllocs]
      exact ok.valid
    · rw [frame.internalAllocList]
      exact ok.bounds
    · rw [frame.internalAllocList]
      exact ok.unique
    · rw [frame.internalAllocList]
      exact fun x internal => frame.mapped (ok.mapped x internal)
    · rw [frame.internalAllocList]
      exact ok.aligned
  old := by
    rw [frame.internalAllocList]
    exact fun root member => Or.inl member
  placed := by
    rw [frame.internalAllocList, frame.intAllocs]
    exact fun addr size _ placed => placed

end MetaFrame

/-- The region at `ptr` with the byte `x` was freed, and its run still exists. -/
def Freed (w : World) (ptr x : Nat) : Prop :=
  ∃ chunk b run, Region w chunk b run ptr .allocFree ∧ ptr ≤ x ∧ x < ptr + classSize b

/-- A byte `x` of a former region at `ptr` that will not be in a region again as long as nothing
is mapped over it. -/
def Spent (w : World) (ptr x : Nat) : Prop := Freed w ptr x ∨ ¬ w.Mapped x

/-- Allocated regions, but for those at pointers in `lost`, stay allocated with their bytes;
spent bytes stay spent, but for those that are mapped again. -/
structure Keeps (lost : Nat → Prop) (w w' : World) : Prop where
  located : ∀ ptr origin len, ¬ lost ptr → Located w ptr origin len → Located w' ptr origin len
  bytes : ∀ ptr origin len x, ¬ lost ptr → Located w ptr origin len → ptr ≤ x → x < ptr + len →
    w'.memory x = w.memory x
  spent : ∃ fresh, w'.history.granted = fresh ++ w.history.granted ∧
    ∀ ptr x, Spent w ptr x → Spent w' ptr x ∨ ∃ span ∈ fresh, span.Holds x

section Keeps

variable {w w' w'' : World} {g : Layout} {pending : Option (Nat × Nat)} {lost lost' : Nat → Prop}

theorem Keeps.trans (first : Keeps lost w w') (second : Keeps lost' w' w'') :
    Keeps (fun ptr => lost ptr ∨ lost' ptr) w w'' where
  located := by
    intro ptr origin len kept located
    apply second.located ptr origin len fun is => kept (Or.inr is)
    exact first.located ptr origin len (fun is => kept (Or.inl is)) located
  bytes := by
    intro ptr origin len x kept located low high
    have still := first.located ptr origin len (fun is => kept (Or.inl is)) located
    have before := first.bytes ptr origin len x (fun is => kept (Or.inl is)) located low high
    have after := second.bytes ptr origin len x (fun is => kept (Or.inr is)) still low high
    exact after.trans before
  spent := by
    rcases first.spent with ⟨fresh, eq, all⟩
    rcases second.spent with ⟨fresh', eq', all'⟩
    refine ⟨fresh' ++ fresh, ?_, ?_⟩
    · rw [eq', eq, List.append_assoc]
    · intro ptr x spent
      rcases all ptr x spent with spent | ⟨span, member, holds⟩
      · rcases all' ptr x spent with spent | ⟨span, member, holds⟩
        · exact Or.inl spent
        · exact Or.inr ⟨span, List.mem_append_left _ member, holds⟩
      · exact Or.inr ⟨span, List.mem_append_right _ member, holds⟩

theorem Keeps.mono (keeps : Keeps lost w w') (fewer : ∀ ptr, lost ptr → lost' ptr) :
    Keeps lost' w w' where
  located := fun ptr origin len kept => keeps.located ptr origin len fun is => kept (fewer ptr is)
  bytes := fun ptr origin len x kept => keeps.bytes ptr origin len x fun is => kept (fewer ptr is)
  spent := keeps.spent

/-- Two steps that lose no region. -/
theorem Keeps.all (first : Keeps (fun _ => False) w w') (second : Keeps (fun _ => False) w' w'') :
    Keeps (fun _ => False) w w'' :=
  (first.trans second).mono fun _ is => is.elim id id

theorem Keeps.refl (w : World) : Keeps lost w w where
  located := fun _ _ _ _ located => located
  bytes := fun _ _ _ _ _ _ _ _ => rfl
  spent := ⟨[], rfl, fun _ _ spent => Or.inl spent⟩

/-- A step that keeps every region state, the huge mappings and the user bytes. -/
theorem Keeps.of_regions (granted : Grants w w')
    (regions : ∀ chunk b run ptr s, s ≠ .free → Region w chunk b run ptr s →
      Region w' chunk b run ptr s)
    (huges : ∀ huge ∈ w.arena.hugeAllocList, huge ∈ w'.arena.hugeAllocList ∧
      w'.huges huge = w.huges huge)
    (memory : ∀ x, UserByte w x → w'.memory x = w.memory x) : Keeps lost w w' where
  located := by
    intro ptr origin len _ located
    cases origin with
    | regular chunk b run =>
        exact ⟨regions chunk b run ptr .alloc (by decide) located.1, located.2⟩
    | huge huge =>
        rcases located with ⟨member, key, length⟩
        have kept := huges huge member
        refine ⟨kept.1, ?_, ?_⟩
        · rw [kept.2]
          exact key
        · rw [kept.2]
          exact length
  bytes := by
    intro ptr origin len x _ located low high
    exact memory x ⟨ptr, origin, len, located, low, high⟩
  spent := by
    rcases granted with ⟨fresh, eq, all⟩
    refine ⟨fresh, eq, ?_⟩
    intro ptr x spent
    rcases spent with ⟨chunk, b, run, region, inside⟩ | unmapped
    · have still := regions chunk b run ptr .allocFree (by decide) region
      exact Or.inl (Or.inl ⟨chunk, b, run, still, inside⟩)
    · by_cases mapped : w'.Mapped x
      · exact Or.inr (((all x).mp mapped).resolve_left unmapped)
      · exact Or.inl (Or.inr mapped)

/-- Steps on metadata blocks lose no region. -/
theorem MetaFrame.keeps {gone : Nat → Prop} (inv : Inv w g pending) (frame : MetaFrame gone w w') :
    Keeps lost w w' := by
  apply Keeps.of_regions frame.granted
  · intro chunk b run ptr s _ region
    unfold Region Arena.entries at region ⊢
    rw [frame.bins, frame.runs, frame.runChunk]
    exact region
  · intro huge member
    rw [frame.hugeAllocList, frame.huges]
    exact ⟨member, rfl⟩
  · intro x user
    have external := inv.user_external user
    exact frame.memory x external.1 external.2

theorem Inv.rootsOk (inv : Inv w g pending) : RootsOk w where
  nodup := inv.blocks.distinct
  valid := inv.blocks.valid
  bounds := inv.blocks.bounds
  unique := by
    intro root root' x member member' low high low' high'
    have same := inv.owner (.internal root) (.internal root') x ⟨member, low, high⟩
      ⟨member', low', high'⟩
    rw [Owner.internal.injEq] at same
    exact same
  mapped := by
    intro x internal
    rcases internal with ⟨root, member, low, high⟩
    exact inv.owned (.internal root) x ⟨member, low, high⟩
  aligned := inv.blocks.aligned

theorem MetaFrame.entries {gone : Nat → Prop} (frame : MetaFrame gone w w') :
    w'.arena.entries = w.arena.entries ∧ w'.arena.metaSize = w.arena.metaSize := by
  constructor
  · funext kind
    cases kind with
    | chunk => exact frame.chunkList
    | huge => exact frame.hugeAllocList
    | run b =>
        unfold Arena.entries
        rw [frame.bins]
  · funext kind
    cases kind with
    | chunk => rfl
    | huge => rfl
    | run b =>
        unfold Arena.metaSize
        rw [frame.bins]

/-- Steps on metadata blocks keep the invariant, if no block in use is given back. -/
theorem Inv.metaFrame {gone : Nat → Prop} (inv : Inv w g pending) (frame : MetaFrame gone w w')
    (unused : ∀ kind addr, addr ∈ w.arena.entries kind → ¬ gone addr) : Inv w' g pending := by
  rcases frame.entries with ⟨entries, sizes⟩
  have ok := frame.ok inv.rootsOk
  have mapped : ∀ x, w.Mapped x → w'.Mapped x := fun x => frame.granted.mapped
  have ownsChunk : ∀ chunk x, Owns w' g (.chunk chunk) x ↔ Owns w g (.chunk chunk) x := by
    intro chunk x
    unfold Owns
    rw [frame.chunkList, frame.chunks]
  have ownsHuge : ∀ huge x, Owns w' g (.huge huge) x ↔ Owns w g (.huge huge) x := by
    intro huge x
    unfold Owns
    rw [frame.hugeAllocList, frame.huges]
  have apart : ∀ root x o, Owns w' g (.internal root) x → Owns w g o x →
      (∀ root', o ≠ .internal root') → False := by
    intro root x o internal other outside
    rcases frame.old root internal.1 with before | fresh
    · have same := inv.owner (.internal root) o x ⟨before, internal.2⟩ other
      exact outside root same.symm
    · exact fresh x internal.2.1 internal.2.2 (inv.owned o x other)
  refine ⟨frame.brk inv.brk, ⟨ok.nodup, ok.valid, ok.bounds, ok.aligned, ?_, ?_, ?_⟩, ?_, ?_, ?_, ?_, ?_, ?_,
    ?_, ?_, ?_, ?_, ?_, ?_, ?_⟩
  · rw [entries, sizes]
    intro kind addr member
    exact frame.placed addr _ (unused kind addr member) (inv.blocks.placed kind addr member)
  · rw [entries]
    exact inv.blocks.single
  · rw [entries]
    exact inv.blocks.nodup
  · rw [frame.chunkList, frame.chunks]
    exact inv.chunks
  · rw [entries, frame.runChunk, frame.chunkList]
    exact inv.known
  · rw [entries, frame.runChunk, frame.chunks, frame.runs]
    exact inv.runs
  · rw [entries, frame.runChunk, frame.chunkList]
    exact inv.cover
  · rw [entries, frame.runChunk]
    exact inv.same
  · rw [entries, frame.runChunk, frame.chunkList]
    exact inv.waits
  · rw [frame.bins, frame.runs]
    exact inv.bins
  · rw [frame.hugeAllocList, frame.huges]
    exact inv.huges
  · intro o o' x one two
    cases o with
    | internal root =>
        cases o' with
        | internal root' =>
            have same := ok.unique root root' x one.1 two.1 one.2.1 one.2.2 two.2.1 two.2.2
            rw [same]
        | chunk chunk =>
            exact (apart root x _ one ((ownsChunk chunk x).mp two) (by simp)).elim
        | huge huge =>
            exact (apart root x _ one ((ownsHuge huge x).mp two) (by simp)).elim
    | chunk chunk =>
        cases o' with
        | internal root' =>
            exact (apart root' x _ two ((ownsChunk chunk x).mp one) (by simp)).elim
        | chunk chunk' =>
            exact inv.owner _ _ x ((ownsChunk chunk x).mp one) ((ownsChunk chunk' x).mp two)
        | huge huge' =>
            exact inv.owner _ _ x ((ownsChunk chunk x).mp one) ((ownsHuge huge' x).mp two)
    | huge huge =>
        cases o' with
        | internal root' =>
            exact (apart root' x _ two ((ownsHuge huge x).mp one) (by simp)).elim
        | chunk chunk' =>
            exact inv.owner _ _ x ((ownsHuge huge x).mp one) ((ownsChunk chunk' x).mp two)
        | huge huge' =>
            exact inv.owner _ _ x ((ownsHuge huge x).mp one) ((ownsHuge huge' x).mp two)
  · intro o x owns
    cases o with
    | internal root => exact ok.mapped x ⟨root, owns.1, owns.2⟩
    | chunk chunk => exact mapped x (inv.owned _ x ((ownsChunk chunk x).mp owns))
    | huge huge => exact mapped x (inv.owned _ x ((ownsHuge huge x).mp owns))
  · intro x now
    rcases frame.granted with ⟨fresh, eq, all⟩
    rw [eq]
    rcases (all x).mp now with before | ⟨span, member, holds⟩
    · rcases inv.granted x before with ⟨span, member, holds⟩
      exact ⟨span, List.mem_append_right _ member, holds⟩
    · exact ⟨span, List.mem_append_left _ member, holds⟩
  · rw [frame.findings]
    exact inv.findings
  · intro ptr origin len located
    rw [frame.origin]
    apply inv.origin ptr origin len
    unfold Located Region at located ⊢
    rw [entries, frame.runChunk, frame.runs, frame.hugeAllocList, frame.huges] at located
    exact located

/-- A store to a metadata block does not hit user memory. -/
theorem Inv.user_apart (inv : Inv w g pending) {addr size x : Nat} (user : UserByte w x)
    (placed : Placed w.arena.internalAllocList w.intAllocs addr size) :
    ¬ (addr ≤ x ∧ x < addr + size) := by
  intro inside
  exact (inv.user_external user).2 (placed.internal inside.1 inside.2)

/-- Who owns what depends on the lists, the places and the dead runs only. -/
theorem owns_congr {g' : Layout}
    (roots : w'.arena.internalAllocList = w.arena.internalAllocList)
    (chunkList : w'.arena.chunkList = w.arena.chunkList)
    (hugeAllocList : w'.arena.hugeAllocList = w.arena.hugeAllocList)
    (keys : ∀ chunk ∈ w.arena.chunkList, (w'.chunks chunk).key = (w.chunks chunk).key)
    (dead : ∀ chunk ∈ w.arena.chunkList, g'.dead chunk = g.dead chunk)
    (huges : ∀ huge ∈ w.arena.hugeAllocList, w'.huges huge = w.huges huge) (o : Owner) (x : Nat) :
    Owns w' g' o x ↔ Owns w g o x := by
  cases o with
  | internal root =>
      unfold Owns
      rw [roots]
  | chunk chunk =>
      unfold Owns
      rw [chunkList]
      apply and_congr_right
      intro member
      rw [keys chunk member, dead chunk member]
  | huge huge =>
      unfold Owns
      rw [hugeAllocList]
      apply and_congr_right
      intro member
      rw [huges huge member]

theorem RunPlace.chunk {ck ck' : Chunk} {live live' : List Nat} {run : Run} {n b : Nat}
    (place : RunPlace ck live run n b) (key : ck'.key = ck.key) (still : n ∈ live')
    (table : reportedSize ck' n = reportedSize ck n) : RunPlace ck' live' run n b where
  isClass := place.isClass
  live := still
  key := by
    rw [key]
    exact place.key
  size := by
    rw [key]
    exact place.size
  inv := place.inv
  table := table.trans place.table

section MetaInv

variable {roots : List Nat} {ias : Nat → IntAlloc} {entries entries' : Kind → List Nat}
  {size size' : Kind → Nat}

/-- Lists without new entries. -/
theorem MetaInv.fewer (inv : MetaInv roots ias entries size)
    (members : ∀ kind addr, addr ∈ entries' kind → addr ∈ entries kind ∧ size' kind = size kind)
    (nodup : ∀ kind, (entries' kind).Nodup) : MetaInv roots ias entries' size' where
  distinct := inv.distinct
  valid := inv.valid
  bounds := inv.bounds
  aligned := inv.aligned
  placed := by
    intro kind addr member
    have before := members kind addr member
    rw [before.2]
    exact inv.placed kind addr before.1
  single := by
    intro kind kind' addr member member'
    exact inv.single kind kind' addr (members kind addr member).1 (members kind' addr member').1
  nodup := nodup

/-- A new entry on the lists of one kind. -/
theorem MetaInv.add {addr : Nat} (inv : MetaInv roots ias entries size) (kind : Kind)
    (unused : ∀ k, addr ∉ entries k) (placed : Placed roots ias addr (size kind))
    (here : entries' kind = addr :: entries kind)
    (others : ∀ k, k ≠ kind → entries' k = entries k) (sizes : size' = size) :
    MetaInv roots ias entries' size' where
  distinct := inv.distinct
  valid := inv.valid
  bounds := inv.bounds
  aligned := inv.aligned
  placed := by
    intro k a member
    rw [sizes]
    by_cases same : k = kind
    · rw [same] at member ⊢
      rw [here] at member
      rcases List.mem_cons.mp member with rfl | before
      · exact placed
      · exact inv.placed kind a before
    · rw [others k same] at member
      exact inv.placed k a member
  single := by
    intro k k' a member member'
    by_cases new : a = addr
    · have only : ∀ j, a ∈ entries' j → j = kind := by
        intro j inside
        by_contra different
        rw [others j different, new] at inside
        exact unused j inside
      exact (only k member).trans (only k' member').symm
    · have before : ∀ j, a ∈ entries' j → a ∈ entries j := by
        intro j inside
        by_cases same : j = kind
        · rw [same] at inside ⊢
          rw [here] at inside
          exact (List.mem_cons.mp inside).resolve_left new
        · rwa [others j same] at inside
      exact inv.single k k' a (before k member) (before k' member')
  nodup := by
    intro k
    by_cases same : k = kind
    · rw [same, here]
      exact List.nodup_cons.mpr ⟨unused kind, inv.nodup kind⟩
    · rw [others k same]
      exact inv.nodup k

end MetaInv

/-- A block that was just taken is on no list. -/
theorem MetaInv.unused {roots : List Nat} {ias : Nat → IntAlloc}
    {entries : Kind → List Nat} {size : Kind → Nat} {addr : Nat}
    (inv : MetaInv roots ias entries size) (fresh : ∀ s, ¬ Placed roots ias addr s) (kind : Kind) :
    addr ∉ entries kind := fun member => fresh _ (inv.placed kind addr member)

/-- Nobody owns a byte of a range that was just mapped. -/
theorem Inv.unowned {span : Span} (inv : Inv w g pending) (frame : MapFrame w w')
    (fresh : FreshMap w w' span) (o : Owner) (x : Nat) (holds : span.Holds x) :
    ¬ Owns w' g o x := by
  intro owns
  apply fresh.before x holds
  apply inv.owned o x
  apply (owns_congr frame.internalAllocList frame.chunkList frame.hugeAllocList ?_
    (fun _ _ => rfl) ?_ o x).mp owns
  · intro chunk _
    rw [frame.chunks]
  · intro huge _
    rw [frame.huges]

end Keeps

/-- A step that allocates and loses nothing. -/
structure Grows (w w' : World) : Prop where
  keeps : Keeps (fun _ => False) w w'
  copies : w'.history.copies = w.history.copies
  calls : w.mmapCalls ≤ w'.mmapCalls

section Grows

variable {w w' w'' : World} {g : Layout} {pending : Option (Nat × Nat)}

theorem Grows.refl (w : World) : Grows w w := ⟨Keeps.refl w, rfl, Nat.le_refl _⟩

theorem Grows.trans (first : Grows w w') (second : Grows w' w'') : Grows w w'' where
  keeps := first.keeps.all second.keeps
  copies := second.copies.trans first.copies
  calls := first.calls.trans second.calls

theorem MetaFrame.grows {gone : Nat → Prop} (inv : Inv w g pending) (frame : MetaFrame gone w w') :
    Grows w w' := ⟨frame.keeps inv, frame.copies, frame.calls⟩

end Grows

end Sealloc
