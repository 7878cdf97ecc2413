import Sealloc.World.Quiet
import Sealloc.World.Session

/-! Whatever the allocator does, each mapping that it keeps an entry for was granted to it: the
entries of a later state are entries of the earlier one or ranges that were granted since. -/

namespace Sealloc

open Library Chunk

/-- The mappings of a kind that the arena keeps: chunks with all of their 32 MiB, huge mappings,
and those of the internal allocator. -/
def World.spans (w : World) : ProbePtr → List Span
  | .chunkAlloc => w.arena.chunkList.map fun chunk => ⟨(w.chunks chunk).key, chunkSizeBytes⟩
  | .hugeAlloc => w.arena.hugeAllocList.map fun huge => ⟨(w.huges huge).key, (w.huges huge).len⟩
  | .internalAlloc => w.arena.internalAllocList.map fun root => ⟨root, alignupPage intAllocSizeof⟩

/-- A range that was granted between two states. -/
def GrantedSince (w w' : World) (span : Span) : Prop :=
  ∃ fresh, w'.history.granted = fresh ++ w.history.granted ∧ span ∈ fresh

/-- What is mapped or kept was so before or was granted since; a range of `extra` may be kept as
well. -/
structure SpanFrame (extra : List Span) (w w' : World) : Prop where
  granted : ∃ fresh, w'.history.granted = fresh ++ w.history.granted
  mapped : ∀ x, w'.Mapped x → w.Mapped x ∨ ∃ span, GrantedSince w w' span ∧ span.Holds x
  spans : ∀ which, ∀ span ∈ w'.spans which,
    span ∈ w.spans which ∨ GrantedSince w w' span ∨ span ∈ extra

section Frame

variable {extra : List Span} {w w' w'' : World} {span : Span}

theorem GrantedSince.later (since : GrantedSince w w' span)
    (granted : ∃ fresh, w''.history.granted = fresh ++ w'.history.granted) :
    GrantedSince w w'' span := by
  rcases since with ⟨fresh, eq, member⟩
  rcases granted with ⟨fresh', eq'⟩
  refine ⟨fresh' ++ fresh, ?_, List.mem_append_right _ member⟩
  rw [eq', eq, List.append_assoc]

theorem GrantedSince.earlier (since : GrantedSince w' w'' span)
    (granted : ∃ fresh, w'.history.granted = fresh ++ w.history.granted) :
    GrantedSince w w'' span := by
  rcases since with ⟨fresh, eq, member⟩
  rcases granted with ⟨fresh', eq'⟩
  refine ⟨fresh ++ fresh', ?_, List.mem_append_left _ member⟩
  rw [eq, eq', List.append_assoc]

theorem SpanFrame.refl (w : World) : SpanFrame extra w w where
  granted := ⟨[], rfl⟩
  mapped := fun _ mapped => Or.inl mapped
  spans := fun _ _ member => Or.inl member

/-- A range that was granted in the first step may be kept in the second. -/
theorem SpanFrame.trans_keep (kept : List Span) (first : SpanFrame extra w w')
    (since : ∀ span ∈ kept, GrantedSince w w' span) (second : SpanFrame (kept ++ extra) w' w'') :
    SpanFrame extra w w'' where
  granted := by
    rcases first.granted with ⟨fresh, eq⟩
    rcases second.granted with ⟨fresh', eq'⟩
    exact ⟨fresh' ++ fresh, by rw [eq', eq, List.append_assoc]⟩
  mapped := by
    intro x mapped
    rcases second.mapped x mapped with before | ⟨span, new, holds⟩
    · rcases first.mapped x before with before | ⟨span, new, holds⟩
      · exact Or.inl before
      · exact Or.inr ⟨span, new.later second.granted, holds⟩
    · exact Or.inr ⟨span, new.earlier first.granted, holds⟩
  spans := by
    intro which span member
    rcases second.spans which span member with before | new | other
    · rcases first.spans which span before with before | new | other
      · exact Or.inl before
      · exact Or.inr (Or.inl (new.later second.granted))
      · exact Or.inr (Or.inr other)
    · exact Or.inr (Or.inl (new.earlier first.granted))
    · rcases List.mem_append.mp other with isKept | isExtra
      · exact Or.inr (Or.inl ((since span isKept).later second.granted))
      · exact Or.inr (Or.inr isExtra)

theorem SpanFrame.trans (first : SpanFrame extra w w') (second : SpanFrame extra w' w'') :
    SpanFrame extra w w'' :=
  first.trans_keep [] (fun _ none => absurd none List.not_mem_nil) second

instance : IsPreorder World (SpanFrame extra) where
  refl := SpanFrame.refl
  trans _ _ _ := SpanFrame.trans

/-- A step that maps nothing and adds no entry. -/
theorem SpanFrame.shrink (granted : w'.history.granted = w.history.granted)
    (mapped : ∀ x, w'.Mapped x → w.Mapped x)
    (spans : ∀ which, ∀ span ∈ w'.spans which, span ∈ w.spans which ∨ span ∈ extra) :
    SpanFrame extra w w' where
  granted := ⟨[], granted⟩
  mapped := fun x now => Or.inl (mapped x now)
  spans := by
    intro which span member
    rcases spans which span member with before | isExtra
    · exact Or.inl before
    · exact Or.inr (Or.inr isExtra)

/-- A step that changes neither mappings nor entries. -/
theorem SpanFrame.quiet (granted : w'.history.granted = w.history.granted)
    (maps : w'.maps = w.maps) (spans : w'.spans = w.spans) : SpanFrame extra w w' := by
  apply SpanFrame.shrink granted
  · intro x mapped
    unfold World.Mapped at mapped ⊢
    rwa [maps] at mapped
  · intro which span member
    rw [spans] at member
    exact Or.inl member

theorem Quiet.spans (quiet : Quiet w w') : SpanFrame extra w w' := by
  refine .quiet quiet.granted quiet.maps ?_
  funext which
  unfold World.spans
  rw [quiet.chunkList, quiet.hugeAllocList, quiet.internalAllocList, quiet.chunks, quiet.huges]

theorem quiet_spans {α : Type} {x : Prog World α} (quiet : Steps Quiet x) :
    Steps (SpanFrame extra) x := quiet.mono Quiet.spans

/-- A step that adds an entry for a range that may be kept. -/
theorem SpanFrame.enter (kept : span ∈ extra) (granted : w'.history.granted = w.history.granted)
    (maps : w'.maps = w.maps)
    (spans : ∀ which, w'.spans which = w.spans which ∨ w'.spans which = span :: w.spans which) :
    SpanFrame extra w w' := by
  apply SpanFrame.shrink granted
  · intro x mapped
    unfold World.Mapped at mapped ⊢
    rwa [maps] at mapped
  · intro which other member
    rcases spans which with same | added
    · rw [same] at member
      exact Or.inl member
    · rw [added] at member
      rcases List.mem_cons.mp member with new | old
      · rw [new]
        exact Or.inr kept
      · exact Or.inl old

/-- A program that first has a range granted and then may keep it. -/
theorem Steps.obtain {α β : Type} {x : Prog World α} {f : α → Prog World β} (got : α → Span)
    (first : ∀ w, wlp x (fun a w' => SpanFrame extra w w' ∧ GrantedSince w w' (got a)) w)
    (rest : ∀ a, Steps (SpanFrame (got a :: extra)) (f a)) : Steps (SpanFrame extra) (x >>= f) := by
  intro w
  rw [wlp_bind]
  refine wlp_mono (first w) ?_
  intro a w' post
  rcases post with ⟨frame, since⟩
  refine wlp_mono (rest a w') ?_
  intro b w'' frame'
  apply frame.trans_keep [got a] _ frame'
  intro span member
  rw [List.mem_singleton.mp member]
  exact since

end Frame

section Maps

variable {extra : List Span} {w : World} {env : Env}

theorem countMmap_spans (w : World) : SpanFrame extra w w.countMmap := .quiet rfl rfl rfl

theorem addMap_spans (w : World) (span : Span) :
    SpanFrame extra w (w.addMap span) ∧ GrantedSince w (w.addMap span) span := by
  have since : GrantedSince w (w.addMap span) span := ⟨[span], rfl, List.mem_singleton.mpr rfl⟩
  refine ⟨⟨⟨[span], rfl⟩, ?_, fun _ _ member => Or.inl member⟩, since⟩
  intro x mapped
  rcases (mapped_addMap w span x).mp mapped with before | holds
  · exact Or.inl before
  · exact Or.inr ⟨span, since, holds⟩

theorem mmap_spans (hint len : Nat) (w : World) :
    wlp (mmap env hint len) (fun reply w' => SpanFrame extra w w' ∧
      ∀ map, reply = .granted map → GrantedSince w w' ⟨map, len⟩) w := by
  intro reply w' run
  unfold mmap at run
  have refused : ∀ errno, Outcome.ok (MmapReply.failed errno) w.countMmap = .ok reply w' →
      SpanFrame extra w w' ∧ ∀ map, reply = .granted map → GrantedSince w w' ⟨map, len⟩ := by
    intro errno same
    injection same with value state
    rw [← value, ← state]
    exact ⟨countMmap_spans w, fun map impossible => nomatch impossible⟩
  by_cases empty : len = 0
  · rw [if_pos empty] at run
    exact refused _ run
  · rw [if_neg empty] at run
    cases answer : env.mmap w.mmapCalls hint len with
    | failed errno =>
        simp only [answer] at run
        exact refused _ run
    | granted addr =>
        simp only [answer] at run
        by_cases free : Grantable w.maps ⟨addr, len⟩
        · rw [if_pos free] at run
          injection run with value state
          rw [← value, ← state]
          have added := @addMap_spans extra w.countMmap ⟨addr, len⟩
          refine ⟨(countMmap_spans w).trans added.1, ?_⟩
          intro map same
          rw [← MmapReply.granted.inj same]
          exact added.2.earlier ⟨[], rfl⟩
        · rw [if_neg free] at run
          exact refused _ run

/-- What a probe for memory leaves, and the range that it got. -/
def ProbeSpans (extra : List Span) (len : Nat) (w : World) (out : PlatformStatus × Nat)
    (w' : World) : Prop :=
  SpanFrame extra w w' ∧ (out.1.Mapped → GrantedSince w w' ⟨out.2, len⟩)

theorem platformMapProbeLoop_spans (probe ceiling len : Nat) : ∀ fuel newProbe (w : World),
    wlp (platformMapProbeLoop env probe ceiling len fuel newProbe) (ProbeSpans extra len w) w := by
  intro fuel
  induction fuel with
  | zero =>
      intro newProbe w
      exact wlp_outOfFuel
  | succ fuel ih =>
      intro newProbe w
      unfold platformMapProbeLoop
      rw [wlp_bind]
      refine wlp_mono (@mmap_spans extra env newProbe len w) ?_
      intro reply w' post
      rcases post with ⟨frame, granted⟩
      have again : ∀ next, wlp (platformMapProbeLoop env probe ceiling len fuel next)
          (ProbeSpans extra len w) w' := by
        intro next
        refine wlp_mono (ih next w') ?_
        intro out w'' probed
        exact ⟨frame.trans probed.1, fun mapped => (probed.2 mapped).earlier frame.granted⟩
      have plain : ∀ code value, ¬ PlatformStatus.Mapped code →
          wlp (return (code, value)) (ProbeSpans extra len w) w' := by
        intro code value unmapped
        exact (wlp_pure _).mpr ⟨frame, fun mapped => absurd mapped unmapped⟩
      cases reply with
      | granted map =>
          have since := granted map rfl
          by_cases null : map = 0
          · simp only [if_pos null]
            exact again newProbe
          · by_cases other : map ≠ newProbe
            · simp only [if_neg null, if_pos other]
              exact (wlp_pure _).mpr ⟨frame, fun _ => since⟩
            · simp only [if_neg null, if_neg other]
              exact (wlp_pure _).mpr ⟨frame, fun _ => since⟩
      | failed errno =>
          cases errno with
          | eexist =>
              by_cases ceilingHit : u64 (newProbe + pageSize) ≥ ceiling
              · simp only [if_pos ceilingHit]
                exact plain _ _ id
              · simp only [if_neg ceilingHit]
                exact again _
          | einval => exact plain _ _ (getErrorFromErrno_mapped _)
          | enomem => exact plain _ _ (getErrorFromErrno_mapped _)
          | other => exact plain _ _ (getErrorFromErrno_mapped _)

theorem platformMapProbe_spans (fuel probe ceiling len : Nat) (w : World) :
    wlp (platformMapProbe env fuel probe ceiling len) (ProbeSpans extra len w) w := by
  unfold platformMapProbe
  by_cases above : probe ≥ ceiling
  · rw [if_pos above]
    exact (wlp_pure _).mpr ⟨SpanFrame.refl w, fun impossible => absurd impossible id⟩
  · rw [if_neg above]
    exact platformMapProbeLoop_spans probe ceiling len fuel probe w

theorem arenaMorecoreLoop_spans {which : ProbePtr} {reset : Prog World Unit}
    (resets : Steps Quiet reset) (inner size : Nat) (ceil : Arena → Nat) :
    ∀ fuel (w : World), wlp (arenaMorecoreLoop env inner which reset size ceil fuel)
      (fun map w' => SpanFrame extra w w' ∧ GrantedSince w w' ⟨map, size⟩) w := by
  intro fuel
  induction fuel with
  | zero =>
      intro w
      exact wlp_outOfFuel
  | succ fuel ih =>
      intro w
      unfold arenaMorecoreLoop
      simp only [wlp_bind, wlp_get]
      refine wlp_mono (@platformMapProbe_spans extra env inner _ _ size w) ?_
      intro out w₁ probed
      rcases out with ⟨code, probe⟩
      rcases probed with ⟨frame, found⟩
      refine wlp_mono (setProbe_quiet which probe w₁) ?_
      intro _ w₂ quiet
      have moved : SpanFrame extra w₁ w₂ := quiet.spans
      have so_far := frame.trans moved
      have again : ∀ w₃, SpanFrame extra w w₃ →
          wlp (arenaMorecoreLoop env inner which reset size ceil fuel)
            (fun map w' => SpanFrame extra w w' ∧ GrantedSince w w' ⟨map, size⟩) w₃ := by
        intro w₃ before
        refine wlp_mono (ih w₃) ?_
        intro map w₄ post
        exact ⟨before.trans post.1, post.2.earlier before.granted⟩
      have done : ∀ w₃, SpanFrame extra w₂ w₃ → code.Mapped →
          SpanFrame extra w w₃ ∧ GrantedSince w w₃ ⟨probe, size⟩ := by
        intro w₃ after mapped
        exact ⟨so_far.trans after, (found mapped).later (moved.trans after).granted⟩
      cases code with
      | ok => exact (wlp_pure _).mpr (done w₂ (SpanFrame.refl w₂) trivial)
      | ceilingHit =>
          simp only [wlp_bind]
          refine wlp_mono (resets w₂) ?_
          intro _ w₃ after
          exact again w₃ (so_far.trans after.spans)
      | differentAddress =>
          simp only [wlp_bind]
          refine wlp_mono (resets w₂) ?_
          intro _ w₃ after
          exact (wlp_pure _).mpr (done w₃ after.spans trivial)
      | errUnknown => exact again w₂ so_far
      | errNomem => exact again w₂ so_far
      | errInval => exact again w₂ so_far

theorem arenaMorecore_spans {which : ProbePtr} {reset : Prog World Unit}
    (resets : Steps Quiet reset) (fuel size : Nat) (ceil : Arena → Nat) (w : World) :
    wlp (arenaMorecore env fuel which reset size ceil)
      (fun map w' => SpanFrame extra w w' ∧ GrantedSince w w' ⟨map, size⟩) w :=
  arenaMorecoreLoop_spans resets fuel size ceil fuel w

/-- The range is unmapped where `platform_unmap` returns. -/
theorem platformUnmap_unmaps (ptr len : Nat) (w : World) : wlp (platformUnmap env ptr len)
    (fun _ w' => w' = w.countMunmap.removeMap ⟨ptr, len⟩) w := by
  unfold platformUnmap
  rw [wlp_bind]
  intro reply w' run
  cases reply with
  | some errno =>
      simp only [wlp_bind, wlp_modify]
      exact wlp_exit
  | none =>
      refine (wlp_pure _).mpr ?_
      unfold munmap at run
      by_cases invalid : ptr % pageSize ≠ 0 ∨ len = 0
      · simp [invalid] at run
      · rw [if_neg invalid] at run
        cases answer : env.munmap w.munmapCalls with
        | some errno => simp [answer] at run
        | none =>
            simp only [answer] at run
            injection run with value state
            exact state.symm

theorem removeMap_spans (w : World) (span : Span) :
    SpanFrame extra w (w.countMunmap.removeMap span) := by
  refine SpanFrame.shrink rfl ?_ fun _ _ member => Or.inl member
  intro x mapped
  exact ((mapped_removeMap _ _ x).mp mapped).1

theorem platformUnmap_spans (ptr len : Nat) :
    Steps (SpanFrame extra) (platformUnmap env ptr len) := by
  intro w
  refine wlp_mono (platformUnmap_unmaps ptr len w) ?_
  intro _ w' unmapped
  rw [unmapped]
  exact removeMap_spans w _

end Maps

section Metadata

variable {extra : List Span} {env : Env}

theorem arenaInternalAlloc_spans (fuel size : Nat) :
    Steps (SpanFrame extra) (arenaInternalAlloc env fuel size) := by
  unfold arenaInternalAlloc
  refine .bind .get fun w => .bind (quiet_spans (internalAllocFrom_quiet size _)) fun found => ?_
  cases found with
  | some alloc => exact .pure _
  | none =>
      apply Steps.obtain fun map => ⟨map, alignupPage intAllocSizeof⟩
      · exact arenaMorecore_spans (resetPtrStart_quiet _) fuel _ _
      · intro map
        refine .bind (quiet_spans (skipMapping_quiet _ _ _)) fun _ => .bind (.modify ?_) fun _ =>
          .bind (.modify ?_) fun _ => quiet_spans (onIntAlloc_quiet _ _)
        · intro w
          exact .quiet rfl rfl rfl
        · intro w
          refine SpanFrame.enter List.mem_cons_self rfl rfl ?_
          intro which
          cases which with
          | chunkAlloc => exact Or.inl rfl
          | hugeAlloc => exact Or.inl rfl
          | internalAlloc => exact Or.inr rfl

end Metadata

section Keys

variable {sh : Short}

theorem initLevels_key (rounds : Nat) : ∀ i n ck, (initLevels sh rounds i n ck).key = ck.key := by
  induction rounds with
  | zero =>
      intro i n ck
      rfl
  | succ rounds ih =>
      intro i n ck
      unfold initLevels
      rw [ih]

theorem chunkInit_key (ck : Chunk) (heap : Nat) : (chunkInit sh ck heap).key = heap := by
  unfold chunkInit
  simp only
  rw [initLevels_key]
  rfl

/-- Only the free index of a chunk differs: its key and the states of its nodes are the same. -/
structure Reindexed (ck ck' : Chunk) : Prop where
  key : ck'.key = ck.key
  tree : ck'.buddyTree = ck.buddyTree

theorem Reindexed.trans {ck ck' ck'' : Chunk} (first : Reindexed ck ck')
    (second : Reindexed ck' ck'') : Reindexed ck ck'' :=
  ⟨second.key.trans first.key, second.tree.trans first.tree⟩

theorem unlinkNode_reindexed (ck : Chunk) (node : JumpNode) (idx level : Nat) :
    Reindexed ck (unlinkNode sh ck node idx level) := by
  unfold unlinkNode
  simp only
  split
  · exact ⟨rfl, rfl⟩
  · split <;> exact ⟨rfl, rfl⟩

theorem unlinkUp_reindexed (rounds : Nat) : ∀ ck node idx level,
    Reindexed ck (unlinkUp sh rounds ck node idx level) := by
  induction rounds with
  | zero => exact fun _ _ _ _ => ⟨rfl, rfl⟩
  | succ rounds ih =>
      intro ck node idx level
      unfold unlinkUp
      split
      · exact (unlinkNode_reindexed ck _ _ _).trans (ih _ _ _ _)
      · exact ⟨rfl, rfl⟩

theorem unlinkSpan_reindexed (ck : Chunk) (left right span level : Nat) :
    Reindexed ck (unlinkSpan sh ck left right span level) := by
  unfold unlinkSpan
  simp only
  split
  · exact ⟨rfl, rfl⟩
  · split
    · exact ⟨rfl, rfl⟩
    · split <;> exact ⟨rfl, rfl⟩

theorem unlinkDown_reindexed (rounds : Nat) : ∀ ck left right span level,
    Reindexed ck (unlinkDown sh rounds ck left right span level) := by
  induction rounds with
  | zero => exact fun _ _ _ _ _ => ⟨rfl, rfl⟩
  | succ rounds ih =>
      intro ck left right span level
      unfold unlinkDown
      exact (unlinkSpan_reindexed ck _ _ _ _).trans (ih _ _ _ _ _)

/-- An allocation marks its node and rewrites the free index. -/
theorem chunkAllocateWithNode_reindexed (ck : Chunk) (node : JumpNode) (idx level regSize : Nat) :
    (chunkAllocateWithNode sh ck node idx level regSize).2.key = ck.key ∧
      (chunkAllocateWithNode sh ck node idx level regSize).2.buddyTree =
        setBuddyTreeItem ck.buddyTree idx .used := by
  unfold chunkAllocateWithNode
  simp only
  split
  · exact ⟨(unlinkUp_reindexed _ _ _ _ _).key, by rw [(unlinkUp_reindexed _ _ _ _ _).tree]⟩
  · refine ⟨(unlinkDown_reindexed _ _ _ _ _ _).key.trans (unlinkUp_reindexed _ _ _ _ _).key, ?_⟩
    rw [(unlinkDown_reindexed _ _ _ _ _ _).tree, (unlinkUp_reindexed _ _ _ _ _).tree]

theorem chunkAllocateRun_key (rand : Nat → Nat) (ck : Chunk) (runSize regSize : Nat) :
    (chunkAllocateRun sh rand ck runSize regSize).chunk.key = ck.key := by
  unfold chunkAllocateRun
  simp only
  split
  · rfl
  · exact (chunkAllocateWithNode_reindexed _ _ _ _ _).1

theorem chunkDeallocateRun_key {ck : Chunk} {runPtr : Nat} {out : ChunkDealloc}
    (dealloc : chunkDeallocateRun ck runPtr = some out) : out.chunk.key = ck.key := by
  unfold chunkDeallocateRun at dealloc
  simp only at dealloc
  split at dealloc
  · exact nomatch dealloc
  · rw [← Option.some.inj dealloc]

end Keys

section Chunks

variable {extra : List Span} {w : World} {env : Env}

/-- The key of a chunk stays, or the chunk is of a range that may be kept. -/
theorem setChunk_spans {chunk : Nat} {ck : Chunk}
    (key : ck.key = (w.chunks chunk).key ∨ ⟨ck.key, chunkSizeBytes⟩ ∈ extra) :
    SpanFrame extra w (w.setChunk chunk ck) := by
  refine SpanFrame.shrink rfl (fun _ mapped => mapped) ?_
  intro which span member
  cases which with
  | hugeAlloc => exact Or.inl member
  | internalAlloc => exact Or.inl member
  | chunkAlloc =>
      rcases List.mem_map.mp member with ⟨other, listed, same⟩
      by_cases here : other = chunk
      · rw [here, setChunk_same] at same
        rcases key with key | key
        · left
          rw [← same, key, ← here]
          exact List.mem_map.mpr ⟨other, listed, rfl⟩
        · right
          rw [← same]
          exact key
      · rw [setChunk_other w here] at same
        exact Or.inl (List.mem_map.mpr ⟨other, listed, same⟩)

theorem onChunkAllocateRun_spans (chunk runSize regSize : Nat) :
    Steps (SpanFrame extra) (onChunkAllocateRun env chunk runSize regSize) := by
  intro w result w' run
  unfold onChunkAllocateRun at run
  injection run with value state
  rw [← state]
  have drawn : ∀ draws, SpanFrame extra w (w.draw32 draws) := fun _ => .quiet rfl rfl rfl
  exact (drawn _).trans (setChunk_spans (Or.inl (chunkAllocateRun_key _ _ _ _)))

theorem onChunkDeallocateRun_spans (chunk runPtr : Nat) :
    Steps (SpanFrame extra) (onChunkDeallocateRun env chunk runPtr) := by
  intro w
  unfold onChunkDeallocateRun
  rw [wlp_bind, wlp_get]
  cases found : chunkDeallocateRun (w.chunks chunk) runPtr with
  | none => exact wlp_exit
  | some out =>
      simp only [wlp_bind]
      refine wlp_mono (platformUnmap_unmaps _ _ w) ?_
      intro _ w₁ unmapped
      simp only [wlp_modify, wlp_pure]
      rw [unmapped]
      exact (removeMap_spans w _).trans (setChunk_spans (Or.inl (chunkDeallocateRun_key found)))

theorem arenaAllocateChunk_spans (fuel : Nat) :
    Steps (SpanFrame extra) (arenaAllocateChunk env fuel) := by
  unfold arenaAllocateChunk
  refine .bind (arenaInternalAlloc_spans fuel _) fun chunkMeta => ?_
  apply Steps.obtain fun ptr => ⟨ptr, chunkSizeBytes⟩
  · exact arenaMorecore_spans resetChunkPtrStart_quiet fuel _ _
  · intro ptr
    refine .bind (quiet_spans (skipMapping_quiet _ _ _)) fun _ => ?_
    cases chunkMeta with
    | none => exact .crash
    | some chunk =>
        intro w
        simp only [wlp_bind, wlp_modify, wlp_pure]
        have key : (chunkInit .wrapping (env.staleChunk chunk) ptr).key = ptr := chunkInit_key _ _
        generalize chunkInit .wrapping (env.staleChunk chunk) ptr = ck at key
        have member : (⟨ck.key, chunkSizeBytes⟩ : Span) ∈ ⟨ptr, chunkSizeBytes⟩ :: extra := by
          rw [key]
          exact List.mem_cons_self
        have set : SpanFrame (⟨ptr, chunkSizeBytes⟩ :: extra) w (w.setChunk chunk ck) :=
          setChunk_spans (Or.inr member)
        have kept : (⟨((w.setChunk chunk ck).chunks chunk).key, chunkSizeBytes⟩ : Span) ∈
            ⟨ptr, chunkSizeBytes⟩ :: extra := by
          rw [setChunk_same]
          exact member
        refine set.trans (SpanFrame.enter kept rfl rfl ?_)
        intro which
        cases which with
        | chunkAlloc => exact Or.inr rfl
        | hugeAlloc => exact Or.inl rfl
        | internalAlloc => exact Or.inl rfl

theorem arenaDeallocateChunk_spans (chunk : Nat) :
    Steps (SpanFrame extra) (arenaDeallocateChunk chunk) := by
  unfold arenaDeallocateChunk
  refine .bind (.modify fun w => ?_) fun _ => quiet_spans (arenaInternalFree_quiet chunk)
  refine SpanFrame.shrink rfl (fun _ mapped => mapped) ?_
  intro which span member
  cases which with
  | hugeAlloc => exact Or.inl member
  | internalAlloc => exact Or.inl member
  | chunkAlloc => exact Or.inl (List.map_subset _ List.erase_subset member)

end Chunks

section Runs

variable {extra : List Span} {env : Env}

end Runs

section Huge

variable {extra : List Span} {w : World} {env : Env}

/-- The huge mapping is of a range that may be kept. -/
theorem setHuge_spans {addr : Nat} {huge : HugeChunk}
    (kept : (⟨huge.key, huge.len⟩ : Span) ∈ extra) :
    SpanFrame extra w (w.setHuge addr huge) := by
  refine SpanFrame.shrink rfl (fun _ mapped => mapped) ?_
  intro which span member
  cases which with
  | chunkAlloc => exact Or.inl member
  | internalAlloc => exact Or.inl member
  | hugeAlloc =>
      rcases List.mem_map.mp member with ⟨other, listed, same⟩
      by_cases here : other = addr
      · rw [here, setHuge_same] at same
        rw [← same]
        exact Or.inr kept
      · rw [setHuge_other w here] at same
        exact Or.inl (List.mem_map.mpr ⟨other, listed, same⟩)

theorem arenaAllocateHugeMapping_spans (fuel len : Nat) :
    Steps (SpanFrame extra) (arenaAllocateHugeMapping env fuel len) := by
  unfold arenaAllocateHugeMapping
  refine .bind (arenaInternalAlloc_spans fuel _) fun found => ?_
  cases found with
  | none => exact .crash
  | some huge =>
      apply Steps.obtain fun map => ⟨map, len⟩
      · exact arenaMorecore_spans (resetPtrStart_quiet _) fuel _ _
      · intro map w
        simp only [wlp_bind, wlp_modify]
        intro _ w₁ run
        have set : SpanFrame (⟨map, len⟩ :: extra) w (w.setHuge huge ⟨map, len⟩) :=
          setHuge_spans List.mem_cons_self
        have skipped := skipMapping_quiet _ _ _ _ _ w₁ run
        have same : w₁.huges huge = ⟨map, len⟩ := by
          rw [skipped.huges]
          exact setHuge_same w
        have kept : (⟨(w₁.huges huge).key, (w₁.huges huge).len⟩ : Span) ∈ ⟨map, len⟩ :: extra := by
          rw [same]
          exact List.mem_cons_self
        refine wlp_mono (setOrigin_quiet map _ _) ?_
        intro _ w₂ noted
        refine (wlp_pure _).mpr (SpanFrame.trans (set.trans skipped.spans) (.trans ?_ noted.spans))
        refine SpanFrame.enter kept rfl rfl ?_
        intro which
        cases which with
        | chunkAlloc => exact Or.inl rfl
        | hugeAlloc => exact Or.inr rfl
        | internalAlloc => exact Or.inl rfl

theorem arenaReallocateHugeMapping_spans (fuel huge newSize : Nat) :
    Steps (SpanFrame extra) (arenaReallocateHugeMapping env fuel huge newSize) := by
  unfold arenaReallocateHugeMapping
  apply Steps.obtain fun map => ⟨map, newSize⟩
  · exact arenaMorecore_spans (resetPtrStart_quiet _) fuel _ _
  · intro map
    refine .bind (quiet_spans (skipMapping_quiet _ _ _)) fun _ => .bind .get fun w => ?_
    refine .bind (quiet_spans (memcpy_quiet _ _ _)) fun _ => ?_
    refine .bind (platformUnmap_spans _ _) fun _ => .bind (.modify ?_) fun _ => ?_
    · intro w
      exact setHuge_spans List.mem_cons_self
    · exact quiet_spans (setOrigin_quiet _ _)

theorem arenaDeallocateHugeMapping_spans (huge : Nat) :
    Steps (SpanFrame extra) (arenaDeallocateHugeMapping env huge) := by
  unfold arenaDeallocateHugeMapping
  refine .bind .get fun w => .bind (platformUnmap_spans _ _) fun _ => .bind (.modify fun w => ?_)
    fun _ => quiet_spans (arenaInternalFree_quiet huge)
  refine SpanFrame.shrink rfl (fun _ mapped => mapped) ?_
  intro which span member
  cases which with
  | chunkAlloc => exact Or.inl member
  | internalAlloc => exact Or.inl member
  | hugeAlloc => exact Or.inl (List.map_subset _ List.erase_subset member)

end Huge

section Api

variable {extra : List Span} {env : Env}

theorem allocates_spans {fuel : Nat} : Allocates env fuel (SpanFrame extra) where
  quiet := Quiet.spans
  internal := arenaInternalAlloc_spans fuel
  chunk := arenaAllocateChunk_spans fuel
  run := onChunkAllocateRun_spans
  huge := arenaAllocateHugeMapping_spans fuel

theorem deleteRun_spans (chunk b run : Nat) :
    Steps (SpanFrame extra) (deleteRun env chunk b run) := by
  unfold deleteRun
  refine .bind .get fun w => .bind (quiet_spans (binDeleteRun_quiet b run)) fun _ =>
    .bind (onChunkDeallocateRun_spans chunk _) fun whole =>
      .ite ?_ (quiet_spans (arenaInternalFree_quiet run))
  exact .bind (arenaDeallocateChunk_spans chunk) fun _ => quiet_spans (arenaInternalFree_quiet run)

theorem seallocFreeWithMetadata_spans (chunk b run ptr : Nat) :
    Steps (SpanFrame extra) (seallocFreeWithMetadata env chunk b run ptr) := by
  unfold seallocFreeWithMetadata
  refine .bind .get fun w => .ite .crash ?_
  cases runDeallocate (w.runs run) (w.arena.bins b) ptr with
  | none => exact .abort
  | some freed =>
      refine .bind (.modify fun w => .quiet rfl rfl rfl) fun _ => .ite ?_ (.pure _)
      exact deleteRun_spans chunk b run

theorem seallocFree_spans (ptr : Option Nat) : Steps (SpanFrame extra) (seallocFree env ptr) := by
  cases ptr with
  | none => exact .pure _
  | some ptr =>
      unfold seallocFree
      refine .bind (quiet_spans (locateMetadataForPtr_quiet ptr)) fun found => ?_
      cases found with
      | invalid => exact .abort
      | huge huge => exact arenaDeallocateHugeMapping_spans huge
      | regular chunk b run =>
          cases run with
          | none => exact .crash
          | some run => exact seallocFreeWithMetadata_spans chunk b run ptr

theorem reallocHuge_spans (fuel huge newSize : Nat) :
    Steps (SpanFrame extra) (reallocHuge env fuel huge newSize) := by
  unfold reallocHuge
  refine .ite (.bind (arenaReallocateHugeMapping_spans fuel huge newSize) fun _ =>
    .bind .get fun w => .pure _) ?_
  refine .bind (seallocMalloc_steps allocates_spans newSize) fun found => ?_
  cases found with
  | none => exact .pure _
  | some newReg =>
      exact .bind .get fun w => .bind (quiet_spans (memcpy_quiet _ _ _)) fun _ =>
        .bind (arenaDeallocateHugeMapping_spans huge) fun _ => .pure _

theorem reallocRegular_spans (fuel chunk b run ptr newSize : Nat) :
    Steps (SpanFrame extra) (reallocRegular env fuel chunk b run ptr newSize) := by
  unfold reallocRegular
  refine .bind .get fun old => .ite ?_ ?_
  · exact .bind (arenaAllocateHugeMapping_spans fuel _) fun huge => .bind .get fun w =>
      .bind (quiet_spans (memcpy_quiet _ _ _)) fun _ =>
        .bind (seallocFreeWithMetadata_spans chunk b run ptr) fun _ => .bind .get fun w => .pure _
  · exact .bind (allocateRegular_steps allocates_spans _) fun newPtr => .bind .get fun w =>
      .bind (quiet_spans (memcpy_quiet _ _ _)) fun _ =>
        .bind (seallocFreeWithMetadata_spans chunk b run ptr) fun _ => .pure _

theorem seallocRealloc_spans (fuel : Nat) (ptr : Option Nat) (newSize : Nat) :
    Steps (SpanFrame extra) (seallocRealloc env fuel ptr newSize) := by
  cases ptr with
  | none => exact seallocMalloc_steps allocates_spans newSize
  | some ptr =>
      unfold seallocRealloc
      refine .bind (quiet_spans (locateMetadataForPtr_quiet ptr)) fun found => ?_
      cases found with
      | invalid => exact .abort
      | huge huge => exact reallocHuge_spans fuel huge _
      | regular chunk b run =>
          cases run with
          | none => exact .crash
          | some run =>
              refine .bind .get fun w => .ite .crash (.ite .abort ?_)
              exact reallocRegular_spans fuel chunk b run ptr newSize

/-- Whatever a call does, it only keeps ranges that were granted to it or were kept before. -/
theorem Call.run_spans (call : Call) (fuel : Nat) :
    Steps (SpanFrame extra) (call.run env fuel) := by
  cases call with
  | malloc size => exact seallocMalloc_steps allocates_spans size
  | calloc nmemb size => exact seallocCalloc_steps allocates_spans nmemb size
  | realloc ptr newSize => exact seallocRealloc_spans fuel ptr newSize
  | free ptr => exact .bind (seallocFree_spans ptr) fun _ => .pure _

end Api

end Sealloc
