import Sealloc.Arena

/-! What the calls that map memory leave as it was, and what they return. -/

namespace Sealloc

open Library

theorem mapped_addMap (w : World) (span : Span) (x : Nat) :
    (w.addMap span).Mapped x ↔ w.Mapped x ∨ span.Holds x := by
  unfold World.Mapped World.addMap
  simp only [List.exists_mem_cons_iff]
  exact Or.comm

theorem Span.mem_minus (hole span : Span) (x : Nat) :
    (∃ part ∈ span.minus hole, part.Holds x) ↔ hole.Holds x ∧ ¬ span.Holds x := by
  unfold Span.minus Span.Holds
  simp only [List.mem_filter, List.mem_cons, List.not_mem_nil, or_false, decide_eq_true_eq]
  constructor
  · intro found
    rcases found with ⟨part, ⟨rfl | rfl, some⟩, low, high⟩
    · simp only at low high
      omega
    · simp only at low high
      omega
  · intro inside
    rcases inside with ⟨⟨low, high⟩, outside⟩
    by_cases before : x < span.start
    · refine ⟨_, ⟨Or.inl rfl, ?_⟩, ?_⟩
      · simp only
        omega
      · simp only
        omega
    · refine ⟨_, ⟨Or.inr rfl, ?_⟩, ?_⟩
      · simp only
        omega
      · simp only
        omega

theorem mapped_removeMap (w : World) (hole : Span) (x : Nat) :
    (w.removeMap hole).Mapped x ↔ w.Mapped x ∧ ¬ hole.Holds x := by
  unfold World.Mapped World.removeMap
  simp only [List.mem_flatMap]
  constructor
  · intro found
    rcases found with ⟨part, ⟨span, member, left⟩, holds⟩
    have inside := (Span.mem_minus span hole x).mp ⟨part, left, holds⟩
    exact ⟨⟨span, member, inside.1⟩, inside.2⟩
  · intro found
    rcases found with ⟨⟨span, member, holds⟩, outside⟩
    obtain ⟨part, left, inside⟩ := (Span.mem_minus span hole x).mpr ⟨holds, outside⟩
    exact ⟨part, ⟨span, member, left⟩, inside⟩

theorem Grantable.unmapped {w : World} {span : Span} (grantable : Grantable w.maps span) {x : Nat}
    (holds : span.Holds x) : ¬ w.Mapped x := by
  intro mapped
  rcases mapped with ⟨other, member, inside⟩
  have apart := grantable.2.2 other member
  unfold Span.Apart at apart
  unfold Span.Holds at holds inside
  omega

/-- From some call on every `mmap` fails, and not because the range is taken. -/
def Env.Fails (env : Env) (calls : Nat) : Prop :=
  ∀ n hint len, calls ≤ n → ∃ errno, env.mmap n hint len = .failed errno ∧ errno ≠ .eexist

/-- Only mappings are made, and the arena moves its probe pointers. -/
structure MapFrame (w w' : World) : Prop where
  chunks : w'.chunks = w.chunks
  runs : w'.runs = w.runs
  huges : w'.huges = w.huges
  intAllocs : w'.intAllocs = w.intAllocs
  chunkList : w'.arena.chunkList = w.arena.chunkList
  hugeAllocList : w'.arena.hugeAllocList = w.arena.hugeAllocList
  internalAllocList : w'.arena.internalAllocList = w.arena.internalAllocList
  bins : w'.arena.bins = w.arena.bins
  brk : w.arena.brk < maxUserspaceAddr64 → w'.arena.brk < maxUserspaceAddr64
  memory : ∀ x, w.Mapped x → w'.memory x = w.memory x
  copies : w'.history.copies = w.history.copies
  findings : w'.history.findings = w.history.findings
  runChunk : w'.history.runChunk = w.history.runChunk
  origin : w'.history.origin = w.history.origin
  calls : w.mmapCalls ≤ w'.mmapCalls
  granted : ∃ fresh, w'.history.granted = fresh ++ w.history.granted ∧
    ∀ x, w'.Mapped x ↔ w.Mapped x ∨ ∃ span ∈ fresh, span.Holds x

/-- A range that was not mapped and now is. -/
structure FreshMap (w w' : World) (span : Span) : Prop where
  aligned : span.start % pageSize = 0
  start : 0 < span.start
  len : 0 < span.len
  low : span.start + span.len ≤ userspaceEnd
  before : ∀ x, span.Holds x → ¬ w.Mapped x
  after : ∀ x, span.Holds x → w'.Mapped x

section Frame

variable {w w' w'' : World}

theorem MapFrame.mapped (frame : MapFrame w w') {x : Nat} (mapped : w.Mapped x) :
    w'.Mapped x := by
  rcases frame.granted with ⟨fresh, -, all⟩
  exact (all x).mpr (Or.inl mapped)

theorem MapFrame.trans (first : MapFrame w w') (second : MapFrame w' w'') : MapFrame w w'' where
  chunks := second.chunks.trans first.chunks
  runs := second.runs.trans first.runs
  huges := second.huges.trans first.huges
  intAllocs := second.intAllocs.trans first.intAllocs
  chunkList := second.chunkList.trans first.chunkList
  hugeAllocList := second.hugeAllocList.trans first.hugeAllocList
  internalAllocList := second.internalAllocList.trans first.internalAllocList
  bins := second.bins.trans first.bins
  brk := fun below => second.brk (first.brk below)
  memory := fun x mapped =>
    (second.memory x (first.mapped mapped)).trans (first.memory x mapped)
  copies := second.copies.trans first.copies
  findings := second.findings.trans first.findings
  runChunk := second.runChunk.trans first.runChunk
  origin := second.origin.trans first.origin
  calls := first.calls.trans second.calls
  granted := by
    rcases first.granted with ⟨fresh, eq, all⟩
    rcases second.granted with ⟨fresh', eq', all'⟩
    refine ⟨fresh' ++ fresh, ?_, ?_⟩
    · rw [eq', eq, List.append_assoc]
    · intro x
      rw [all' x, all x]
      simp only [List.mem_append, or_and_right, exists_or]
      rw [or_assoc, Or.comm (a := ∃ span, span ∈ fresh' ∧ span.Holds x)]

/-- A step that maps nothing. -/
theorem MapFrame.quiet (chunks : w'.chunks = w.chunks) (runs : w'.runs = w.runs)
    (huges : w'.huges = w.huges) (intAllocs : w'.intAllocs = w.intAllocs)
    (chunkList : w'.arena.chunkList = w.arena.chunkList)
    (hugeAllocList : w'.arena.hugeAllocList = w.arena.hugeAllocList)
    (internalAllocList : w'.arena.internalAllocList = w.arena.internalAllocList)
    (bins : w'.arena.bins = w.arena.bins)
    (brk : w.arena.brk < maxUserspaceAddr64 → w'.arena.brk < maxUserspaceAddr64)
    (memory : w'.memory = w.memory) (history : w'.history = w.history)
    (calls : w.mmapCalls ≤ w'.mmapCalls) (maps : w'.maps = w.maps) : MapFrame w w' where
  chunks := chunks
  runs := runs
  huges := huges
  intAllocs := intAllocs
  chunkList := chunkList
  hugeAllocList := hugeAllocList
  internalAllocList := internalAllocList
  bins := bins
  brk := brk
  memory := fun x _ => by rw [memory]
  copies := by rw [history]
  findings := by rw [history]
  runChunk := by rw [history]
  origin := by rw [history]
  calls := calls
  granted := ⟨[], by rw [history, List.nil_append], fun x => by
    unfold World.Mapped
    rw [maps]
    simp⟩

theorem MapFrame.refl (w : World) : MapFrame w w :=
  .quiet rfl rfl rfl rfl rfl rfl rfl rfl id rfl rfl (Nat.le_refl _) rfl

theorem countMmap_frame (w : World) : MapFrame w w.countMmap :=
  .quiet rfl rfl rfl rfl rfl rfl rfl rfl id rfl rfl (Nat.le_succ _) rfl

theorem draw32_frame (w : World) (draws : Nat) : MapFrame w (w.draw32 draws) :=
  .quiet rfl rfl rfl rfl rfl rfl rfl rfl id rfl rfl (Nat.le_refl _) rfl

theorem draw64_frame (w : World) : MapFrame w w.draw64 :=
  .quiet rfl rfl rfl rfl rfl rfl rfl rfl id rfl rfl (Nat.le_refl _) rfl

theorem setProbe_frame (w : World) (which : ProbePtr) (addr : Nat) :
    MapFrame w (w.setArena (w.arena.setProbe which addr)) := by
  cases which <;> exact .quiet rfl rfl rfl rfl rfl rfl rfl rfl id rfl rfl (Nat.le_refl _) rfl

theorem setBrk_frame (w : World) {brk : Nat} (below : brk < maxUserspaceAddr64) :
    MapFrame w (w.setArena { w.arena with brk := brk }) :=
  .quiet rfl rfl rfl rfl rfl rfl rfl rfl (fun _ => below) rfl rfl (Nat.le_refl _) rfl

theorem FreshMap.mono {span : Span} (fresh : FreshMap w w' span) (frame : MapFrame w' w'') :
    FreshMap w w'' span :=
  ⟨fresh.aligned, fresh.start, fresh.len, fresh.low, fresh.before,
    fun x holds => frame.mapped (fresh.after x holds)⟩

theorem FreshMap.earlier {span : Span} (frame : MapFrame w w') (fresh : FreshMap w' w'' span) :
    FreshMap w w'' span :=
  ⟨fresh.aligned, fresh.start, fresh.len, fresh.low,
    fun x holds mapped => fresh.before x holds (frame.mapped mapped), fresh.after⟩

theorem Env.Fails.mono {env : Env} {calls calls' : Nat} (fails : env.Fails calls)
    (later : calls ≤ calls') : env.Fails calls' :=
  fun n hint len enough => fails n hint len (later.trans enough)

end Frame

section Specs

variable {ends : Ends World} {w : World} {env : Env}

theorem addMap_frame {span : Span} (grantable : Grantable w.maps span) :
    MapFrame w (w.addMap span) where
  chunks := rfl
  runs := rfl
  huges := rfl
  intAllocs := rfl
  chunkList := rfl
  hugeAllocList := rfl
  internalAllocList := rfl
  bins := rfl
  brk := fun below => below
  memory := by
    intro x mapped
    have outside : ¬ span.Holds x := fun holds => grantable.unmapped holds mapped
    exact if_neg outside
  copies := rfl
  findings := rfl
  runChunk := rfl
  origin := rfl
  calls := Nat.le_refl _
  granted := by
    refine ⟨[span], rfl, ?_⟩
    intro x
    rw [mapped_addMap]
    simp

/-- `mmap` either fails or maps a range that was free. -/
theorem mmap_wp (hint len : Nat) :
    wp ends (mmap env hint len) (fun reply w' =>
      MapFrame w w' ∧
      (∀ addr, reply = .granted addr → addr ≠ 0 → FreshMap w w' ⟨addr, len⟩) ∧
      (env.Fails w.mmapCalls → ∃ errno, reply = .failed errno ∧ errno ≠ .eexist)) w := by
  have count := countMmap_frame w
  unfold wp mmap
  by_cases zero : len = 0
  · rw [if_pos zero]
    refine ⟨count, ?_, ?_⟩
    · intro addr impossible
      simp at impossible
    · intro _
      exact ⟨.einval, rfl, by decide⟩
  · rw [if_neg zero]
    cases answer : env.mmap w.mmapCalls hint len with
    | failed errno =>
        refine ⟨count, ?_, ?_⟩
        · intro addr impossible
          simp at impossible
        · intro fails
          rcases fails _ hint len (Nat.le_refl _) with ⟨errno', same, other⟩
          rw [answer] at same
          exact ⟨errno', same, other⟩
    | granted addr =>
        have working : ¬ env.Fails w.mmapCalls := by
          intro fails
          rcases fails _ hint len (Nat.le_refl _) with ⟨errno', same, -⟩
          rw [answer] at same
          simp at same
        simp only
        by_cases grantable : Grantable w.maps ⟨addr, len⟩
        · rw [if_pos grantable]
          have added : MapFrame w.countMmap (w.countMmap.addMap ⟨addr, len⟩) :=
            addMap_frame grantable
          refine ⟨count.trans added, ?_, fun fails => absurd fails working⟩
          intro addr' same notNull
          rw [MmapReply.granted.injEq] at same
          subst same
          refine ⟨grantable.1, Nat.pos_of_ne_zero notNull, Nat.pos_of_ne_zero zero, grantable.2.1,
            fun x holds => grantable.unmapped holds, ?_⟩
          intro x holds
          exact (mapped_addMap _ _ _).mpr (Or.inr holds)
        · rw [if_neg grantable]
          refine ⟨count, ?_, fun fails => absurd fails working⟩
          intro addr' impossible
          simp at impossible

/-- The two statuses of `platform_map_probe` with which there is a new mapping. -/
def PlatformStatus.Mapped : PlatformStatus → Prop
  | .ok => True
  | .differentAddress => True
  | _ => False

/-- What a probe for memory leaves: with a mapping of the length asked for, or without. -/
def Probed (env : Env) (w : World) (len : Nat) (out : PlatformStatus × Nat) (w' : World) : Prop :=
  MapFrame w w' ∧
    (out.1.Mapped → FreshMap w w' ⟨out.2, len⟩ ∧ ¬ env.Fails w.mmapCalls)

theorem Probed.earlier {w' : World} {len : Nat} {out : PlatformStatus × Nat} {w'' : World}
    (frame : MapFrame w w') (probed : Probed env w' len out w'') : Probed env w len out w'' := by
  refine ⟨frame.trans probed.1, ?_⟩
  intro mapped
  have found := probed.2 mapped
  exact ⟨found.1.earlier frame, fun fails => found.2 (fails.mono frame.calls)⟩

theorem getErrorFromErrno_mapped (errno : Errno) : ¬ (getErrorFromErrno errno).Mapped := by
  cases errno <;> exact id

theorem platformMapProbeLoop_wp (loops : ends.fuel) (probe ceiling len : Nat) :
    ∀ fuel newProbe (w : World), wp ends
      (platformMapProbeLoop env probe ceiling len fuel newProbe) (Probed env w len) w := by
  intro fuel
  induction fuel with
  | zero =>
      intro newProbe w
      exact loops
  | succ fuel ih =>
      intro newProbe w
      unfold platformMapProbeLoop
      rw [wp_bind]
      apply wp_mono (mmap_wp newProbe len)
      intro reply w' post
      rcases post with ⟨frame, granted, failed⟩
      have again : ∀ next, wp ends (platformMapProbeLoop env probe ceiling len fuel next)
          (Probed env w len) w' := by
        intro next
        apply wp_mono (ih next w')
        intro out w'' probed
        exact probed.earlier frame
      cases reply with
      | granted map =>
          have working : ¬ env.Fails w.mmapCalls := by
            intro fails
            rcases failed fails with ⟨errno, impossible, -⟩
            simp at impossible
          by_cases null : map = 0
          · simp only [if_pos null]
            exact again newProbe
          · have fresh : FreshMap w w' ⟨map, len⟩ := granted map rfl null
            by_cases other : map ≠ newProbe
            · simp only [if_neg null, if_pos other]
              exact ⟨frame, fun _ => ⟨fresh, working⟩⟩
            · simp only [if_neg null, if_neg other]
              exact ⟨frame, fun _ => ⟨fresh, working⟩⟩
      | failed errno =>
          have plain : ∀ code value, ¬ PlatformStatus.Mapped code →
              wp ends (return (code, value)) (Probed env w len) w' := by
            intro code value unmapped
            exact ⟨frame, fun mapped => absurd mapped unmapped⟩
          cases errno with
          | eexist =>
              by_cases ceilingHit : u64 (newProbe + pageSize) ≥ ceiling
              · simp only [if_pos ceilingHit]
                exact plain _ _ id
              · simp only [if_neg ceilingHit]
                exact again _
          | einval => exact plain _ _ (getErrorFromErrno_mapped _)
          | enomem => exact plain _ _ (getErrorFromErrno_mapped _)
          | other => exact plain _ _ (getErrorFromErrno_mapped _)

theorem platformMapProbe_wp (loops : ends.fuel) (fuel probe ceiling len : Nat) :
    wp ends (platformMapProbe env fuel probe ceiling len) (Probed env w len) w := by
  unfold platformMapProbe
  by_cases above : probe ≥ ceiling
  · rw [if_pos above]
    exact ⟨MapFrame.refl w, fun impossible => absurd impossible id⟩
  · rw [if_neg above]
    exact platformMapProbeLoop_wp loops probe ceiling len fuel probe w

/-- A function that only moves a probe pointer or the program break. -/
def Resets (reset : Prog World Unit) : Prop :=
  ∀ (ends : Ends World) (w : World), w.arena.brk < maxUserspaceAddr64 →
    wp ends reset (fun _ w' => MapFrame w w') w

theorem resetPtrStart_resets (env : Env) (which : ProbePtr) : Resets (resetPtrStart env which) := by
  intro ends w below
  have range : sub64 maxUserspaceAddr64 w.draw64.arena.brk ≠ 0 := by
    have same : w.draw64.arena.brk = w.arena.brk := rfl
    rw [same]
    unfold maxUserspaceAddr64 at below ⊢
    rw [sub64_eq (by omega) (by norm_num)]
    omega
  unfold resetPtrStart
  simp only [wp_bind, wp_splitmix64, wp_get]
  rw [if_neg range]
  exact (draw64_frame w).trans (setProbe_frame _ which _)

theorem and_mask45_lt (rand : Nat) : alignupPage (rand &&& mask45Bits) < maxUserspaceAddr64 := by
  have small : rand &&& mask45Bits ≤ 2 ^ 45 - 1 := Nat.and_le_right
  have room : rand &&& mask45Bits ≤ sizeMax - 4095 := by
    unfold sizeMax
    omega
  have spec := alignupPage_spec room
  unfold maxUserspaceAddr64
  omega

theorem resetChunkPtrStart_resets (env : Env) : Resets (resetChunkPtrStart env) := by
  intro ends w below
  unfold resetChunkPtrStart setProbe
  simp only [wp_bind, wp_splitmix32, wp_modify, wp_get]
  have moved : MapFrame w ((w.draw32 1).setArena ((w.draw32 1).arena.setProbe .chunkAlloc
      (alignupPage32 (u32 (env.rand32 w.rand32Draws))))) :=
    (draw32_frame w 1).trans (setProbe_frame _ .chunkAlloc _)
  split
  · simp only [wp_bind, wp_splitmix64, wp_modify]
    exact (moved.trans (draw64_frame _)).trans (setBrk_frame _ (and_mask45_lt _))
  · exact moved

/-- What `arena_morecore` leaves when it returns. -/
def Morecore (env : Env) (w : World) (size map : Nat) (w' : World) : Prop :=
  MapFrame w w' ∧ FreshMap w w' ⟨map, size⟩ ∧ ¬ env.Fails w.mmapCalls

theorem arenaMorecoreLoop_wp (loops : ends.fuel) {which : ProbePtr} {reset : Prog World Unit}
    (resets : Resets reset) (inner size : Nat) (ceil : Arena → Nat) :
    ∀ fuel (w : World), w.arena.brk < maxUserspaceAddr64 → wp ends
      (arenaMorecoreLoop env inner which reset size ceil fuel) (Morecore env w size) w := by
  intro fuel
  induction fuel with
  | zero =>
      intro w _
      exact loops
  | succ fuel ih =>
      intro w below
      unfold arenaMorecoreLoop setProbe
      simp only [wp_bind, wp_get]
      apply wp_mono (platformMapProbe_wp loops inner _ _ size)
      intro out w₁ probed
      rcases out with ⟨code, probe⟩
      rcases probed with ⟨frame, found⟩
      simp only [wp_modify]
      have moved := setProbe_frame w₁ which probe
      have so_far := frame.trans moved
      generalize w₁.setArena (w₁.arena.setProbe which probe) = w₂ at moved so_far ⊢
      have again : ∀ w₃, MapFrame w w₃ → wp ends
          (arenaMorecoreLoop env inner which reset size ceil fuel) (Morecore env w size) w₃ := by
        intro w₃ before
        apply wp_mono (ih w₃ (before.brk below))
        intro map w₄ post
        rcases post with ⟨frame', fresh, working⟩
        exact ⟨before.trans frame', fresh.earlier before,
          fun fails => working (fails.mono before.calls)⟩
      have done : ∀ w₃, MapFrame w₂ w₃ → code.Mapped → Morecore env w size probe w₃ := by
        intro w₃ after mapped
        rcases found mapped with ⟨fresh, working⟩
        exact ⟨so_far.trans after, fresh.mono (moved.trans after), working⟩
      cases code with
      | ok =>
          exact done w₂ (MapFrame.refl w₂) trivial
      | ceilingHit =>
          rw [wp_bind]
          apply wp_mono (resets ends w₂ (so_far.brk below))
          intro _ w₃ after
          exact again w₃ (so_far.trans after)
      | differentAddress =>
          rw [wp_bind]
          apply wp_mono (resets ends w₂ (so_far.brk below))
          intro _ w₃ after
          exact done w₃ after trivial
      | errUnknown => exact again w₂ so_far
      | errNomem => exact again w₂ so_far
      | errInval => exact again w₂ so_far

/-- `arena_morecore` returns a range that was free, unless `mmap` cannot succeed. -/
theorem arenaMorecore_wp (loops : ends.fuel) {which : ProbePtr} {reset : Prog World Unit}
    (resets : Resets reset) (fuel size : Nat) (ceil : Arena → Nat)
    (below : w.arena.brk < maxUserspaceAddr64) :
    wp ends (arenaMorecore env fuel which reset size ceil) (Morecore env w size) w :=
  arenaMorecoreLoop_wp loops resets fuel size ceil fuel w below

theorem skipMapping_wp (which : ProbePtr) (map step : Nat) :
    wp ends (skipMapping which map step) (fun _ w' => MapFrame w w') w := by
  unfold skipMapping
  simp only [wp_bind, wp_get]
  by_cases stands : map = w.arena.probe which
  · rw [if_pos stands]
    exact setProbe_frame w which _
  · rw [if_neg stands]
    exact MapFrame.refl w

end Specs

/-- A process that has nothing mapped and no arena yet. -/
def World.blank : World where
  arena := ⟨0, [], [], [], 0, 0, 0, fun _ => Bin.zero⟩
  chunks := fun _ => ⟨0, fun _ => 0, fun _ => 0, fun _ => 0, fun _ => ⟨0, 0⟩, fun _ => 0#8⟩
  runs := fun _ => ⟨0, 0, 0, 0, 0, fun _ => 0#8⟩
  huges := fun _ => ⟨0, 0⟩
  intAllocs := fun _ => ⟨0, fun _ => 0#8⟩
  memory := fun _ => 0#8
  maps := []
  rand32Draws := 0
  rand64Draws := 0
  mmapCalls := 0
  munmapCalls := 0
  history := ⟨[], [], [], fun _ => 0, fun _ => none, false⟩

/-- An outside world that grants every range that is asked for and is free. -/
def Env.willing (rand64 : Nat → Nat) : Env where
  rand32 := fun _ => 2 ^ 20
  rand64 := rand64
  mmap := fun _ hint _ => .granted hint
  munmap := fun _ => none
  staleChunk := World.blank.chunks
  staleRun := World.blank.runs

end Sealloc
