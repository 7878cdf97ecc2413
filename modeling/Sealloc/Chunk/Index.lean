import Sealloc.Chunk.Allocate

/-! The free index over a chunk's whole life: `chunk_init` builds it, and
`chunk_allocate_run` picks an available node and keeps it. -/

namespace Sealloc

open Library

namespace Chunk

/-- The loop of `chunk_init` sets the ends of each list and its first node and length. -/
structure InitsLevels (ck out : Chunk) (i rounds : Nat) : Prop where
  ends : ∀ d n, InLevel d n → i ≤ d → d < i + rounds → getJtItem out.jumpTree n =
    ⟨if n = 2 ^ d then 0 else prevOf ck.jumpTree n,
      if n + 1 = 2 ^ (d + 1) then 0 else nextOf ck.jumpTree n⟩
  others : ∀ d n, InLevel d n → ¬ (i ≤ d ∧ d < i + rounds) →
    getJtItem out.jumpTree n = getJtItem ck.jumpTree n
  first : ∀ d, out.jumpTreeFirstIndex d =
    if i ≤ d ∧ d < i + rounds then 2 ^ d else ck.jumpTreeFirstIndex d
  count : ∀ d, out.availNodesCount d =
    if i ≤ d ∧ d < i + rounds then 2 ^ d else ck.availNodesCount d
  key : out.key = ck.key
  sizes : out.regSizeSmallMedium = ck.regSizeSmallMedium
  tree : out.buddyTree = ck.buddyTree

theorem initLevels_ok {sh : Short} (lawful : sh.Lawful) (rounds : Nat) :
    ∀ i ck, i + rounds ≤ 12 →
      initLevels sh rounds i (2 ^ i) ck = initLevels .unbounded rounds i (2 ^ i) ck ∧
        InitsLevels ck (initLevels .unbounded rounds i (2 ^ i) ck) i rounds := by
  induction rounds with
  | zero =>
      intro i ck deep
      refine ⟨rfl, ⟨?_, fun _ _ _ _ => rfl, ?_, ?_, rfl, rfl, rfl⟩⟩
      · intro d n level low high
        omega
      · intro d
        rw [if_neg (by omega)]
        rfl
      · intro d
        rw [if_neg (by omega)]
        rfl
  | succ rounds ih =>
      intro i ck deep
      have width : 2 ^ i * 2 ≤ 2 ^ 12 := by
        rw [← Nat.pow_succ]
        exact Nat.pow_le_pow_right (by decide) (by omega)
      have wide : 0 < 2 ^ i := Nat.two_pow_pos i
      have zero : sh.ofNat 0 = 0 := lawful.ofNat 0 (by decide)
      have double : sh.ofNat (2 ^ i * 2) = 2 ^ (i + 1) := by
        rw [lawful.ofNat _ (by omega), Nat.pow_succ]
      have doubleExact : Short.unbounded.ofNat (2 ^ i * 2) = 2 ^ (i + 1) := by
        rw [Short.unbounded_ofNat, Nat.pow_succ]
      simp only [initLevels, double, doubleExact, setNext_short zero, setPrev_short zero]
      obtain ⟨short, inits⟩ := ih (i + 1) {
        ck with
        jumpTreeFirstIndex := Function.update ck.jumpTreeFirstIndex i (2 ^ i)
        jumpTree := setJtItemNext .unbounded
          (setJtItemPrev .unbounded ck.jumpTree (2 ^ i) 0) (2 * 2 ^ i - 1) 0
        availNodesCount := Function.update ck.availNodesCount i (2 ^ i) } (by omega)
      have here : ∀ n, 0 < n → getJtItem (setJtItemNext .unbounded
          (setJtItemPrev .unbounded ck.jumpTree (2 ^ i) 0) (2 * 2 ^ i - 1) 0) n =
          ⟨if n = 2 ^ i then 0 else prevOf ck.jumpTree n,
            if n = 2 * 2 ^ i - 1 then 0 else nextOf ck.jumpTree n⟩ := by
        intro n positive
        apply jumpNode_eq
        · change prevOf _ n = _
          rw [prevOf_setNext, prevOf_setPrev positive wide]
          rfl
        · change nextOf _ n = _
          rw [nextOf_setNext positive (by omega), nextOf_setPrev]
          rfl
      have lastNode : ∀ n, (n = 2 * 2 ^ i - 1) ↔ (n + 1 = 2 ^ (i + 1)) := by
        intro n
        rw [Nat.pow_succ]
        omega
      refine ⟨short, ⟨?_, ?_, ?_, ?_, inits.key, inits.sizes, inits.tree⟩⟩
      · intro d n level low high
        by_cases same : d = i
        · subst same
          rw [inits.others d n level (by omega), here n level.positive]
          simp only [lastNode]
        · rw [inits.ends d n level (by omega) (by omega)]
          have apart : n ≠ 2 ^ i ∧ n ≠ 2 * 2 ^ i - 1 := by
            have lower : 2 ^ (i + 1) ≤ 2 ^ d := Nat.pow_le_pow_right (by decide) (by omega)
            have := level.1
            rw [Nat.pow_succ] at lower
            omega
          have kept := here n level.positive
          rw [if_neg apart.1, if_neg apart.2] at kept
          simp only [prevOf, nextOf, kept]
      · intro d n level outside
        rw [inits.others d n level (by omega), here n level.positive]
        have other : d ≠ i := by omega
        have apart : n ≠ 2 ^ i ∧ n ≠ 2 * 2 ^ i - 1 := by
          constructor
          · rintro rfl
            exact other (level.unique ⟨Nat.le_refl _, by rw [Nat.pow_succ]; omega⟩)
          · rintro rfl
            exact other (level.unique ⟨by omega, by rw [Nat.pow_succ]; omega⟩)
        rw [if_neg apart.1, if_neg apart.2]
        rfl
      · intro d
        rw [inits.first]
        by_cases same : d = i
        · subst same
          rw [if_neg (by omega), if_pos (by omega)]
          exact Function.update_self _ _ _
        · by_cases inside : i + 1 ≤ d ∧ d < i + 1 + rounds
          · rw [if_pos inside, if_pos (by omega)]
          · rw [if_neg inside, if_neg (by omega)]
            exact Function.update_of_ne same _ _
      · intro d
        rw [inits.count]
        by_cases same : d = i
        · subst same
          rw [if_neg (by omega), if_pos (by omega)]
          exact Function.update_self _ _ _
        · by_cases inside : i + 1 ≤ d ∧ d < i + 1 + rounds
          · rw [if_pos inside, if_pos (by omega)]
          · rw [if_neg inside, if_neg (by omega)]
            exact Function.update_of_ne same _ _

/-- The list of a level whose nodes are all free. -/
theorem linked_interval {next prev : Nat → Nat} {d : Nat}
    (nexts : ∀ i, InLevel d i → next i = if i + 1 = 2 ^ (d + 1) then 0 else 1)
    (prevs : ∀ i, InLevel d i → prev i = if i = 2 ^ d then 0 else 1) :
    Linked (InLevel d) next prev (2 ^ d) := by
  have lowest : InLevel d (2 ^ d) := ⟨Nat.le_refl _, by
    have := Nat.two_pow_pos d
    rw [Nat.pow_succ]
    omega⟩
  have adjacent : ∀ {i j}, IsNext (InLevel d) i j → j = i + 1 := by
    intro i j step
    by_contra far
    have left := step.left
    have right := step.right
    have lt := step.lt
    exact step.between (i + 1) (by omega) (by omega)
      ⟨by have := left.1; omega, by have := right.2; omega⟩
  constructor
  · intro i j step
    have next := adjacent step
    have right := step.right.2
    rw [nexts i step.left, if_neg (by omega), next]
  · intro i member last
    rw [nexts i member, if_pos]
    by_contra short
    have high := member.2
    exact last (i + 1) (by omega) ⟨by have := member.1; omega, by omega⟩
  · intro i j step
    have next := adjacent step
    have left := step.left.1
    rw [prevs j step.right, if_neg (by omega), next]
  · intro j member least
    rw [prevs j member, if_pos]
    by_contra different
    have low := member.1
    exact least (2 ^ d) (by omega) lowest
  · intro i member least
    by_contra different
    have low := member.1
    exact least (2 ^ d) (by omega) lowest
  · intro none
    exact absurd lowest (none _)

theorem ncard_level (d : Nat) : Set.ncard {i | InLevel d i} = 2 ^ d := by
  have range : {i | InLevel d i} = ↑(Finset.Ico (2 ^ d) (2 ^ (d + 1))) := by
    ext i
    simp [InLevel]
  rw [range, Set.ncard_coe_finset, Nat.card_Ico, Nat.pow_succ]
  omega

/-- A fresh chunk. -/
theorem chunkInit_ok {sh : Short} (lawful : sh.Lawful) (ck : Chunk) (heap : Nat) :
    chunkInit sh ck heap = chunkInit .unbounded ck heap ∧
      FreeIndex (chunkInit .unbounded ck heap) [] ∧
      (chunkInit .unbounded ck heap).key = heap ∧
      (chunkInit .unbounded ck heap).regSizeSmallMedium = (fun _ => regMarkBadValue) ∧
      (chunkInit .unbounded ck heap).buddyTree = fun _ => 0#8 := by
  obtain ⟨short, inits⟩ := initLevels_ok lawful 12 0 (initFields ck heap) (by decide)
  rw [Nat.pow_zero] at short inits
  have depth : chunkBuddyTreeDepth + 1 = 12 := rfl
  simp only [chunkInit, depth, short]
  refine ⟨trivial, ⟨?_, ?_⟩, inits.key, inits.sizes, inits.tree⟩
  · have items := inits.ends 0 1 ⟨by decide, by decide⟩ (by decide) (by decide)
    constructor
    · rw [nextOf, items]
      rfl
    · rw [prevOf, items]
      rfl
    · simp
  · intro d low high
    have items := fun i level => inits.ends d i level (by omega) (by omega)
    have all : ∀ i, Avail [] d i ↔ InLevel d i := by
      intro i
      simp [Avail]
    have nexts : ∀ i, InLevel d i →
        nextOf (initLevels .unbounded 12 0 1 (initFields ck heap)).jumpTree i =
          if i + 1 = 2 ^ (d + 1) then 0 else 1 := by
      intro i level
      rw [nextOf, items i level]
      rfl
    have prevs : ∀ i, InLevel d i →
        prevOf (initLevels .unbounded 12 0 1 (initFields ck heap)).jumpTree i =
          if i = 2 ^ d then 0 else 1 := by
      intro i level
      rw [prevOf, items i level]
      rfl
    have upper : d ≠ 0 := by omega
    have first : Function.update
        (initLevels .unbounded 12 0 1 (initFields ck heap)).jumpTreeFirstIndex 0 0 d = 2 ^ d := by
      rw [Function.update_of_ne upper, inits.first, if_pos (by omega)]
    have count : Function.update
        (initLevels .unbounded 12 0 1 (initFields ck heap)).availNodesCount 0 0 d = 2 ^ d := by
      rw [Function.update_of_ne upper, inits.count, if_pos (by omega)]
    refine ⟨fun i member => member.1, ?_, ?_, ?_⟩
    · simp only [first]
      exact (linked_interval nexts prevs).congr all (fun _ _ => rfl) fun _ _ => rfl
    · intro i level outside
      exact absurd ((all i).mpr level) outside
    · simp only [all, ncard_level, count]

section Pick

variable {ck : Chunk} {runs : List Nat} {level : Nat} {rand : Nat → Nat}

/-- A random probe only hits available nodes. -/
theorem probe_avail (ok : LevelOk ck level (Avail runs level)) (tries : Nat) :
    ∀ draws idx used, probe rand ck (2 ^ level) tries draws = (some idx, used) →
      Avail runs level idx := by
  induction tries with
  | zero =>
      intro draws idx used hit
      simp [probe] at hit
  | succ tries ih =>
      intro draws idx used hit
      rw [probe] at hit
      by_cases neighbour : (getJtItem ck.jumpTree (2 ^ level + rand draws % 2 ^ level)).prev ≠ 0 ∨
          (getJtItem ck.jumpTree (2 ^ level + rand draws % 2 ^ level)).next ≠ 0
      · rw [if_pos neighbour] at hit
        rw [Prod.mk.injEq, Option.some.injEq] at hit
        have node : InLevel level (2 ^ level + rand draws % 2 ^ level) := by
          have small := Nat.mod_lt (rand draws) (Nat.two_pow_pos level)
          refine ⟨by omega, ?_⟩
          rw [Nat.pow_succ]
          omega
        rw [← hit.1]
        by_contra outside
        have zero := ok.off _ node outside
        rw [nextOf, prevOf] at zero
        omega
      · rw [if_neg neighbour] at hit
        exact ih _ _ _ hit

/-- The walk along the list stays on available nodes. -/
theorem walk_avail (ok : LevelOk ck level (Avail runs level))
    (some : ck.availNodesCount level ≠ 0) (draw : Nat) :
    Avail runs level
      (walk ck (draw % ck.availNodesCount level) (ck.jumpTreeFirstIndex level)) := by
  have member : ∃ i, Avail runs level i := by
    by_contra none
    exact some (ok.count_zero.mpr fun i inside => none ⟨i, inside⟩)
  obtain ⟨i, inside⟩ := member
  obtain ⟨first, least, below⟩ := exists_first inside
  have start := ok.linked.first_eq least below
  rw [start]
  refine ok.linked.walk_member (fun j avail => avail.1.2)
    (fun _ => rfl) (fun _ _ => rfl) _ first least ?_
  have all : {j | Avail runs level j ∧ first ≤ j} = {j | Avail runs level j} := by
    ext j
    refine and_iff_left_of_imp fun avail => ?_
    by_contra less
    exact below j (by omega) avail
  rw [all, ← ok.count]
  exact Nat.mod_lt _ (Nat.pos_of_ne_zero some)

/-- Both ways of picking a node pick an available one. -/
theorem pickNode_avail (rand : Nat → Nat) (ok : LevelOk ck level (Avail runs level))
    (some : ck.availNodesCount level ≠ 0) : Avail runs level (pickNode rand ck level).1 := by
  unfold pickNode
  by_cases dense : ck.availNodesCount level * 100 / 2 ^ level > randomLookupTresholdPercentage
  · simp only [if_pos dense]
    cases tried : probe rand ck (2 ^ level) randomLookupTries 0 with
    | mk hit used =>
        cases hit with
        | some idx => exact probe_avail ok _ _ _ _ tried
        | none => exact walk_avail ok some _
  · simp only [if_neg dense]
    exact walk_avail ok some _

end Pick

theorem size2idx_eq {k : Nat} (small : k ≤ 10) :
    size2idx (chunkLeastRegionSizeBytes * 2 ^ k) = k := by
  have positive : 0 < chunkLeastRegionSizeBytes := by decide
  unfold size2idx
  rw [Nat.mul_div_cancel_left _ positive]
  interval_cases k <;> rfl

/-- `chunk_allocate_run` fails when its level has no available node, and otherwise takes an
available node; no 16-bit value wraps. -/
theorem chunkAllocateRun_ok {sh : Short} {ck : Chunk} {runs : List Nat} {k : Nat}
    (lawful : sh.Lawful) (index : FreeIndex ck runs) (small : k ≤ 10) (rand : Nat → Nat)
    (regSize : Nat) :
    chunkAllocateRun sh rand ck (chunkLeastRegionSizeBytes * 2 ^ k) regSize =
        chunkAllocateRun .unbounded rand ck (chunkLeastRegionSizeBytes * 2 ^ k) regSize ∧
      ((chunkAllocateRun .unbounded rand ck (chunkLeastRegionSizeBytes * 2 ^ k) regSize =
          ⟨none, ck, 0⟩ ∧ ∀ i, ¬ Avail runs (11 - k) i) ∨
        ∃ idx out draws, Avail runs (11 - k) idx ∧
          chunkAllocateRun .unbounded rand ck (chunkLeastRegionSizeBytes * 2 ^ k) regSize =
            ⟨some out.1, out.2, draws⟩ ∧
          FreeIndex out.2 (idx :: runs) ∧ TakesNode ck idx (11 - k) regSize out) := by
  have ok := index.levels (11 - k) (by omega) (by omega)
  have depth : chunkBuddyTreeDepth = 11 := rfl
  simp only [chunkAllocateRun, size2idx_eq small, depth]
  by_cases none : ck.availNodesCount (11 - k) = 0
  · simp only [if_pos none]
    exact ⟨trivial, Or.inl ⟨trivial, ok.count_zero.mp none⟩⟩
  · simp only [if_neg none]
    have member := pickNode_avail rand ok none
    obtain ⟨short, kept, takes⟩ :=
      allocateWithNode_ok lawful index (by omega) (by omega) member
    rw [short]
    exact ⟨rfl, Or.inr ⟨_, _, _, member, rfl, kept, takes⟩⟩

end Chunk

end Sealloc
