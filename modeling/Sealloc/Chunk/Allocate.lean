import Sealloc.Chunk.Unlink

/-! `chunk_allocate_with_node` keeps the free index of a chunk. -/

namespace Sealloc

open Library

namespace Chunk

/-- One of the two nodes is under the other, or they are the same. -/
def Comparable (a b : Nat) : Prop := Below a b ∨ Below b a

/-- A node of level `d` that has nothing in common with the runs, which are given by their
nodes. -/
def Avail (runs : List Nat) (d idx : Nat) : Prop :=
  InLevel d idx ∧ ∀ run ∈ runs, ¬ Comparable run idx

section Levels

variable {d e i j n level : Nat} {runs : List Nat}

theorem InLevel.up (level : InLevel (d + e) i) : InLevel d (i / 2 ^ e) := by
  obtain ⟨low, high⟩ := level
  rw [Nat.pow_add] at low
  rw [show d + e + 1 = d + 1 + e by omega, Nat.pow_add] at high
  exact ⟨(Nat.le_div_iff_mul_le (Nat.two_pow_pos e)).mpr low,
    (Nat.div_lt_iff_lt_mul (Nat.two_pow_pos e)).mpr high⟩

theorem below_level (high : InLevel d i) (low : InLevel e j) (below : Below i j) :
    d ≤ e ∧ j / 2 ^ (e - d) = i := by
  obtain ⟨depth, up⟩ := below
  have deep : depth ≤ e := by
    by_contra far
    have small : 2 ^ (e + 1) ≤ 2 ^ depth := Nat.pow_le_pow_right (by decide) (by omega)
    have zero : j / 2 ^ depth = 0 := Nat.div_eq_of_lt (low.2.trans_le small)
    have := high.positive
    omega
  have parent : InLevel (e - depth) i := by
    rw [← up]
    exact InLevel.up (by rwa [Nat.sub_add_cancel deep])
  have same := high.unique parent
  refine ⟨by omega, ?_⟩
  rw [show e - d = depth by omega]
  exact up

/-- A node of an upper level is comparable with `n` when it is `n`'s ancestor. -/
theorem comparable_up (node : InLevel level n) (other : InLevel d i) (upper : d ≤ level) :
    Comparable n i ↔ i = n / 2 ^ (level - d) := by
  constructor
  · rintro (below | above)
    · obtain ⟨le, up⟩ := below_level node other below
      have same : level = d := by omega
      rw [same, Nat.sub_self, Nat.pow_zero, Nat.div_one] at up ⊢
      exact up
    · exact (below_level other node above).2.symm
  · rintro rfl
    exact Or.inr ⟨_, rfl⟩

/-- A node of a lower level is comparable with `n` when it is in `n`'s span. -/
theorem comparable_down (node : InLevel level n) (other : InLevel d i) (lower : level ≤ d) :
    Comparable n i ↔ n * 2 ^ (d - level) ≤ i ∧ i < (n + 1) * 2 ^ (d - level) := by
  have span : (n * 2 ^ (d - level) ≤ i ∧ i < (n + 1) * 2 ^ (d - level)) ↔
      i / 2 ^ (d - level) = n := by
    rw [Nat.div_eq_iff (Nat.two_pow_pos _)]
    have := Nat.two_pow_pos (d - level)
    rw [Nat.succ_mul]
    omega
  rw [span]
  constructor
  · rintro (below | above)
    · exact (below_level node other below).2
    · obtain ⟨le, up⟩ := below_level other node above
      have same : level = d := by omega
      rw [same, Nat.sub_self, Nat.pow_zero, Nat.div_one] at up ⊢
      exact up.symm
  · intro up
    exact Or.inl ⟨_, up⟩

/-- What is under an available node is available. -/
theorem Avail.below (avail : Avail runs d i) (node : InLevel e j) (under : Below i j) :
    Avail runs e j := by
  refine ⟨node, fun run member comparable => avail.2 run member ?_⟩
  rcases comparable with above | below
  · exact below_linear above under
  · exact Or.inr (below_trans under below)

theorem avail_cons : Avail (n :: runs) d i ↔ Avail runs d i ∧ ¬ Comparable n i := by
  unfold Avail
  rw [List.forall_mem_cons]
  tauto

end Levels

/-- The free index of a chunk that has given out the nodes `runs`. -/
structure FreeIndex (ck : Chunk) (runs : List Nat) : Prop where
  root : RootOff ck
  levels : ∀ d, 1 ≤ d → d ≤ 11 → LevelOk ck d (Avail runs d)

section Loops

variable {sh : Short} {runs : List Nat}

/-- The loop up the tree takes the node and its ancestors out of the lists. -/
theorem unlinkUp_ok (lawful : sh.Lawful) (level : Nat) :
    ∀ rounds ck idx, level < rounds → level ≤ 11 → InLevel level idx → RootOff ck →
      (∀ d, 1 ≤ d → d ≤ level → LevelOk ck d (Avail runs d)) →
      unlinkUp sh rounds ck (getJtItem ck.jumpTree idx) idx level =
          unlinkUp .unbounded rounds ck (getJtItem ck.jumpTree idx) idx level ∧
        Touches (fun d => 1 ≤ d ∧ d ≤ level) ck
          (unlinkUp .unbounded rounds ck (getJtItem ck.jumpTree idx) idx level) ∧
        ∀ d, 1 ≤ d → d ≤ level →
          LevelOk (unlinkUp .unbounded rounds ck (getJtItem ck.jumpTree idx) idx level) d
            (fun i => Avail runs d i ∧ i ≠ idx / 2 ^ (level - d)) := by
  induction level with
  | zero =>
      intro rounds ck idx enough deep node root levels
      obtain ⟨rounds, rfl⟩ : ∃ n, rounds = n + 1 := ⟨rounds - 1, by omega⟩
      have one : idx = 1 := by
        obtain ⟨low, high⟩ := node
        omega
      subst one
      have next : (getJtItem ck.jumpTree 1).next = 0 := root.next
      have prev : (getJtItem ck.jumpTree 1).prev = 0 := root.prev
      have stop : ∀ short : Short, unlinkUp short (rounds + 1) ck (getJtItem ck.jumpTree 1) 1 0 =
          ck := by
        intro short
        rw [unlinkUp, if_neg]
        rw [next, prev, root.first]
        omega
      rw [stop, stop]
      exact ⟨rfl, Touches.refl ck, fun d low high => absurd low (by omega)⟩
  | succ level ih =>
      intro rounds ck idx enough deep node root levels
      obtain ⟨rounds, rfl⟩ : ∃ n, rounds = n + 1 := ⟨rounds - 1, by omega⟩
      have ok := levels (level + 1) (by omega) (Nat.le_refl _)
      have listed : (((getJtItem ck.jumpTree idx).next ≠ 0 ∨
            (getJtItem ck.jumpTree idx).prev ≠ 0) ∨ ck.jumpTreeFirstIndex (level + 1) = idx) ↔
          Avail runs (level + 1) idx :=
        ok.linked.member_iff (ok.off idx node) node.positive
      by_cases member : Avail runs (level + 1) idx
      · obtain ⟨removed, touches⟩ := unlinkNode_ok ok member
        have short := unlinkNode_short lawful (by omega) ok member
        have unroll : ∀ s : Short, unlinkUp s (rounds + 1) ck (getJtItem ck.jumpTree idx) idx
            (level + 1) = unlinkUp s rounds
              (unlinkNode s ck (getJtItem ck.jumpTree idx) idx (level + 1))
              (getJtItem (unlinkNode s ck (getJtItem ck.jumpTree idx) idx (level + 1)).jumpTree
                (idx / 2)) (idx / 2) level := by
          intro s
          rw [unlinkUp, if_pos (listed.mpr member)]
          rfl
        have rest := ih rounds _ (idx / 2) (by omega) (by omega) node.parent
          (root.untouched touches (by omega)) fun d low high =>
            (levels d low (by omega)).untouched touches (by omega)
        rw [unroll, unroll, short]
        refine ⟨rest.1, (touches.mono (by omega)).trans (rest.2.1.mono (by omega)), ?_⟩
        intro d low high
        rcases Nat.lt_or_ge level d with top | below
        · have same : d = level + 1 := by omega
          subst same
          refine (removed.untouched rest.2.1 (by omega)).congr ?_ (fun _ _ => rfl) rfl rfl
          intro i
          rw [Nat.sub_self, Nat.pow_zero, Nat.div_one]
          refine and_congr_right fun _ => ?_
          omega
        · refine (rest.2.2 d low below).congr ?_ (fun _ _ => rfl) rfl rfl
          intro i
          rw [Nat.div_div_eq_div_mul, ← Nat.pow_succ', show (level - d).succ = level + 1 - d by omega]
      · have stop : ∀ short : Short, unlinkUp short (rounds + 1) ck (getJtItem ck.jumpTree idx) idx
            (level + 1) = ck := by
          intro short
          rw [unlinkUp, if_neg fun inside => member (listed.mp inside)]
        rw [stop, stop]
        refine ⟨rfl, Touches.refl ck, fun d low high => ?_⟩
        refine (levels d low high).congr ?_ (fun _ _ => rfl) rfl rfl
        intro i
        refine and_iff_left_of_imp fun avail => ?_
        rintro rfl
        exact member (avail.below node ⟨_, rfl⟩)

theorem LevelCut.untouched {P : Nat → Prop} {ck ck' : Chunk} {d a b : Nat} {A : Nat → Prop}
    (cut : LevelCut ck d A a b) (within : ∀ i, A i → InLevel d i) (touches : Touches P ck ck')
    (other : ¬ P d) : LevelCut ck' d A a b := by
  have nexts : ∀ i, InLevel d i → nextOf ck'.jumpTree i = nextOf ck.jumpTree i := by
    intro i level
    unfold nextOf
    rw [touches.items d i other level]
  have prevs : ∀ i, InLevel d i → prevOf ck'.jumpTree i = prevOf ck.jumpTree i := by
    intro i level
    unfold prevOf
    rw [touches.items d i other level]
  refine ⟨?_, ?_, ?_⟩
  · rw [touches.first d other]
    exact cut.linked.congr (fun _ => Iff.rfl) (fun i member => nexts i (within i member.1))
      fun i member => prevs i (within i member.1)
  · intro i level outside
    rw [nexts i level, prevs i level]
    exact cut.off i level outside
  · rw [touches.count d other]
    exact cut.count

/-- The loop down the tree cuts the nodes under the run out of the lists. -/
theorem unlinkDown_ok (lawful : sh.Lawful) {A : Nat → Nat → Prop} (rounds : Nat) :
    ∀ ck left right span level, level + rounds ≤ 12 → right + 1 = left + span → left ≤ right →
      (∀ e, e < rounds → LevelOk ck (level + e) (A (level + e))) →
      (∀ e, e < rounds → ∀ i, left * 2 ^ e ≤ i → i < (right + 1) * 2 ^ e → A (level + e) i) →
      unlinkDown sh rounds ck left right span level =
          unlinkDown .unbounded rounds ck left right span level ∧
        Touches (fun d => level ≤ d ∧ d < level + rounds) ck
          (unlinkDown .unbounded rounds ck left right span level) ∧
        ∀ e, e < rounds →
          LevelCut (unlinkDown .unbounded rounds ck left right span level) (level + e)
            (A (level + e)) (left * 2 ^ e) ((right + 1) * 2 ^ e - 1) := by
  induction rounds with
  | zero =>
      intro ck left right span level deep width order levels block
      exact ⟨rfl, Touches.refl ck, fun e few => absurd few (by omega)⟩
  | succ rounds ih =>
      intro ck left right span level deep width order levels block
      have ok := levels 0 (by omega)
      have here := block 0 (by omega)
      rw [Nat.pow_zero, Nat.mul_one, Nat.mul_one] at here
      rw [Nat.add_zero] at ok here
      have inside : ∀ i, left ≤ i → i ≤ right → A level i :=
        fun i low high => here i low (by omega)
      obtain ⟨cut, touches⟩ := unlinkSpan_ok ok width order inside
      have short := unlinkSpan_short lawful (by omega) ok width order inside
      have deeper : ∀ e, level + 1 + e = level + (e + 1) := fun e => by omega
      have double : ∀ x e : Nat, x * 2 * 2 ^ e = x * 2 ^ (e + 1) := fun x e => by
        rw [Nat.pow_succ', Nat.mul_assoc]
      have ends : right * 2 + 1 + 1 = (right + 1) * 2 := by omega
      have rest := ih (unlinkSpan .unbounded ck left right span level) (left * 2)
        (right * 2 + 1) (span * 2) (level + 1) (by omega) (by omega) (by omega)
        (fun e few => by
          rw [deeper]
          exact (levels (e + 1) (by omega)).untouched touches (by omega))
        (fun e few i low high => by
          rw [ends, double] at high
          rw [double] at low
          rw [deeper]
          exact block (e + 1) (by omega) i low high)
      have unroll : ∀ s : Short, unlinkDown s (rounds + 1) ck left right span level =
          unlinkDown s rounds (unlinkSpan s ck left right span level) (left * 2)
            (right * 2 + 1) (span * 2) (level + 1) := fun _ => rfl
      rw [unroll, unroll, short]
      refine ⟨rest.1, (touches.mono (by omega)).trans (rest.2.1.mono (by omega)), ?_⟩
      intro e few
      cases e with
      | zero =>
          rw [Nat.pow_zero, Nat.mul_one, Nat.mul_one, Nat.add_zero, Nat.add_sub_cancel]
          exact cut.untouched ok.within rest.2.1 (by omega)
      | succ e =>
          have lower := rest.2.2 e (by omega)
          rw [ends, double, double, deeper] at lower
          exact lower

/-- The nodes that the last loop clears. -/
theorem clearDown_items (rounds : Nat) : ∀ (mem : Nat → JumpNode) (start span i : Nat),
    0 < start → 0 < i →
    ((∃ e, e < rounds ∧ start * 2 ^ e ≤ i ∧ i < (start + span) * 2 ^ e) →
      getJtItem (clearDown rounds mem start span) i = ⟨0, 0⟩) ∧
    ((∀ e, e < rounds → ¬ (start * 2 ^ e ≤ i ∧ i < (start + span) * 2 ^ e)) →
      getJtItem (clearDown rounds mem start span) i = getJtItem mem i) := by
  induction rounds with
  | zero =>
      intro mem start span i positive node
      exact ⟨fun ⟨e, few, _⟩ => absurd few (by omega), fun _ => rfl⟩
  | succ rounds ih =>
      intro mem start span i positive node
      have double : ∀ x e : Nat, x * 2 * 2 ^ e = x * 2 ^ (e + 1) := fun x e => by
        rw [Nat.pow_succ', Nat.mul_assoc]
      have sum : start * 2 + span * 2 = (start + span) * 2 := by omega
      obtain ⟨inside, outside⟩ := ih (clearSpan mem start span) (start * 2) (span * 2) i
        (by omega) node
      rw [sum] at inside outside
      simp only [double] at inside outside
      have cleared : start ≤ i → i < start + span →
          getJtItem (clearSpan mem start span) i = ⟨0, 0⟩ := by
        intro low high
        unfold getJtItem clearSpan
        rw [if_pos ⟨by omega, by omega⟩]
      have kept : ¬ (start ≤ i ∧ i < start + span) →
          getJtItem (clearSpan mem start span) i = getJtItem mem i := by
        intro apart
        unfold getJtItem clearSpan
        rw [if_neg (by omega)]
      rw [clearDown]
      constructor
      · rintro ⟨e, few, low, high⟩
        by_cases later : ∃ f, f < rounds ∧ start * 2 ^ (f + 1) ≤ i ∧
            i < (start + span) * 2 ^ (f + 1)
        · exact inside later
        · rw [outside fun f small both => later ⟨f, small, both⟩]
          cases e with
          | zero => exact cleared (by omega) (by omega)
          | succ e => exact absurd ⟨e, by omega, low, high⟩ later
      · intro none
        rw [outside fun f small => none (f + 1) (by omega)]
        have first := none 0 (by omega)
        rw [Nat.pow_zero, Nat.mul_one, Nat.mul_one] at first
        exact kept first

end Loops

/-- What `chunk_allocate_with_node` does to the rest of a chunk, and where the run is. -/
structure TakesNode (ck : Chunk) (idx level regSize : Nat) (out : Nat × Chunk) : Prop where
  ptr : out.1 = ck.key + (idx * 2 ^ (11 - level) - 2048) * chunkLeastRegionSizeBytes
  key : out.2.key = ck.key
  tree : out.2.buddyTree = setBuddyTreeItem ck.buddyTree idx .used
  sizes : out.2.regSizeSmallMedium =
    if level = 11 ∧ regSize ≠ chunkLeastRegionSizeBytes then
      Function.update ck.regSizeSmallMedium (idx - 2048) (u16 regSize)
    else ck.regSizeSmallMedium

theorem isLeaf_iff {level idx : Nat} (node : InLevel level idx) (deep : level ≤ 11) :
    isLeaf idx ↔ level = 11 := by
  have leaves : (chunkNoNodes + 1) / 2 = 2 ^ 11 := by decide
  unfold isLeaf
  rw [leaves]
  constructor
  · intro low
    by_contra higher
    have short : 2 ^ (level + 1) ≤ 2 ^ 11 := Nat.pow_le_pow_right (by decide) (by omega)
    have := node.2
    omega
  · rintro rfl
    exact node.1

theorem allocateWithNode_leaf {sh : Short} {ck : Chunk} {runs : List Nat} {idx regSize : Nat}
    (lawful : sh.Lawful) (index : FreeIndex ck runs) (member : Avail runs 11 idx) :
    chunkAllocateWithNode sh ck (getJtItem ck.jumpTree idx) idx 11 regSize =
        chunkAllocateWithNode .unbounded ck (getJtItem ck.jumpTree idx) idx 11 regSize ∧
      FreeIndex (chunkAllocateWithNode .unbounded ck (getJtItem ck.jumpTree idx) idx 11
        regSize).2 (idx :: runs) ∧
      TakesNode ck idx 11 regSize
        (chunkAllocateWithNode .unbounded ck (getJtItem ck.jumpTree idx) idx 11 regSize) := by
  have node := member.1
  have leaf := (isLeaf_iff node (Nat.le_refl 11)).mpr rfl
  obtain ⟨short, touches, levels⟩ := unlinkUp_ok lawful 11 (11 + 1) ck idx
    (by decide) (Nat.le_refl 11) node index.root fun d low high => index.levels d low high
  simp only [chunkAllocateWithNode, if_pos leaf, short]
  refine ⟨trivial, ⟨?_, ?_⟩, ?_, touches.key, ?_, ?_⟩
  · exact ⟨(index.root.untouched touches (by omega)).next,
      (index.root.untouched touches (by omega)).prev,
      (index.root.untouched touches (by omega)).first⟩
  · intro d low high
    refine (levels d low high).congr ?_ (fun _ _ => rfl) rfl rfl
    intro i
    rw [avail_cons]
    refine and_congr_right fun avail => ?_
    rw [comparable_up node avail.1 high]
  · simp
  · rw [touches.tree]
  · rw [touches.sizes]
    simp

section Subtree

variable {level e f d i idx : Nat} {runs : List Nat} {mem : Nat → JumpNode}

/-- The nodes under `idx` that are `e + 1` levels below it. -/
def UnderBy (idx e i : Nat) : Prop := idx * 2 ^ (e + 1) ≤ i ∧ i < (idx + 1) * 2 ^ (e + 1)

theorem under_left (idx e : Nat) : idx * 2 * 2 ^ e = idx * 2 ^ (e + 1) := by
  rw [Nat.pow_succ', Nat.mul_assoc]

theorem under_right (idx e : Nat) : (idx * 2 + 2) * 2 ^ e = (idx + 1) * 2 ^ (e + 1) := by
  rw [Nat.pow_succ', ← Nat.mul_assoc]
  congr 1
  omega

theorem underBy_iff (idx e i : Nat) :
    UnderBy idx e i ↔ idx * 2 * 2 ^ e ≤ i ∧ i < (idx * 2 + 2) * 2 ^ e := by
  unfold UnderBy
  rw [under_left, under_right]

theorem underBy_comparable (node : InLevel level idx) (other : InLevel (level + 1 + e) i) :
    Comparable idx i ↔ UnderBy idx e i := by
  have down := comparable_down node other (by omega)
  rwa [show level + 1 + e - level = e + 1 by omega] at down

theorem UnderBy.inLevel (node : InLevel level idx) (under : UnderBy idx e i) :
    InLevel (level + 1 + e) i := by
  constructor
  · rw [show level + 1 + e = level + (e + 1) by omega, Nat.pow_add]
    exact (Nat.mul_le_mul_right _ node.1).trans under.1
  · rw [show level + 1 + e + 1 = (level + 1) + (e + 1) by omega, Nat.pow_add]
    exact under.2.trans_le (Nat.mul_le_mul_right _ node.2)

theorem UnderBy.avail (member : Avail runs level idx) (under : UnderBy idx e i) :
    Avail runs (level + 1 + e) i := by
  refine member.below (under.inLevel member.1) ⟨e + 1, ?_⟩
  have last := under.2
  have first := under.1
  rw [Nat.div_eq_iff (Nat.two_pow_pos _)]
  have := Nat.two_pow_pos (e + 1)
  rw [Nat.succ_mul] at last
  omega

/-- The jump tree after the last loop has cleared what is under `idx`. -/
def clearedUnder (level idx : Nat) (mem : Nat → JumpNode) : Nat → JumpNode :=
  clearDown (11 - level) mem (idx * 2) 2

theorem clearedUnder_inside (node : InLevel level idx) (deep : e < 11 - level)
    (under : UnderBy idx e i) : getJtItem (clearedUnder level idx mem) i = ⟨0, 0⟩ := by
  have positive := node.positive
  have some := (under.inLevel node).positive
  have both := (underBy_iff idx e i).mp under
  exact (clearDown_items (11 - level) mem (idx * 2) 2 i (by omega) some).1 ⟨e, deep, both⟩

theorem clearedUnder_outside (node : InLevel level idx) (positive : 0 < i)
    (outside : ∀ e, e < 11 - level → ¬ UnderBy idx e i) :
    getJtItem (clearedUnder level idx mem) i = getJtItem mem i := by
  have some := node.positive
  refine (clearDown_items (11 - level) mem (idx * 2) 2 i (by omega) positive).2 ?_
  intro e few both
  exact outside e few ((underBy_iff idx e i).mpr both)

theorem clearedUnder_upper (node : InLevel level idx) (upper : d ≤ level) (other : InLevel d i) :
    getJtItem (clearedUnder level idx mem) i = getJtItem mem i := by
  refine clearedUnder_outside node other.positive ?_
  intro e _ under
  have same := other.unique (under.inLevel node)
  omega

theorem clearedUnder_beside (node : InLevel level idx) (other : InLevel (level + 1 + e) i)
    (outside : ¬ UnderBy idx e i) : getJtItem (clearedUnder level idx mem) i = getJtItem mem i := by
  refine clearedUnder_outside node other.positive ?_
  intro f _ under
  have same := other.unique (under.inLevel node)
  have equal : f = e := by omega
  rw [equal] at under
  exact outside under

/-- Below the node, a level without the nodes under it has its list once they are cleared. -/
theorem LevelCut.cleared {ck : Chunk} (member : Avail runs level idx) (deep : e < 11 - level)
    (cut : LevelCut ck (level + 1 + e) (Avail runs (level + 1 + e)) (idx * 2 ^ (e + 1))
      ((idx + 1) * 2 ^ (e + 1) - 1)) {ck' : Chunk}
    (jumpTree : ck'.jumpTree = clearedUnder level idx ck.jumpTree)
    (firsts : ck'.jumpTreeFirstIndex = ck.jumpTreeFirstIndex)
    (counts : ck'.availNodesCount = ck.availNodesCount) :
    LevelOk ck' (level + 1 + e) (Avail (idx :: runs) (level + 1 + e)) := by
  have node := member.1
  have width : 0 < (idx + 1) * 2 ^ (e + 1) := Nat.mul_pos (by omega) (Nat.two_pow_pos _)
  have block : ∀ i, UnderBy idx e i ↔
      idx * 2 ^ (e + 1) ≤ i ∧ i ≤ (idx + 1) * 2 ^ (e + 1) - 1 := by
    intro i
    unfold UnderBy
    omega
  have sameSet : ∀ i, Avail (idx :: runs) (level + 1 + e) i ↔ Avail runs (level + 1 + e) i ∧
      ¬ (idx * 2 ^ (e + 1) ≤ i ∧ i ≤ (idx + 1) * 2 ^ (e + 1) - 1) := by
    intro i
    rw [avail_cons]
    refine and_congr_right fun avail => ?_
    rw [underBy_comparable node avail.1, block i]
  have kept : ∀ i, InLevel (level + 1 + e) i → ¬ UnderBy idx e i →
      getJtItem ck'.jumpTree i = getJtItem ck.jumpTree i := by
    intro i other outside
    rw [jumpTree]
    exact clearedUnder_beside node other outside
  refine ⟨fun i avail => avail.1, ?_, ?_, ?_⟩
  · rw [firsts]
    refine cut.linked.congr sameSet ?_ ?_
    · intro i inside
      unfold nextOf
      rw [kept i inside.1.1 fun under => inside.2 ((block i).mp under)]
    · intro i inside
      unfold prevOf
      rw [kept i inside.1.1 fun under => inside.2 ((block i).mp under)]
  · intro i other outside
    by_cases under : UnderBy idx e i
    · have zero : getJtItem ck'.jumpTree i = ⟨0, 0⟩ := by
        rw [jumpTree]
        exact clearedUnder_inside node deep under
      simp [nextOf, prevOf, zero]
    · have notMember : ¬ Avail runs (level + 1 + e) i := by
        intro avail
        exact outside ((sameSet i).mpr ⟨avail, fun inside => under ((block i).mpr inside)⟩)
      rw [nextOf, prevOf, kept i other under]
      exact cut.off i other notMember
  · rw [counts, cut.count]
    congr 1
    ext i
    exact (sameSet i).symm

end Subtree

theorem allocateWithNode_inner {sh : Short} {ck : Chunk} {runs : List Nat}
    {idx level regSize : Nat} (lawful : sh.Lawful) (index : FreeIndex ck runs) (low : 1 ≤ level)
    (high : level < 11) (member : Avail runs level idx) :
    chunkAllocateWithNode sh ck (getJtItem ck.jumpTree idx) idx level regSize =
        chunkAllocateWithNode .unbounded ck (getJtItem ck.jumpTree idx) idx level regSize ∧
      FreeIndex (chunkAllocateWithNode .unbounded ck (getJtItem ck.jumpTree idx) idx level
        regSize).2 (idx :: runs) ∧
      TakesNode ck idx level regSize
        (chunkAllocateWithNode .unbounded ck (getJtItem ck.jumpTree idx) idx level regSize) := by
  have node := member.1
  have inner : ¬ isLeaf idx := fun leaf => by
    have := (isLeaf_iff node (by omega)).mp leaf
    omega
  have depth : chunkBuddyTreeDepth = 11 := rfl
  obtain ⟨shortUp, touchesUp, levelsUp⟩ := unlinkUp_ok lawful level (level + 1) ck
    idx (by omega) (by omega) node index.root fun d low high => index.levels d low (by omega)
  have block : ∀ e i, idx * 2 * 2 ^ e ≤ i ∧ i < (idx * 2 + 1 + 1) * 2 ^ e ↔ UnderBy idx e i :=
    fun e i => (underBy_iff idx e i).symm
  obtain ⟨shortDown, touchesDown, cuts⟩ := unlinkDown_ok (A := Avail runs) lawful (11 - level)
    (unlinkUp .unbounded (level + 1) ck (getJtItem ck.jumpTree idx) idx level) (idx * 2)
    (idx * 2 + 1) 2 (level + 1) (by omega) (by omega) (by omega)
    (fun e few => (index.levels (level + 1 + e) (by omega) (by omega)).untouched touchesUp
      (by omega))
    (fun e few i first last => ((block e i).mp ⟨first, last⟩).avail member)
  simp only [chunkAllocateWithNode, if_neg inner, depth, shortUp, shortDown]
  generalize unlinkDown .unbounded (11 - level)
    (unlinkUp .unbounded (level + 1) ck (getJtItem ck.jumpTree idx) idx level) (idx * 2)
    (idx * 2 + 1) 2 (level + 1) = down at touchesDown cuts ⊢
  refine ⟨trivial, ⟨?_, ?_⟩, ?_, ?_, ?_, ?_⟩
  · -- the root is neither on the way down nor cleared
    have root := (index.root.untouched touchesUp (by omega)).untouched touchesDown (by omega)
    have same : getJtItem (clearedUnder level idx down.jumpTree) 1 = getJtItem down.jumpTree 1 :=
      clearedUnder_upper node (Nat.zero_le level) ⟨by decide, by decide⟩
    exact ⟨(congrArg JumpNode.next same).trans root.next,
      (congrArg JumpNode.prev same).trans root.prev, root.first⟩
  · intro d first last
    rcases Nat.lt_or_ge level d with lower | upper
    · obtain ⟨e, rfl⟩ : ∃ e, d = level + 1 + e := ⟨d - (level + 1), by omega⟩
      have cut := cuts e (by omega)
      rw [under_left, show idx * 2 + 1 + 1 = idx * 2 + 2 from rfl, under_right] at cut
      exact cut.cleared member (by omega) rfl rfl rfl
    · have before := (levelsUp d first upper).untouched touchesDown (by omega)
      refine before.congr ?_ (fun i other => clearedUnder_upper node upper other) rfl rfl
      intro i
      rw [avail_cons]
      refine and_congr_right fun avail => ?_
      rw [comparable_up node avail.1 upper]
  · rw [getLeftmostIdx, show (chunkNoNodes + 1) / 2 = 2048 by decide]
  · rw [touchesDown.key, touchesUp.key]
  · rw [touchesDown.tree, touchesUp.tree]
  · rw [touchesDown.sizes, touchesUp.sizes, if_neg (by omega)]

/-- Taking an available node keeps the free index; no 16-bit value wraps. -/
theorem allocateWithNode_ok {sh : Short} {ck : Chunk} {runs : List Nat} {idx level regSize : Nat}
    (lawful : sh.Lawful) (index : FreeIndex ck runs) (low : 1 ≤ level) (high : level ≤ 11)
    (member : Avail runs level idx) :
    chunkAllocateWithNode sh ck (getJtItem ck.jumpTree idx) idx level regSize =
        chunkAllocateWithNode .unbounded ck (getJtItem ck.jumpTree idx) idx level regSize ∧
      FreeIndex (chunkAllocateWithNode .unbounded ck (getJtItem ck.jumpTree idx) idx level
        regSize).2 (idx :: runs) ∧
      TakesNode ck idx level regSize
        (chunkAllocateWithNode .unbounded ck (getJtItem ck.jumpTree idx) idx level regSize) := by
  rcases Nat.lt_or_ge level 11 with inner | leaf
  · exact allocateWithNode_inner lawful index low inner member
  · have same : level = 11 := by omega
    subst same
    exact allocateWithNode_leaf lawful index member

end Chunk

end Sealloc
