import Sealloc.Run.History

/-! Memory tags of the regions of a run, in the build for processors that tag memory.

Every granule of 16 bytes carries a tag, and so do bits 56 to 59 of a pointer. -/

namespace Sealloc

open Library

def memoryGranuleSize : Nat := 16
def memory2GranuleSize : Nat := 32
def tagOffsetBits : Nat := 56

/-- The tag of each granule of the address space. -/
abbrev Tags := Nat → Nat

def pointerTag (ptr : Nat) : Nat := ptr / 2 ^ tagOffsetBits % 16

/-- `PTR_CLEAR_TAG`. -/
def ptrClearTag (ptr : Nat) : Nat := ptr % 2 ^ tagOffsetBits

def granule (addr : Nat) : Nat := ptrClearTag addr / memoryGranuleSize

/-- `stg`. -/
def setTag (taggedPtr addr : Nat) (tags : Tags) : Tags :=
  Function.update tags (granule addr) (pointerTag taggedPtr)

/-- `st2g`. -/
def set2Tags (taggedPtr addr : Nat) (tags : Tags) : Tags :=
  setTag taggedPtr (u64 (addr + memoryGranuleSize)) (setTag taggedPtr addr tags)

/-- `ldg`, which only writes the tag bits of its register; the others are 0 here. -/
def getTagFromMemory (tags : Tags) (addr : Nat) : Nat := tags (granule addr) * 2 ^ tagOffsetBits

/-- `irg`: the processor chooses a tag by the mask of those it must not take. -/
def tagPointer (choose : Nat → Nat) (ptr excludes : Nat) : Nat :=
  ptr - pointerTag ptr * 2 ^ tagOffsetBits + choose excludes * 2 ^ tagOffsetBits

/-- `gmi`. -/
def addToExcludes (taggedPtr excludes : Nat) : Nat := excludes ||| 2 ^ pointerTag taggedPtr

/-- A loop of `set_tag_n`: so many stores, the address going up by `step` after each. -/
def setTagLoop (store : Nat → Tags → Tags) (step : Nat) : Nat → Nat × Tags → Nat × Tags
  | 0, s => s
  | n + 1, s => setTagLoop store step n (u64 (s.1 + step), store s.1 s.2)

def setTagN (taggedPtr addr n : Nat) (tags : Tags) : Tags :=
  let n2g := n / memory2GranuleSize
  let n1g := (n - memory2GranuleSize * n2g) / memoryGranuleSize
  let s := setTagLoop (set2Tags taggedPtr) memory2GranuleSize n2g (addr, tags)
  (setTagLoop (setTag taggedPtr) memoryGranuleSize n1g s).2

/-- The tags that `run_allocate` excludes: 0 and those of the allocated neighbours. -/
def neighbourExcludes (run : Run) (bin : Bin) (ptr : Nat) (tags : Tags) : Nat :=
  let excludes := 1
  let excludes :=
    if run.currentIdx > 0 ∧ getBitmapItem run.regBitmap (run.currentIdx - 1) = .alloc then
      addToExcludes (getTagFromMemory tags (sub64 ptr bin.regSize)) excludes
    else excludes
  if run.currentIdx < bin.elems - 1 ∧ getBitmapItem run.regBitmap (run.currentIdx + 1) = .alloc then
    addToExcludes (getTagFromMemory tags (u64 (ptr + bin.regSize))) excludes
  else excludes

/-- What `run_allocate` leaves behind. -/
structure TaggedRegion where
  ptr : Nat
  run : Run
  tags : Tags

/-- `run_allocate` where memory is tagged. -/
def runAllocateTagged (choose : Nat → Nat) (run : Run) (bin : Bin) (tags : Tags) : TaggedRegion :=
  let out := runAllocate run bin
  let ptr := tagPointer choose out.1 (neighbourExcludes out.2 bin out.1 tags)
  ⟨ptr, out.2, setTagN ptr ptr bin.regSize tags⟩

/-- `run_deallocate` where memory is tagged: `run_validate_ptr` clears the tag. -/
def runDeallocateTagged (run : Run) (bin : Bin) (ptr : Nat) : Option Run :=
  runDeallocate run bin (ptrClearTag ptr)

/-- The processor takes a tag that is not excluded, if there is one. -/
def Chooses (choose : Nat → Nat) : Prop :=
  ∀ excludes, (∃ tag < 16, excludes.testBit tag = false) →
    choose excludes < 16 ∧ excludes.testBit (choose excludes) = false

/-- Calls of `run_allocate` and `run_deallocate` on a run with tagged memory, and the pointer
that was last returned for each region. -/
inductive TagHistory (bin : Bin) (fresh : Run) (before : Tags) : Run → Tags → (Nat → Nat) → Prop
  | init (returned : Nat → Nat) : TagHistory bin fresh before fresh before returned
  | allocate {run : Run} {tags : Tags} {returned : Nat → Nat}
      (history : TagHistory bin fresh before run tags returned) (choose : Nat → Nat)
      (chooses : Chooses choose) :
      TagHistory bin fresh before (runAllocateTagged choose run bin tags).run
        (runAllocateTagged choose run bin tags).tags
        (Function.update returned (runAllocateTagged choose run bin tags).run.currentIdx
          (runAllocateTagged choose run bin tags).ptr)
  | deallocate {run : Run} {tags : Tags} {returned : Nat → Nat}
      (history : TagHistory bin fresh before run tags returned) (ptr : Nat)
      (above : run.key ≤ ptrClearTag ptr)
      (inside : ptrClearTag ptr < run.key + bin.runSizePages * pageSize) :
      TagHistory bin fresh before ((runDeallocateTagged run bin ptr).getD run) tags returned

/-- A place for the runs of a bin of class `b` below the tag bits, on whole granules. -/
structure TagSite (b heap : Nat) : Prop extends RunSite b heap where
  untagged : heap + classRunBytes b ≤ 2 ^ 56
  aligned : heap % 16 = 0

section Stores

variable {tag q : Nat} {tags : Tags}

/-- The pointer to granule `q` with a tag. -/
def taggedAt (tag q : Nat) : Nat := tag * 2 ^ 56 + 16 * q

theorem granule_taggedAt (word : q < 2 ^ 52) : granule (taggedAt tag q) = q := by
  unfold granule ptrClearTag taggedAt tagOffsetBits memoryGranuleSize
  omega

theorem pointerTag_taggedAt (tag16 : tag < 16) (word : q < 2 ^ 52) :
    pointerTag (taggedAt tag q) = tag := by
  unfold pointerTag taggedAt tagOffsetBits
  omega

theorem taggedAt_add (tag16 : tag < 16) {k : Nat} (word : q + k ≤ 2 ^ 52) :
    u64 (taggedAt tag q + 16 * k) = taggedAt tag (q + k) := by
  unfold u64 taggedAt
  omega

/-- The tags after those of `k` granules from `q` on were set. -/
def retagged (tag q k : Nat) (tags : Tags) : Tags :=
  fun g => if q ≤ g ∧ g < q + k then tag else tags g

theorem setTag_taggedAt {p : Nat} (pointer : pointerTag p = tag)
    (word : q < 2 ^ 52) : setTag p (taggedAt tag q) tags = retagged tag q 1 tags := by
  funext g
  unfold setTag retagged
  rw [granule_taggedAt word, pointer, Function.update_apply]
  by_cases same : g = q
  · rw [if_pos same, if_pos (by omega)]
  · rw [if_neg same, if_neg (by omega)]

theorem retagged_retagged {k l : Nat} :
    retagged tag (q + k) l (retagged tag q k tags) = retagged tag q (k + l) tags := by
  funext g
  unfold retagged
  split_ifs <;> omega

theorem set2Tags_taggedAt (tag16 : tag < 16) {p : Nat} (pointer : pointerTag p = tag)
    (word : q + 1 < 2 ^ 52) : set2Tags p (taggedAt tag q) tags = retagged tag q 2 tags := by
  have next := taggedAt_add (k := 1) tag16 (by omega : q + 1 ≤ 2 ^ 52)
  unfold set2Tags memoryGranuleSize
  rw [next, setTag_taggedAt pointer word, setTag_taggedAt pointer (by omega),
    retagged_retagged]

theorem setTagLoop_spec {store : Nat → Tags → Tags} {k : Nat} (tag16 : tag < 16)
    (stores : ∀ q tags, q + k ≤ 2 ^ 52 → store (taggedAt tag q) tags = retagged tag q k tags)
    (n : Nat) (word : q + k * n ≤ 2 ^ 52) :
    setTagLoop store (16 * k) n (taggedAt tag q, tags) =
      (taggedAt tag (q + k * n), retagged tag q (k * n) tags) := by
  induction n generalizing q tags with
  | zero =>
      have none : retagged tag q (k * 0) tags = tags := by
        funext g
        unfold retagged
        rw [if_neg (by omega)]
      rw [none]
      rfl
  | succ n ih =>
      rw [Nat.mul_succ] at word
      have total : k + k * n = k * (n + 1) := by rw [Nat.mul_succ, Nat.add_comm]
      unfold setTagLoop
      simp only
      rw [taggedAt_add tag16 (by omega), stores q tags (by omega), ih (by omega),
        retagged_retagged, Nat.add_assoc, total]

/-- `set_tag_n` sets the tags of the granules of the region, and of no others. -/
theorem setTagN_spec (tag16 : tag < 16) {n : Nat} (word : q + n ≤ 2 ^ 52) (some : 1 ≤ n) :
    setTagN (taggedAt tag q) (taggedAt tag q) (16 * n) tags = retagged tag q n tags := by
  have pointer := pointerTag_taggedAt tag16 (by omega : q < 2 ^ 52)
  have pairs : 16 * n / memory2GranuleSize = n / 2 := by
    unfold memory2GranuleSize
    omega
  have odd : (16 * n - memory2GranuleSize * (n / 2)) / memoryGranuleSize = n % 2 := by
    unfold memory2GranuleSize memoryGranuleSize
    omega
  have first := @setTagLoop_spec tag q tags (set2Tags (taggedAt tag q)) 2 tag16
    (fun r t fits => set2Tags_taggedAt tag16 pointer (by omega)) (n / 2) (by omega)
  have second := @setTagLoop_spec tag (q + 2 * (n / 2)) (retagged tag q (2 * (n / 2)) tags)
    (setTag (taggedAt tag q)) 1 tag16
    (fun r t fits => setTag_taggedAt pointer (by omega)) (n % 2) (by omega)
  have total : 2 * (n / 2) + 1 * (n % 2) = n := by omega
  unfold setTagN
  simp only
  rw [pairs, odd]
  have first' : setTagLoop (set2Tags (taggedAt tag q)) memory2GranuleSize (n / 2)
      (taggedAt tag q, tags) = _ := first
  have second' : setTagLoop (setTag (taggedAt tag q)) memoryGranuleSize (n % 2)
      (taggedAt tag (q + 2 * (n / 2)), retagged tag q (2 * (n / 2)) tags) = _ := second
  rw [first', second', retagged_retagged, total]

end Stores

section Excludes

variable {run : Run} {bin : Bin} {ptr tag : Nat} {tags : Tags}

theorem addToExcludes_testBit (taggedPtr excludes : Nat) :
    (addToExcludes taggedPtr excludes).testBit tag = true ↔
      excludes.testBit tag = true ∨ tag = pointerTag taggedPtr := by
  unfold addToExcludes
  rw [Nat.testBit_or, Bool.or_eq_true, Nat.testBit_two_pow, decide_eq_true_iff,
    @eq_comm _ tag]

theorem one_testBit : Nat.testBit 1 tag = true ↔ tag = 0 := by
  rw [show (1 : Nat) = 2 ^ 0 from rfl, Nat.testBit_two_pow, decide_eq_true_iff, eq_comm]

theorem pointerTag_fromMemory (addr : Nat) :
    pointerTag (getTagFromMemory tags addr) = tags (granule addr) % 16 := by
  unfold pointerTag getTagFromMemory tagOffsetBits
  rw [Nat.mul_div_cancel _ (by norm_num)]

def leftAllocated (run : Run) : Prop :=
  run.currentIdx > 0 ∧ run.state (run.currentIdx - 1) = .alloc

def rightAllocated (run : Run) (bin : Bin) : Prop :=
  run.currentIdx < bin.elems - 1 ∧ run.state (run.currentIdx + 1) = .alloc

/-- The excluded tags are 0 and those read from the allocated neighbours. -/
theorem neighbourExcludes_testBit :
    (neighbourExcludes run bin ptr tags).testBit tag = true ↔ tag = 0 ∨
      (leftAllocated run ∧ tag = tags (granule (sub64 ptr bin.regSize)) % 16) ∨
      (rightAllocated run bin ∧ tag = tags (granule (u64 (ptr + bin.regSize))) % 16) := by
  unfold neighbourExcludes leftAllocated rightAllocated Run.state
  simp only
  split_ifs with right left left
  all_goals
    simp only [addToExcludes_testBit, one_testBit, pointerTag_fromMemory]
    tauto

/-- Of the 16 tags at most three are excluded. -/
theorem chooses_tag {choose : Nat → Nat} (chooses : Chooses choose) :
    choose (neighbourExcludes run bin ptr tags) < 16 ∧
      (neighbourExcludes run bin ptr tags).testBit
        (choose (neighbourExcludes run bin ptr tags)) = false := by
  apply chooses
  by_contra all
  have taken : ∀ tag < 16, (neighbourExcludes run bin ptr tags).testBit tag = true := by
    intro tag tag16
    by_contra free
    exact all ⟨tag, tag16, Bool.not_eq_true _ ▸ free⟩
  have one := neighbourExcludes_testBit.mp (taken 1 (by norm_num))
  have two := neighbourExcludes_testBit.mp (taken 2 (by norm_num))
  have three := neighbourExcludes_testBit.mp (taken 3 (by norm_num))
  omega

end Excludes

/-- Every allocated region carries the tag of the pointer returned for it, which is not 0, and
neighbours differ. -/
structure Separated (b heap : Nat) (run : Run) (tags : Tags) (returned : Nat → Nat) : Prop where
  key : run.key = heap
  tagged : ∀ i < classElems b, run.state i = .alloc →
    ∃ tag, 1 ≤ tag ∧ tag < 16 ∧ returned i = tag * 2 ^ 56 + (heap + i * classSize b) ∧
      ∀ a, heap + i * classSize b ≤ a → a < heap + i * classSize b + classSize b →
        tags (granule a) = tag
  apart : ∀ i, i + 1 < classElems b → run.state i = .alloc → run.state (i + 1) = .alloc →
    tags (granule (heap + i * classSize b)) ≠ tags (granule (heap + (i + 1) * classSize b))

section Runs

variable {b heap : Nat} {run : Run} {tags : Tags} {returned : Nat → Nat}

/-- The region of an index starts at a granule below the tag bits. -/
theorem TagSite.start (site : TagSite b heap) {i : Nat} (inside : i < classElems b) :
    ∃ q s, heap + i * classSize b = 16 * q ∧ classSize b = 16 * s ∧ 1 ≤ s ∧ q + s ≤ 2 ^ 52 := by
  have facts := classSize_facts b site.isClass
  have region := site.region inside
  have untagged := site.untagged
  have aligned := site.aligned
  have product : i * classSize b = 16 * (i * (classSize b / 16)) := by
    calc
      i * classSize b = i * (16 * (classSize b / 16)) := by
        rw [Nat.mul_div_cancel' (Nat.dvd_of_mod_eq_zero facts.2.1)]
      _ = 16 * (i * (classSize b / 16)) := Nat.mul_left_comm ..
  refine ⟨heap / 16 + i * (classSize b / 16), classSize b / 16, ?_, ?_, ?_, ?_⟩ <;> omega

/-- What an allocation does: a region gets a tag that is not 0 nor that of an allocated
neighbour, and no byte outside the region is retagged. -/
structure Retags (b heap : Nat) (run : Run) (tags : Tags) (out : TaggedRegion) (i tag : Nat) :
    Prop where
  inside : i < classElems b
  index : out.run.currentIdx = i
  key : out.run.key = run.key
  state : ∀ j, out.run.state j = if j = i then .alloc else run.state j
  positive : 1 ≤ tag
  tag16 : tag < 16
  ptr : out.ptr = tag * 2 ^ 56 + (heap + i * classSize b)
  retags : ∀ a, heap + i * classSize b ≤ a → a < heap + i * classSize b + classSize b →
    out.tags (granule a) = tag
  keeps : ∀ a < 2 ^ 56, a < heap + i * classSize b ∨ heap + i * classSize b + classSize b ≤ a →
    out.tags (granule a) = tags (granule a)
  left : ∀ j, j + 1 = i → run.state j = .alloc →
    tag ≠ tags (granule (heap + j * classSize b)) % 16
  right : i + 1 < classElems b → run.state (i + 1) = .alloc →
    tag ≠ tags (granule (heap + (i + 1) * classSize b)) % 16

theorem granule_eq {a : Nat} (word : a < 2 ^ 56) : granule a = a / 16 := by
  unfold granule ptrClearTag tagOffsetBits memoryGranuleSize
  rw [Nat.mod_eq_of_lt word]

/-- What `run_allocate` computes before it tags the region. -/
structure Picks (b heap : Nat) (run : Run) (out : Nat × Run) (i : Nat) : Prop where
  inside : i < classElems b
  index : out.2.currentIdx = i
  key : out.2.key = run.key
  state : ∀ j, out.2.state j = if j = i then .alloc else run.state j
  ptr : out.1 = heap + i * classSize b

theorem runAllocate_picks (site : TagSite b heap) (key : run.key = heap) :
    ∃ i, Picks b heap run (runAllocate run (Bin.init (classSize b))) i := by
  rcases binInit_class b site.isClass with ⟨size, elems, -, -, -⟩
  rcases site.count with ⟨some, few⟩
  have inside : (run.gen + run.currentIdx) % classElems b < classElems b := Nat.mod_lt _ some
  have index : u16 ((run.gen + run.currentIdx) % (Bin.init (classSize b)).elems) =
      (run.gen + run.currentIdx) % classElems b := by
    rw [elems]
    exact u16_eq (by omega)
  have states := runAllocate_state run (Bin.init (classSize b))
  rw [index] at states
  refine ⟨_, inside, index, (runAllocate_kept run _).2.2, states, ?_⟩
  unfold runAllocate
  simp only
  rw [index, size, key]
  exact site.toRunSite.address inside

theorem retags_of_picks (site : TagSite b heap) {out : Nat × Run} {i : Nat}
    (picks : Picks b heap run out i) {choose : Nat → Nat} (chooses : Chooses choose) {bin : Bin}
    (size : bin.regSize = classSize b) (elems : bin.elems = classElems b) {tag : Nat}
    (chosen : tag = choose (neighbourExcludes out.2 bin out.1 tags)) {ptr : Nat}
    (tagged : ptr = tagPointer choose out.1 (neighbourExcludes out.2 bin out.1 tags)) :
    Retags b heap run tags ⟨ptr, out.2, setTagN ptr ptr bin.regSize tags⟩ i tag := by
  rcases site.start picks.inside with ⟨q, s, place, units, someUnits, word⟩
  rcases @chooses_tag out.2 bin out.1 tags choose chooses with ⟨tag16, free⟩
  rw [← chosen] at tag16 free
  have allowed := mt (@neighbourExcludes_testBit out.2 bin out.1 tag tags).mpr
    (Bool.eq_false_iff.mp free)
  have untagged : pointerTag out.1 = 0 := by
    rw [picks.ptr, place]
    unfold pointerTag tagOffsetBits
    omega
  have pointer : ptr = taggedAt tag q := by
    rw [tagged, tagPointer, ← chosen, untagged, picks.ptr, place]
    unfold taggedAt tagOffsetBits
    omega
  have stores : setTagN ptr ptr bin.regSize tags = retagged tag q s tags := by
    rw [pointer, size, units]
    exact setTagN_spec tag16 word someUnits
  refine ⟨picks.inside, picks.index, picks.key, picks.state, ?_, tag16, ?_, ?_, ?_, ?_, ?_⟩
  · by_contra zero
    exact allowed (Or.inl (by omega))
  · rw [place]
    exact pointer
  · intro a above below
    change setTagN ptr ptr bin.regSize tags (granule a) = tag
    rw [stores, granule_eq (by omega)]
    exact if_pos (by omega)
  · intro a small outside
    change setTagN ptr ptr bin.regSize tags (granule a) = tags (granule a)
    rw [stores, granule_eq small]
    exact if_neg (by omega)
  · intro j before alloc same
    apply allowed
    refine Or.inr (Or.inl ⟨⟨?_, ?_⟩, ?_⟩)
    · rw [picks.index]
      omega
    · rw [picks.index, picks.state, if_neg (by omega), ← before, Nat.add_sub_cancel]
      exact alloc
    · have back : sub64 out.1 bin.regSize = heap + j * classSize b := by
        have next : (j + 1) * classSize b = j * classSize b + classSize b := Nat.succ_mul ..
        rw [picks.ptr, size, ← before, next, sub64_eq (by omega)]
        · omega
        · rw [← before, next] at place
          omega
      rw [back]
      exact same
  · intro last alloc same
    apply allowed
    refine Or.inr (Or.inr ⟨⟨?_, ?_⟩, ?_⟩)
    · rw [picks.index, elems]
      omega
    · rw [picks.index, picks.state, if_neg (by omega)]
      exact alloc
    · have next : (i + 1) * classSize b = i * classSize b + classSize b := Nat.succ_mul ..
      have ahead : u64 (out.1 + bin.regSize) = heap + (i + 1) * classSize b := by
        rw [picks.ptr, size, next, u64_eq (by omega)]
        omega
      rw [ahead]
      exact same

theorem runAllocateTagged_retags (site : TagSite b heap) (key : run.key = heap)
    {choose : Nat → Nat} (chooses : Chooses choose) :
    ∃ i tag, Retags b heap run tags
      (runAllocateTagged choose run (Bin.init (classSize b)) tags) i tag := by
  rcases binInit_class b site.isClass with ⟨size, elems, -, -, -⟩
  rcases runAllocate_picks site key with ⟨i, picks⟩
  exact ⟨i, _, retags_of_picks site picks chooses size elems rfl rfl⟩

theorem Separated.allocate (site : TagSite b heap) (separated : Separated b heap run tags returned)
    {out : TaggedRegion} {i tag : Nat} (retags : Retags b heap run tags out i tag) :
    Separated b heap out.run out.tags (Function.update returned i out.ptr) := by
  have untagged := site.untagged
  have size := site.size
  -- the tags of the other regions stay as they were
  have others : ∀ j < classElems b, j ≠ i → ∀ a, heap + j * classSize b ≤ a →
      a < heap + j * classSize b + classSize b → out.tags (granule a) = tags (granule a) := by
    intro j inside different a above below
    have region := site.region inside
    have apart := region_apart b heap different
    apply retags.keeps a (by omega)
    omega
  refine ⟨retags.key.trans separated.key, ?_, ?_⟩
  · intro j inside alloc
    by_cases same : j = i
    · subst same
      rw [Function.update_self]
      exact ⟨tag, retags.positive, retags.tag16, retags.ptr, retags.retags⟩
    · rw [retags.state, if_neg same] at alloc
      rcases separated.tagged j inside alloc with ⟨old, positive, old16, ptr, carried⟩
      rw [Function.update_of_ne same]
      refine ⟨old, positive, old16, ptr, ?_⟩
      intro a above below
      rw [others j inside same a above below]
      exact carried a above below
  · intro j inside alloc alloc'
    have first : ∀ k, heap + k * classSize b < heap + k * classSize b + classSize b := by
      intro k
      omega
    have remains : ∀ k < classElems b, k ≠ i → out.run.state k = .alloc →
        run.state k = .alloc ∧ out.tags (granule (heap + k * classSize b)) =
          tags (granule (heap + k * classSize b)) ∧
        tags (granule (heap + k * classSize b)) % 16 = tags (granule (heap + k * classSize b)) := by
      intro k within different state
      rw [retags.state, if_neg different] at state
      rcases separated.tagged k within state with ⟨old, -, old16, -, carried⟩
      rw [carried _ le_rfl (first k)]
      refine ⟨state, ?_, Nat.mod_eq_of_lt old16⟩
      rw [others k within different _ le_rfl (first k)]
      exact carried _ le_rfl (first k)
    have fresh : out.tags (granule (heap + i * classSize b)) = tag :=
      retags.retags _ le_rfl (first i)
    by_cases here : j = i
    · subst here
      rcases remains (j + 1) inside (Nat.succ_ne_self j) alloc' with ⟨old, kept, word⟩
      rw [fresh, kept, ← word]
      exact retags.right inside old
    · by_cases next : j + 1 = i
      · rcases remains j (by omega) here alloc with ⟨old, kept, word⟩
        rw [next, fresh, kept, ← word]
        exact (retags.left j next old).symm
      · rcases remains j (by omega) here alloc with ⟨old, kept, -⟩
        rcases remains (j + 1) inside next alloc' with ⟨old', kept', -⟩
        rw [kept, kept']
        exact separated.apart j inside old old'

theorem Separated.deallocate (separated : Separated b heap run tags returned) {bin : Bin}
    {ptr : Nat} : Separated b heap ((runDeallocateTagged run bin ptr).getD run) tags returned := by
  unfold runDeallocateTagged
  cases call : runDeallocate run bin (ptrClearTag ptr) with
  | none => exact separated
  | some freed =>
      rcases runDeallocate_some call with ⟨k, -, -, -, rfl⟩
      have older : ∀ j, (runMarkFreed run k).state j = .alloc → run.state j = .alloc := by
        intro j alloc
        rw [runMarkFreed_state] at alloc
        split_ifs at alloc
        exact alloc
      refine ⟨separated.key, ?_, ?_⟩
      · intro j inside alloc
        exact separated.tagged j inside (older j alloc)
      · intro j inside alloc alloc'
        exact separated.apart j inside (older j alloc) (older (j + 1) alloc')

theorem runInit_separated (site : TagSite b heap) (rand : Nat → Nat) (stale : Run) :
    Separated b heap (runInit rand stale (Bin.init (classSize b)) heap) tags returned := by
  rcases binInit_class b site.isClass with ⟨-, elems, bits, -, -⟩
  rw [← elems] at bits
  have free : ∀ j < classElems b,
      (runInit rand stale (Bin.init (classSize b)) heap).state j ≠ .alloc := by
    intro j inside
    rw [← elems] at inside
    rw [runInit_state inside (elems ▸ site.count.2) bits]
    exact BState.noConfusion
  refine ⟨rfl, ?_, ?_⟩
  · intro j inside alloc
    exact absurd alloc (free j inside)
  · intro j inside alloc
    exact absurd alloc (free j (by omega))

theorem tagHistory_separated (site : TagSite b heap) (rand : Nat → Nat) (stale : Run)
    {before : Tags} (history : TagHistory (Bin.init (classSize b))
      (runInit rand stale (Bin.init (classSize b)) heap) before run tags returned) :
    Separated b heap run tags returned := by
  induction history with
  | init returned => exact runInit_separated site rand stale
  | allocate history choose chooses ih =>
      rcases runAllocateTagged_retags site ih.key chooses with ⟨i, tag, retags⟩
      rw [retags.index]
      exact ih.allocate site retags
  | deallocate history ptr above inside ih => exact ih.deallocate

/-- After any calls on a run of any class, with any generator and start: the granules of every
allocated region carry the tag of the pointer that was returned for it, which is not 0,
allocated neighbours have different tags, and the next allocation sets the tags of its own
region only. -/
theorem run_tagSeparation (site : TagSite b heap) (rand : Nat → Nat) (stale : Run)
    {before : Tags} (history : TagHistory (Bin.init (classSize b))
      (runInit rand stale (Bin.init (classSize b)) heap) before run tags returned) :
    (∀ i < classElems b, run.state i = .alloc →
      ptrClearTag (returned i) = heap + i * classSize b ∧ pointerTag (returned i) ≠ 0 ∧
      ∀ a, heap + i * classSize b ≤ a → a < heap + i * classSize b + classSize b →
        tags (granule a) = pointerTag (returned i)) ∧
    (∀ i, i + 1 < classElems b → run.state i = .alloc → run.state (i + 1) = .alloc →
      pointerTag (returned i) ≠ pointerTag (returned (i + 1))) ∧
    (∀ choose, Chooses choose → ∃ i < classElems b,
      ptrClearTag (runAllocateTagged choose run (Bin.init (classSize b)) tags).ptr =
        heap + i * classSize b ∧
      ∀ j < classElems b, j ≠ i → ∀ a, heap + j * classSize b ≤ a →
        a < heap + j * classSize b + classSize b →
        (runAllocateTagged choose run (Bin.init (classSize b)) tags).tags (granule a) =
          tags (granule a)) := by
  have separated := tagHistory_separated site rand stale history
  have size := site.size
  have untagged := site.untagged
  have pointers : ∀ i < classElems b, ∀ tag < 16,
      ptrClearTag (tag * 2 ^ 56 + (heap + i * classSize b)) = heap + i * classSize b ∧
      pointerTag (tag * 2 ^ 56 + (heap + i * classSize b)) = tag := by
    intro i inside tag tag16
    have region := site.region inside
    unfold ptrClearTag pointerTag tagOffsetBits
    omega
  have carried : ∀ i < classElems b, run.state i = .alloc →
      ptrClearTag (returned i) = heap + i * classSize b ∧ pointerTag (returned i) ≠ 0 ∧
      ∀ a, heap + i * classSize b ≤ a → a < heap + i * classSize b + classSize b →
        tags (granule a) = pointerTag (returned i) := by
    intro i inside alloc
    rcases separated.tagged i inside alloc with ⟨tag, positive, tag16, ptr, carried⟩
    rw [ptr, (pointers i inside tag tag16).1, (pointers i inside tag tag16).2]
    exact ⟨rfl, by omega, carried⟩
  refine ⟨carried, ?_, ?_⟩
  · intro i inside alloc alloc' same
    apply separated.apart i inside alloc alloc'
    rw [(carried i (by omega) alloc).2.2 _ le_rfl (by omega),
      (carried (i + 1) inside alloc').2.2 _ le_rfl (by omega)]
    exact same
  · intro choose chooses
    rcases @runAllocateTagged_retags _ _ _ tags site separated.key choose chooses with
      ⟨i, tag, retags⟩
    refine ⟨i, retags.inside, ?_, ?_⟩
    · rw [retags.ptr]
      exact (pointers i retags.inside tag retags.tag16).1
    · intro j inside different a above below
      have region := site.region inside
      have apart := region_apart b heap different
      apply retags.keeps a (by omega)
      omega

/-- A processor that takes the least tag it may. -/
def leastTag (excludes : Nat) : Nat :=
  ((List.range 16).find? fun tag => !excludes.testBit tag).getD 0

theorem leastTag_chooses : Chooses leastTag := by
  rintro excludes ⟨tag, tag16, free⟩
  unfold leastTag
  cases found : (List.range 16).find? fun tag => !excludes.testBit tag with
  | none =>
      have refused := List.find?_eq_none.mp found tag (List.mem_range.mpr tag16)
      rw [free] at refused
      exact absurd rfl refused
  | some least =>
      have accepted := List.find?_some found
      exact ⟨List.mem_range.mp (List.mem_of_find?_eq_some found), by simpa using accepted⟩

/-- Two allocations from a new run of 16-byte regions. -/
def firstTagged : TaggedRegion :=
  runAllocateTagged leastTag
    (runInit (fun _ => 0) ⟨0, 0, 0, 0, 0, fun _ => 0#8⟩ (Bin.init (classSize 0)) 16384)
    (Bin.init (classSize 0)) fun _ => 0

def secondTagged : TaggedRegion :=
  runAllocateTagged leastTag firstTagged.run (Bin.init (classSize 0)) firstTagged.tags

theorem run_tagSeparation_two : ∃ returned : Nat → Nat,
    secondTagged.run.state 1 = .alloc ∧ secondTagged.run.state 2 = .alloc ∧
    pointerTag (returned 1) ≠ 0 ∧ pointerTag (returned 1) ≠ pointerTag (returned 2) := by
  have site : TagSite 0 16384 :=
    ⟨⟨by decide, by decide⟩, by decide, by decide⟩
  have fresh := @TagHistory.init (Bin.init (classSize 0))
    (runInit (fun _ => 0) ⟨0, 0, 0, 0, 0, fun _ => 0#8⟩ (Bin.init (classSize 0)) 16384)
    (fun _ => 0) fun _ => 0
  have one := fresh.allocate leastTag leastTag_chooses
  have two := one.allocate leastTag leastTag_chooses
  have separated := run_tagSeparation site (fun _ => 0) ⟨0, 0, 0, 0, 0, fun _ => 0#8⟩ two
  have both : secondTagged.run.state 1 = .alloc ∧ secondTagged.run.state 2 = .alloc := by
    decide +kernel
  have inside : 1 < classElems 0 ∧ 1 + 1 < classElems 0 := by decide
  exact ⟨_, both.1, both.2, (separated.1 1 inside.1 both.1).2.1,
    separated.2.1 1 inside.2 both.1 both.2⟩

end Runs

end Sealloc
