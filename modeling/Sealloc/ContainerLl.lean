import Sealloc.Library.Chain
import Sealloc.Library.Lists
import Sealloc.Bin

/-! The linked lists of `container_ll.c` store sequences of entries.

A pool of entries is shared by any number of lists. The abstract state of a run is the
sequence that each list stores. -/

namespace Sealloc

open Library

variable {ε η : Type} [DecidableEq ε] [DecidableEq η]

/-- Every `ll_entry_t` of the pool, and the `ll` field of every `ll_head_t`. A null pointer is
`none`, except for keys. -/
structure LlPool (ε η : Type) where
  fd : ε → Option ε
  bk : ε → Option ε
  key : ε → Nat
  ll : η → Option ε

namespace LlPool

def setFd (p : LlPool ε η) (entry : ε) (link : Option ε) : LlPool ε η :=
  { p with fd := Function.update p.fd entry link }

def setBk (p : LlPool ε η) (entry : ε) (link : Option ε) : LlPool ε η :=
  { p with bk := Function.update p.bk entry link }

def setKey (p : LlPool ε η) (entry : ε) (key : Nat) : LlPool ε η :=
  { p with key := Function.update p.key entry key }

def setLl (p : LlPool ε η) (head : η) (link : Option ε) : LlPool ε η :=
  { p with ll := Function.update p.ll head link }

end LlPool

def llInit (head : η) (p : LlPool ε η) : LlPool ε η := p.setLl head none

def llAdd (head : η) (item : ε) (p : LlPool ε η) : LlPool ε η :=
  match p.ll head with
  | none => ((p.setLl head (some item)).setFd item none).setBk item none
  | some fst => (((p.setBk item none).setFd item (some fst)).setBk fst (some item)).setLl head
      (some item)

/-- The first step of `ll_del`, for an entry that is the head. -/
def llDelHead (head : η) (item : ε) (p : LlPool ε η) : LlPool ε η :=
  if p.ll head = some item then
    match p.fd item with
    | none => p.setLl head none
    | some next => (p.setLl head (some next)).setBk next none
  else p

def llDelNext (item : ε) (p : LlPool ε η) : LlPool ε η :=
  match p.fd item with
  | none => p
  | some next => p.setBk next (p.bk item)

def llDelPrev (item : ε) (p : LlPool ε η) : LlPool ε η :=
  match p.bk item with
  | none => p
  | some prev => p.setFd prev (p.fd item)

def llDel (head : η) (item : ε) (p : LlPool ε η) : LlPool ε η :=
  ((llDelPrev item (llDelNext item (llDelHead head item p))).setFd item none).setBk item none

/-- The loop of `ll_find`; `none` when it is still running after the given rounds. -/
def llFindLoop (p : LlPool ε η) (key : Nat) : Nat → Option ε → Option (Option ε)
  | 0, _ => none
  | _ + 1, none => some none
  | rounds + 1, some res =>
      if p.key res = key then some (some res) else llFindLoop p key rounds (p.fd res)

def llFind (p : LlPool ε η) (head : η) (key rounds : Nat) : Option (Option ε) :=
  llFindLoop p key rounds (p.ll head)

/-- The runs of a pool: every list is initialised, then entries that are in no list are given a
key that their list does not hold and added to it, and entries are deleted from the list that
holds them. Along with the pool goes the sequence of entries that each list should hold, newest
first, and which entries have been deleted before. -/
inductive LlRun (start : LlPool ε η) : LlPool ε η → (η → List ε) → Set ε → Prop where
  | init : LlRun start { start with ll := fun h => (llInit h start).ll h } (fun _ => []) ∅
  | add {p lists deleted head item key} (run : LlRun start p lists deleted)
      (unlisted : ∀ g, item ∉ lists g) (fresh : ∀ e ∈ lists head, p.key e ≠ key) :
      LlRun start (llAdd head item (p.setKey item key))
        (Function.update lists head (item :: lists head)) deleted
  | del {p lists deleted head item} (run : LlRun start p lists deleted)
      (listed : item ∈ lists head) :
      LlRun start (llDel head item p)
        (Function.update lists head ((lists head).erase item)) (insert item deleted)

/-- The lists of a pool store the sequences `lists`. -/
structure Stores (p : LlPool ε η) (lists : η → List ε) : Prop where
  chain : ∀ h, Chain p.fd p.bk none (p.ll h) (lists h)
  nodup : ∀ h, (lists h).Nodup
  apart : ∀ g h e, e ∈ lists g → e ∈ lists h → g = h
  keys : ∀ h, ∀ e ∈ lists h, ∀ e' ∈ lists h, p.key e = p.key e' → e = e'

namespace Stores

variable {p : LlPool ε η} {lists : η → List ε} {g head : η} {item e : ε} {key : Nat}

theorem mem_of_mem_erased {f : η}
    (inside : e ∈ Function.update lists head ((lists head).erase item) f) : e ∈ lists f := by
  by_cases same : f = head
  · subst same
    rw [Function.update_self] at inside
    exact List.mem_of_mem_erase inside
  · rw [Function.update_of_ne same] at inside
    exact inside

section Fields

@[simp] theorem llAdd_ll : (llAdd head item p).ll = Function.update p.ll head (some item) := by
  unfold llAdd
  cases p.ll head <;> rfl

@[simp] theorem llAdd_key : (llAdd head item p).key = p.key := by
  unfold llAdd
  cases p.ll head <;> rfl

theorem llAdd_fd (e : ε) :
    (llAdd head item p).fd e = if e = item then p.ll head else p.fd e := by
  unfold llAdd
  cases p.ll head <;> simp [LlPool.setLl, LlPool.setFd, LlPool.setBk, Function.update_apply]

theorem llAdd_bk (e : ε) : (llAdd head item p).bk e =
    if p.ll head = some e then some item else if e = item then none else p.bk e := by
  unfold llAdd
  cases p.ll head with
  | none => simp [LlPool.setLl, LlPool.setFd, LlPool.setBk, Function.update_apply]
  | some fst =>
      simp [LlPool.setLl, LlPool.setFd, LlPool.setBk, Function.update_apply, eq_comm]

@[simp] theorem llDel_key : (llDel head item p).key = p.key := by
  have first : (llDelHead head item p).key = p.key := by
    unfold llDelHead
    split
    · cases p.fd item <;> rfl
    · rfl
  have second : (llDelNext item (llDelHead head item p)).key = p.key := by
    unfold llDelNext
    cases (llDelHead head item p).fd item <;> exact first
  unfold llDel llDelPrev
  cases (llDelNext item (llDelHead head item p)).bk item <;> exact second

theorem llDel_ll : (llDel head item p).ll =
    if p.ll head = some item then Function.update p.ll head (p.fd item) else p.ll := by
  have first : (llDelHead head item p).ll =
      if p.ll head = some item then Function.update p.ll head (p.fd item) else p.ll := by
    unfold llDelHead
    split
    · cases p.fd item <;> rfl
    · rfl
  have second : (llDelNext item (llDelHead head item p)).ll = (llDelHead head item p).ll := by
    unfold llDelNext
    cases (llDelHead head item p).fd item <;> rfl
  rw [← first, ← second]
  unfold llDel llDelPrev
  cases (llDelNext item (llDelHead head item p)).bk item <;> rfl

theorem llDelHead_fd : (llDelHead head item p).fd = p.fd := by
  unfold llDelHead
  split
  · cases p.fd item <;> rfl
  · rfl

theorem llDelNext_fd : (llDelNext item (llDelHead head item p)).fd = p.fd := by
  rw [← @llDelHead_fd _ _ _ _ p head item]
  unfold llDelNext
  cases (llDelHead head item p).fd item <;> rfl

theorem llDelHead_bk (e : ε) : (llDelHead head item p).bk e =
    if p.ll head = some item ∧ p.fd item = some e then none else p.bk e := by
  unfold llDelHead
  by_cases first : p.ll head = some item
  · rw [if_pos first]
    cases next : p.fd item <;>
      simp [LlPool.setLl, LlPool.setBk, Function.update_apply, first, eq_comm]
  · rw [if_neg first, if_neg (fun both => first both.1)]

/-- The second step overwrites what the first one wrote to the next entry. -/
theorem llDelNext_bk (noLoop : p.fd item ≠ some item) (e : ε) :
    (llDelNext item (llDelHead head item p)).bk e =
      if p.fd item = some e then p.bk item else p.bk e := by
  have back : (llDelHead head item p).bk item = p.bk item := by
    rw [llDelHead_bk, if_neg (fun both => noLoop both.2)]
  unfold llDelNext
  rw [llDelHead_fd, back]
  cases next : p.fd item with
  | none => simp [llDelHead_bk, next]
  | some after =>
      simp only [LlPool.setBk, Function.update_apply, llDelHead_bk, next, Option.some.injEq,
        @eq_comm _ after]
      by_cases same : e = after
      · rw [if_pos same, if_pos same]
      · rw [if_neg same, if_neg same, if_neg (fun both => same both.2)]

theorem llDel_fd (noLoop : p.fd item ≠ some item) (e : ε) : (llDel head item p).fd e =
    if e = item then none else if p.bk item = some e then p.fd item else p.fd e := by
  have back : (llDelNext item (llDelHead head item p)).bk item = p.bk item := by
    rw [llDelNext_bk noLoop, if_neg noLoop]
  unfold llDel llDelPrev
  rw [back]
  cases previous : p.bk item <;>
    simp [LlPool.setFd, LlPool.setBk, Function.update_apply, llDelNext_fd, eq_comm]

theorem llDel_bk (noLoop : p.fd item ≠ some item) (e : ε) : (llDel head item p).bk e =
    if e = item then none else if p.fd item = some e then p.bk item else p.bk e := by
  unfold llDel llDelPrev
  cases (llDelNext item (llDelHead head item p)).bk item <;>
    simp [LlPool.setFd, LlPool.setBk, Function.update_apply, llDelNext_bk noLoop]

end Fields

omit [DecidableEq ε] [DecidableEq η] in
theorem first_mem (stores : Stores p lists) (first : p.ll head = some e) : e ∈ lists head := by
  rw [(stores.chain head).first_eq] at first
  exact List.mem_of_mem_head? first

omit [DecidableEq ε] [DecidableEq η] in
theorem no_loop (stores : Stores p lists) (listed : e ∈ lists head) : p.fd e ≠ some e :=
  (stores.chain head).no_loop (stores.nodup head) listed

omit [DecidableEq ε] [DecidableEq η] in
theorem prev_mem (stores : Stores p lists) (listed : item ∈ lists head)
    (previous : p.bk item = some e) : e ∈ lists head := by
  rcases (stores.chain head).prev_cases (stores.nodup head) listed with ⟨-, back⟩ | ⟨-, x, inside, back⟩
  · rw [previous] at back
    exact absurd back (Option.some_ne_none e)
  · rw [previous] at back
    rw [Option.some.inj back]
    exact inside

/-- A new entry of one list leaves the entries of the others as they are. -/
theorem add_other (stores : Stores p lists) (unlisted : ∀ g, item ∉ lists g)
    (different : g ≠ head) (other : e ∈ lists g) :
    (llAdd head item p).fd e = p.fd e ∧ (llAdd head item p).bk e = p.bk e := by
  have notItem : e ≠ item := fun same => unlisted g (same ▸ other)
  have notFirst : p.ll head ≠ some e := by
    intro first
    exact different (stores.apart g head e other (stores.first_mem first))
  rw [llAdd_fd, llAdd_bk, if_neg notItem, if_neg notFirst, if_neg notItem]
  exact ⟨rfl, rfl⟩

theorem del_other (stores : Stores p lists) (listed : item ∈ lists head)
    (different : g ≠ head) (other : e ∈ lists g) :
    (llDel head item p).fd e = p.fd e ∧ (llDel head item p).bk e = p.bk e := by
  have outside : e ∉ lists head := fun inside => different (stores.apart g head e other inside)
  have notItem : e ≠ item := fun same => outside (same ▸ listed)
  have notNext : p.fd item ≠ some e := fun next => outside ((stores.chain head).next_mem listed next)
  have notPrevious : p.bk item ≠ some e := fun previous => outside (stores.prev_mem listed previous)
  rw [llDel_fd (stores.no_loop listed), llDel_bk (stores.no_loop listed), if_neg notItem,
    if_neg notItem, if_neg notPrevious, if_neg notNext]
  exact ⟨rfl, rfl⟩

omit [DecidableEq ε] in
theorem init (start : LlPool ε η) :
    Stores { start with ll := fun h => (llInit h start).ll h } (fun _ : η => []) where
  chain h := by
    change Function.update start.ll h none h = none
    exact Function.update_self ..
  nodup _ := List.nodup_nil
  apart _ _ _ inside := absurd inside List.not_mem_nil
  keys _ _ inside := absurd inside List.not_mem_nil

omit [DecidableEq η] in
theorem setKey (stores : Stores p lists) (unlisted : ∀ g, item ∉ lists g) (key : Nat) :
    Stores (p.setKey item key) lists where
  chain := stores.chain
  nodup := stores.nodup
  apart := stores.apart
  keys h e inside e' inside' same := by
    have notE : e ≠ item := fun equal => unlisted h (equal ▸ inside)
    have notE' : e' ≠ item := fun equal => unlisted h (equal ▸ inside')
    simp only [LlPool.setKey, Function.update_of_ne notE, Function.update_of_ne notE'] at same
    exact stores.keys h e inside e' inside' same

theorem add (stores : Stores p lists) (unlisted : ∀ g, item ∉ lists g)
    (fresh : ∀ e ∈ lists head, p.key e ≠ p.key item) :
    Stores (llAdd head item p) (Function.update lists head (item :: lists head)) where
  chain h := by
    rw [llAdd_ll]
    by_cases same : h = head
    · subst same
      rw [Function.update_self, Function.update_self]
      have notFirst : p.ll h ≠ some item := fun first => unlisted h (stores.first_mem first)
      apply (stores.chain h).push (stores.nodup h) (unlisted h)
      · rw [llAdd_fd, if_pos rfl]
      · rw [llAdd_bk, if_neg notFirst, if_pos rfl]
      · intro y inside
        have notItem : y ≠ item := fun equal => unlisted h (equal ▸ inside)
        rw [llAdd_fd, if_neg notItem]
      · intro y inside
        have notItem : y ≠ item := fun equal => unlisted h (equal ▸ inside)
        rw [llAdd_bk, if_neg notItem]
    · rw [Function.update_of_ne same, Function.update_of_ne same]
      apply (stores.chain h).congr
      · intro y inside
        exact (stores.add_other unlisted same inside).1
      · intro y inside
        exact (stores.add_other unlisted same inside).2
  nodup h := by
    by_cases same : h = head
    · subst same
      rw [Function.update_self]
      exact List.nodup_cons.mpr ⟨unlisted h, stores.nodup h⟩
    · rw [Function.update_of_ne same]
      exact stores.nodup h
  apart g h e inG inH := by
    have cases_ : ∀ f, e ∈ Function.update lists head (item :: lists head) f →
        e ∈ lists f ∨ (e = item ∧ f = head) := by
      intro f inside
      by_cases same : f = head
      · subst same
        rw [Function.update_self] at inside
        rcases List.mem_cons.mp inside with equal | old
        · exact Or.inr ⟨equal, rfl⟩
        · exact Or.inl old
      · rw [Function.update_of_ne same] at inside
        exact Or.inl inside
    rcases cases_ g inG with oldG | ⟨equalG, headG⟩
    · rcases cases_ h inH with oldH | ⟨equalH, headH⟩
      · exact stores.apart g h e oldG oldH
      · exact absurd (equalH ▸ oldG) (unlisted g)
    · rcases cases_ h inH with oldH | ⟨equalH, headH⟩
      · exact absurd (equalG ▸ oldH) (unlisted h)
      · rw [headG, headH]
  keys h e inside e' inside' same := by
    rw [llAdd_key] at same
    by_cases here : h = head
    · subst here
      rw [Function.update_self] at inside inside'
      rcases List.mem_cons.mp inside with rfl | old
      · rcases List.mem_cons.mp inside' with rfl | old'
        · rfl
        · exact absurd same.symm (fresh e' old')
      · rcases List.mem_cons.mp inside' with rfl | old'
        · exact absurd same (fresh e old)
        · exact stores.keys h e old e' old' same
    · rw [Function.update_of_ne here] at inside inside'
      exact stores.keys h e inside e' inside' same

theorem del (stores : Stores p lists) (listed : item ∈ lists head) :
    Stores (llDel head item p) (Function.update lists head ((lists head).erase item)) where
  chain h := by
    rw [llDel_ll]
    by_cases same : h = head
    · subst same
      have first : (if p.ll h = some item then Function.update p.ll h (p.fd item) else p.ll) h =
          if p.ll h = some item then p.fd item else p.ll h := by
        split_ifs
        · exact Function.update_self ..
        · rfl
      rw [Function.update_self, first]
      apply (stores.chain h).erase (stores.nodup h) (fun b none_ => by cases none_) listed
      · intro y inside different
        rw [llDel_fd (stores.no_loop listed), if_neg different]
      · intro y inside different
        rw [llDel_bk (stores.no_loop listed), if_neg different]
    · have first : (if p.ll head = some item then Function.update p.ll head (p.fd item)
          else p.ll) h = p.ll h := by
        split_ifs
        · exact Function.update_of_ne same ..
        · rfl
      rw [Function.update_of_ne same, first]
      apply (stores.chain h).congr
      · intro y inside
        exact (stores.del_other listed same inside).1
      · intro y inside
        exact (stores.del_other listed same inside).2
  nodup h := by
    by_cases same : h = head
    · subst same
      rw [Function.update_self]
      exact (stores.nodup h).erase item
    · rw [Function.update_of_ne same]
      exact stores.nodup h
  apart g h e inG inH :=
    stores.apart g h e (mem_of_mem_erased inG) (mem_of_mem_erased inH)
  keys h e inside e' inside' same := by
    rw [llDel_key] at same
    exact stores.keys h e (mem_of_mem_erased inside) e' (mem_of_mem_erased inside') same

omit [DecidableEq ε] [DecidableEq η] in
/-- `ll_find` ends after the list and gives its entry with the key. -/
theorem find (stores : Stores p lists) (h : η) (key : Nat) {rounds : Nat}
    (enough : (lists h).length < rounds) :
    llFind p h key rounds = some ((lists h).find? fun e => p.key e = key) := by
  have loop : ∀ (xs : List ε) (first : Option ε) (rounds : Nat), Walks p.fd first xs →
      xs.length < rounds →
      llFindLoop p key rounds first = some (xs.find? fun e => p.key e = key) := by
    intro xs
    induction xs with
    | nil =>
        intro first rounds walk enough
        cases rounds with
        | zero => exact absurd enough (Nat.not_lt_zero _)
        | succ rounds =>
            rw [show first = none from walk]
            rfl
    | cons x xs ih =>
        intro first rounds walk enough
        cases rounds with
        | zero => exact absurd enough (Nat.not_lt_zero _)
        | succ rounds =>
            rcases walk with ⟨rfl, rest⟩
            unfold llFindLoop
            by_cases found : p.key x = key
            · simp [found]
            · rw [if_neg found, ih (p.fd x) rounds rest (Nat.lt_of_succ_lt_succ enough)]
              simp [found]
  exact loop _ _ _ (stores.chain h).walks enough

end Stores

/-- What the pool shows of the sequences: the walk along `fd` from a head, the inverse links
along `bk`, the cleared links of deleted entries, and what `ll_find` returns. -/
structure RepresentsLists (p : LlPool ε η) (lists : η → List ε) (deleted : Set ε) : Prop where
  walk : ∀ h, Walks p.fd (p.ll h) (lists h)
  nodup : ∀ h, (lists h).Nodup
  apart : ∀ g h e, e ∈ lists g → e ∈ lists h → g = h
  inverse : ∀ h, ∀ x ∈ lists h, ∀ y ∈ lists h, p.fd x = some y ↔ p.bk y = some x
  first : ∀ h, ∀ x ∈ lists h, p.bk x = none ↔ p.ll h = some x
  cleared : ∀ e ∈ deleted, (∀ h, e ∉ lists h) → p.fd e = none ∧ p.bk e = none
  find : ∀ h key rounds, (lists h).length < rounds →
    ∃ res, llFind p h key rounds = some res ∧ ∀ e, res = some e ↔ e ∈ lists h ∧ p.key e = key

/-- An operation on the list `head` leaves the other heads and their entries as they are. -/
def OthersUnchanged (p p' : LlPool ε η) (lists : η → List ε) (head : η) : Prop :=
  ∀ g, g ≠ head → p'.ll g = p.ll g ∧
    ∀ e ∈ lists g, p'.fd e = p.fd e ∧ p'.bk e = p.bk e ∧ p'.key e = p.key e

section Runs

variable {start p : LlPool ε η} {lists : η → List ε} {deleted : Set ε} {head : η} {item : ε}

theorem LlRun.stores (run : LlRun start p lists deleted) : Stores p lists := by
  induction run with
  | init => exact Stores.init start
  | @add p lists deleted head item key run unlisted fresh ih =>
      have keyed := ih.setKey unlisted key
      apply keyed.add unlisted
      intro e inside
      have notItem : e ≠ item := fun equal => unlisted head (equal ▸ inside)
      simp only [LlPool.setKey, Function.update_self, Function.update_of_ne notItem]
      exact fresh e inside
  | del run listed ih => exact ih.del listed

theorem LlRun.cleared (run : LlRun start p lists deleted) :
    ∀ e ∈ deleted, (∀ h, e ∉ lists h) → p.fd e = none ∧ p.bk e = none := by
  induction run with
  | init =>
      intro e none_
      exact absurd none_ (Set.notMem_empty e)
  | @add p lists deleted head item key run unlisted fresh ih =>
      intro e before unlisted'
      have notItem : e ≠ item := by
        rintro rfl
        apply unlisted' head
        rw [Function.update_self]
        exact List.mem_cons_self ..
      have old : ∀ h, e ∉ lists h := by
        intro h inside
        apply unlisted' h
        by_cases same : h = head
        · subst same
          rw [Function.update_self]
          exact List.mem_cons_of_mem item inside
        · rw [Function.update_of_ne same]
          exact inside
      have notFirst : (p.setKey item key).ll head ≠ some e :=
        fun first => old head (run.stores.first_mem first)
      rw [Stores.llAdd_fd, Stores.llAdd_bk, if_neg notItem, if_neg notFirst, if_neg notItem]
      exact ih e before old
  | @del p lists deleted head item run listed ih =>
      intro e before unlisted'
      have noLoop := run.stores.no_loop listed
      rw [Stores.llDel_fd noLoop, Stores.llDel_bk noLoop]
      by_cases same : e = item
      · rw [if_pos same, if_pos same]
        exact ⟨rfl, rfl⟩
      · have old : ∀ h, e ∉ lists h := by
          intro h inside
          apply unlisted' h
          by_cases here : h = head
          · subst here
            rw [Function.update_self]
            exact (List.mem_erase_of_ne same).mpr inside
          · rw [Function.update_of_ne here]
            exact inside
        have notNext : p.fd item ≠ some e :=
          fun next => old head ((run.stores.chain head).next_mem listed next)
        have notPrevious : p.bk item ≠ some e :=
          fun previous => old head (run.stores.prev_mem listed previous)
        rw [if_neg same, if_neg same, if_neg notPrevious, if_neg notNext]
        exact ih e (before.resolve_left same) old

theorem LlRun.represents (run : LlRun start p lists deleted) : RepresentsLists p lists deleted where
  walk h := (run.stores.chain h).walks
  nodup := run.stores.nodup
  apart := run.stores.apart
  inverse h x memberX y memberY :=
    (run.stores.chain h).fd_iff_bk (run.stores.nodup h) (fun b none_ => by cases none_)
      memberX memberY
  first h x member := by
    rcases (run.stores.chain h).prev_cases (run.stores.nodup h) member with
      ⟨head, back⟩ | ⟨notHead, b, -, back⟩
    · exact iff_of_true back head
    · rw [back]
      exact iff_of_false (Option.some_ne_none b) notHead
  cleared := run.cleared
  find h key rounds enough := by
    refine ⟨_, run.stores.find h key enough, ?_⟩
    intro e
    constructor
    · intro found
      have hit := List.find?_some found
      exact ⟨List.mem_of_find?_eq_some found, of_decide_eq_true hit⟩
    · rintro ⟨member, hit⟩
      apply find?_unique member (decide_eq_true hit)
      intro b other same
      exact run.stores.keys h b other e member ((of_decide_eq_true same).trans hit.symm)

/-- In every run the pool represents the sequences, each operation leaves the other lists
alone, and a deleted entry has both links null. -/
theorem ll_refines (run : LlRun start p lists deleted) :
    RepresentsLists p lists deleted ∧
    (∀ head item key, (∀ g, item ∉ lists g) → (∀ e ∈ lists head, p.key e ≠ key) →
      OthersUnchanged p (llAdd head item (p.setKey item key)) lists head) ∧
    (∀ head item, item ∈ lists head →
      OthersUnchanged p (llDel head item p) lists head ∧
      (llDel head item p).fd item = none ∧ (llDel head item p).bk item = none) := by
  refine ⟨run.represents, ?_, ?_⟩
  · intro head item key unlisted fresh g different
    have stores := run.stores.setKey unlisted key
    rw [Stores.llAdd_ll, Stores.llAdd_key]
    refine ⟨Function.update_of_ne different .., ?_⟩
    intro e other
    have links := stores.add_other unlisted different other
    have notItem : e ≠ item := fun equal => unlisted g (equal ▸ other)
    exact ⟨links.1, links.2, Function.update_of_ne notItem ..⟩
  · intro head item listed
    have noLoop := run.stores.no_loop listed
    rw [Stores.llDel_fd noLoop, Stores.llDel_bk noLoop, if_pos rfl, if_pos rfl]
    refine ⟨?_, rfl, rfl⟩
    intro g different
    rw [Stores.llDel_ll, Stores.llDel_key]
    constructor
    · split_ifs
      · exact Function.update_of_ne different ..
      · rfl
    · intro e other
      have links := run.stores.del_other listed different other
      exact ⟨links.1, links.2, rfl⟩

/-- Entries 4 and 7 are added with the keys 42 and 41, and 4 is deleted: `ll_find` gives 7 for the
key 41 and nothing for 42, and the links of 4 are null. -/
theorem ll_refines_once : ∃ p : LlPool Nat Unit, p.ll () = some 7 ∧
    (∃ res, llFind p () 41 2 = some res ∧ ∀ e, res = some e ↔ e ∈ [7] ∧ p.key e = 41) ∧
    p.fd 4 = none ∧ p.bk 4 = none := by
  let start : LlPool Nat Unit := ⟨fun _ => none, fun _ => none, fun _ => 0, fun _ => none⟩
  have empty := @LlRun.init Nat Unit _ _ start
  have one := @LlRun.add _ _ _ _ _ _ _ _ () 4 42 empty (by decide) (by decide)
  have two := @LlRun.add _ _ _ _ _ _ _ _ () 7 41 one (by decide) (by decide)
  have three := @LlRun.del _ _ _ _ _ _ _ _ () 4 two (by decide)
  have represents := (ll_refines three).1
  refine ⟨_, by decide, represents.find () 41 2 (by decide), ?_⟩
  exact represents.cleared 4 (Set.mem_insert 4 ∅) (by decide)

/-- The calls of `bin_retire_run` move a run from the sequence of active runs to that of
inactive runs, as `Bin.retireRun` does. -/
theorem LlRun.retire {lists : Bool → List Nat} {start p : LlPool Nat Bool} {deleted : Set Nat}
    (run : LlRun start p lists deleted) {bin : Bin} {entry : Nat}
    (active : lists true = bin.runListActive) (inactive : lists false = bin.runListInactive)
    (listed : entry ∈ bin.runListActive)
    (fresh : ∀ e ∈ bin.runListInactive, p.key e ≠ p.key entry) :
    ∃ lists' deleted', LlRun start (llAdd false entry (llDel true entry p)) lists' deleted' ∧
      lists' true = (bin.retireRun entry).runListActive ∧
      lists' false = (bin.retireRun entry).runListInactive := by
  rw [← active] at listed
  rw [← inactive] at fresh
  have deletion := run.del listed
  have stillInactive : Function.update lists true ((lists true).erase entry) false = lists false :=
    Function.update_of_ne Bool.false_ne_true ..
  have gone : ∀ g, entry ∉ Function.update lists true ((lists true).erase entry) g := by
    intro g
    cases g with
    | true =>
        rw [Function.update_self]
        exact (run.stores.nodup true).not_mem_erase
    | false =>
        rw [stillInactive]
        intro inside
        exact Bool.false_ne_true (run.stores.apart false true entry inside listed)
  have fresh' : ∀ e ∈ Function.update lists true ((lists true).erase entry) false,
      (llDel true entry p).key e ≠ p.key entry := by
    rw [stillInactive, Stores.llDel_key]
    exact fresh
  have addition := deletion.add gone fresh'
  have sameKey : (llDel true entry p).setKey entry (p.key entry) = llDel true entry p := by
    unfold LlPool.setKey
    rw [Stores.llDel_key, Function.update_eq_self, ← @Stores.llDel_key _ _ _ _ p true entry]
  rw [sameKey] at addition
  refine ⟨_, _, addition, ?_, ?_⟩
  · rw [Function.update_of_ne Bool.false_ne_true.symm, Function.update_self, active]
    rfl
  · rw [Function.update_self, stillInactive, inactive]
    rfl

end Runs

end Sealloc
