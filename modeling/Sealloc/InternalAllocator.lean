import Sealloc.Library.Prog
import Sealloc.Library.Crumbs
import Sealloc.Utils

/-! The internal allocator of `internal_allocator.c`, which serves metadata. -/

namespace Sealloc

open Library

def internalAllocChunkSizeBytes : Nat := 8388608
def internalAllocLeastRegionSizeBytes : Nat := 32
def internalAllocNoNodesLastLayer : Nat :=
  internalAllocChunkSizeBytes / internalAllocLeastRegionSizeBytes
def internalAllocNoNodes : Nat :=
  internalAllocNoNodesLastLayer + (internalAllocNoNodesLastLayer - 1)
def internalAllocBuddyTreeSizeBytes : Nat :=
  clearLow 8 (internalAllocNoNodes * 2 + 7) / 8

inductive IaNode where
  | full
  | split
  | used
  | free
  deriving DecidableEq, Repr

def IaNode.code : IaNode → Fin 4
  | full => 0
  | split => 1
  | used => 2
  | free => 3

def IaNode.ofByte (byte : Byte) : IaNode :=
  if byte = 0#8 then full else if byte = 1#8 then split else if byte = 2#8 then used else free

inductive TraverseState where
  | down
  | upLeft
  | upRight
  deriving DecidableEq, Repr

/-- `int_alloc_t` without its linkage entry; `memory` is user data of this level. -/
structure IntAlloc where
  freeMem : Nat
  buddyTree : Nat → Byte

/-- `sizeof(entry) + sizeof(free_mem)`, in front of the tree. -/
def intAllocHeaderBytes : Nat := 32

/-- The address of `root->memory`. -/
def intAllocMemory (root : Nat) : Nat :=
  root + (intAllocHeaderBytes + internalAllocBuddyTreeSizeBytes)

/-- `sizeof(int_alloc_t)`. -/
def intAllocSizeof : Nat :=
  intAllocHeaderBytes + internalAllocBuddyTreeSizeBytes + internalAllocChunkSizeBytes

def isLeaf (idx : Nat) : Prop := idx ≥ (internalAllocNoNodes + 1) / 2

instance (idx : Nat) : Decidable (isLeaf idx) := by unfold isLeaf; infer_instance

def internalAllocatorInit (ia : IntAlloc) : IntAlloc where
  freeMem := internalAllocChunkSizeBytes
  buddyTree := Function.update ia.buddyTree 0 (BitVec.ofNat 8 IaNode.free.code.val)

def getTreeItem (mem : Nat → Byte) (idx : Nat) : IaNode :=
  IaNode.ofByte (getCrumb mem (idx - 1))

def setTreeItem (mem : Nat → Byte) (idx : Nat) (node : IaNode) : Nat → Byte :=
  setCrumb mem (idx - 1) (BitVec.ofNat 8 node.code.val)

/-- The index of the other child of a node's parent. -/
def neighIdx (idx : Nat) : Nat := if idx % 2 = 1 then idx - 1 else idx + 1

def markNodesSplitLoop : Nat → (Nat → Byte) → Nat → Nat → Byte
  | 0, mem, _ => mem
  | rounds + 1, mem, idx =>
      if idx > 0 then
        if getTreeItem mem idx = .full then
          markNodesSplitLoop rounds (setTreeItem mem idx .split) (idx / 2)
        else mem
      else mem

/-- Each round halves `idx`, so `log2 idx + 1` of them reach zero. -/
def markNodesSplit (mem : Nat → Byte) (idx : Nat) : Nat → Byte :=
  markNodesSplitLoop (Nat.log2 idx + 1) mem idx

def coalesceFreeNodesLoop : Nat → (Nat → Byte) → Nat → Nat → Byte
  | 0, mem, _ => mem
  | rounds + 1, mem, idx =>
      if idx > 1 then
        if getTreeItem mem (neighIdx idx) = .free then
          coalesceFreeNodesLoop rounds (setTreeItem mem (idx / 2) .free) (idx / 2)
        else markNodesSplit mem (idx / 2)
      else mem

def coalesceFreeNodes (mem : Nat → Byte) (idx : Nat) : Nat → Byte :=
  coalesceFreeNodesLoop (Nat.log2 idx) mem idx

def coalesceFullNodesLoop : Nat → (Nat → Byte) → Nat → Nat → Byte
  | 0, mem, _ => mem
  | rounds + 1, mem, idx =>
      if idx > 1 then
        if getTreeItem mem (neighIdx idx) = .full ∨ getTreeItem mem (neighIdx idx) = .used then
          coalesceFullNodesLoop rounds (setTreeItem mem (idx / 2) .full) (idx / 2)
        else mem
      else mem

def coalesceFullNodes (mem : Nat → Byte) (idx : Nat) : Nat → Byte :=
  coalesceFullNodesLoop (Nat.log2 idx) mem idx

/-- The local variables of `internal_alloc`'s loop. -/
structure Search where
  idx : Nat
  curSize : Nat
  ptr : Nat
  state : TraverseState
  deriving DecidableEq, Repr

/-- The four assignments by which the loop goes to the parent. -/
def Search.up (s : Search) : Search where
  state := if s.idx % 2 = 1 then .upRight else .upLeft
  ptr := if s.idx % 2 = 1 then sub64 s.ptr s.curSize else s.ptr
  idx := s.idx / 2
  curSize := u64 (s.curSize * 2)

def Search.left (s : Search) : Search :=
  { s with idx := s.idx * 2, curSize := s.curSize / 2 }

def Search.right (s : Search) : Search where
  curSize := s.curSize / 2
  ptr := u64 (s.ptr + s.curSize / 2)
  state := .down
  idx := s.idx * 2 + 1

inductive AllocStep where
  | search (next : Search) (ia : IntAlloc)
  | found (ptr : Nat) (ia : IntAlloc)
  | error

/-- Allocate the node the search stands on. -/
def takeNode (s : Search) (ia : IntAlloc) : IntAlloc where
  freeMem := sub64 ia.freeMem s.curSize
  buddyTree := coalesceFullNodes (setTreeItem ia.buddyTree s.idx .used) s.idx

/-- Split the node the search stands on into two free ones. -/
def splitNode (s : Search) (ia : IntAlloc) : IntAlloc :=
  { ia with
    buddyTree :=
      setTreeItem
        (setTreeItem (setTreeItem ia.buddyTree s.idx .split) (s.idx * 2) .free)
        (s.idx * 2 + 1) .free }

def internalAllocStep (size : Nat) (s : Search) (ia : IntAlloc) : AllocStep :=
  if isLeaf s.idx then
    match getTreeItem ia.buddyTree s.idx with
    | .free => .found s.ptr (takeNode s ia)
    | .used => .search s.up ia
    | .split => .error
    | .full => .error
  else
    match s.state with
    | .down =>
        match getTreeItem ia.buddyTree s.idx with
        | .split =>
            if s.curSize / 2 < size ∧ size ≤ s.curSize then .search s.up ia
            else .search s.left ia
        | .free =>
            if s.curSize / 2 < size ∧ size ≤ s.curSize then .found s.ptr (takeNode s ia)
            else .search s.left (splitNode s ia)
        | .used => .search s.up ia
        | .full => .search s.up ia
    | .upLeft => .search s.right ia
    | .upRight => .search s.up ia

def internalAllocLoop (size : Nat) : Nat → Search → Prog IntAlloc (Option Nat)
  | 0, _ => Prog.outOfFuel
  | fuel + 1, s => fun ia =>
      if s.idx = 1 ∧ s.state = .upRight then .ok none ia
      else
        match internalAllocStep size s ia with
        | .search next ia' => internalAllocLoop size fuel next ia'
        | .found ptr ia' => .ok (some ptr) ia'
        | .error => .exit ia

/-- More rounds than a search of the whole tree takes. -/
def internalAllocFuel : Nat := 4194304

def internalAlloc (root size : Nat) : Prog IntAlloc (Option Nat) := fun ia =>
  if ia.freeMem < size then .ok none ia
  else
    internalAllocLoop size internalAllocFuel
      ⟨1, internalAllocChunkSizeBytes, intAllocMemory root, .down⟩ ia

/-- The first phase of `internal_free`: the node at which its loop stops and that
node's size, or `none` where it calls `se_error`. -/
def internalFreeFind (mem : Nat → Byte) (dest : Nat) :
    Nat → Nat → Nat → Nat → Option (Nat × Nat)
  | 0, _, _, _ => none
  | rounds + 1, idx, ptr, curSize =>
      if ptr = dest ∧ getTreeItem mem idx = .used then some (idx, curSize)
      else if isLeaf idx then none
      else if dest ≥ ptr + curSize / 2 then
        internalFreeFind mem dest rounds (idx * 2 + 1) (ptr + curSize / 2) (curSize / 2)
      else internalFreeFind mem dest rounds (idx * 2) ptr (curSize / 2)

/-- What follows the search: the node is marked free, and free nodes are coalesced. -/
def internalFreeNode (ia : IntAlloc) : Option (Nat × Nat) → Outcome IntAlloc Unit
  | none => .exit ia
  | some (idx, curSize) =>
      .ok () {
        freeMem := u64 (ia.freeMem + curSize)
        buddyTree := coalesceFreeNodes (setTreeItem ia.buddyTree idx .free) idx }

/-- The search of `internal_free` descends one level a round: 19 rounds visit a leaf. -/
def internalFree (root dest : Nat) : Prog IntAlloc Unit := fun ia =>
  internalFreeNode ia
    (internalFreeFind ia.buddyTree dest 19 1 (intAllocMemory root) internalAllocChunkSizeBytes)

end Sealloc
