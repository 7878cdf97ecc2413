import Sealloc.Library.Accounts
import Sealloc.World.Blocks
import Sealloc.World.Quiet
import Sealloc.World.Session

/-! The books of the allocator: the metadata blocks that are on no list, the mapped bytes that
nothing is kept for, and the addresses of allocated regions. A function leaves in them what it
returns, and nothing else. -/

namespace Sealloc

open Library Chunk

/-- A byte of a chunk under no node that was given back. -/
def Backed (ck : Chunk) (x : Nat) : Prop :=
  ck.key ≤ x ∧ x < ck.key + chunkSizeBytes ∧
    ∀ n, IsNode n → (nodeRun ck.key n).Holds x → getBuddyTreeItem ck.buddyTree n ≠ .unmapped

namespace World

/-- A byte of an internal mapping, a chunk or a huge mapping. -/
def Owned (w : World) (x : Nat) : Prop :=
  Internal w.arena.internalAllocList x ∨
  (∃ chunk ∈ w.arena.chunkList, Backed (w.chunks chunk) x) ∨
  ∃ huge ∈ w.arena.hugeAllocList, (w.huges huge).key ≤ x ∧
    x < (w.huges huge).key + (w.huges huge).len

/-- A byte of a range that was granted at address zero, which passes for a failure. -/
def Forgotten (w : World) (x : Nat) : Prop :=
  ∃ span ∈ w.history.granted, span.start = 0 ∧ span.Holds x

/-- The metadata blocks in use that are on no list. -/
def strays (w : World) : Set Nat :=
  {a | Placed w.arena.internalAllocList w.intAllocs a 0 ∧ ∀ kind, a ∉ w.arena.entries kind}

/-- The mapped bytes that the allocator has no use for. -/
def aliens (w : World) : Set Nat := {x | w.Mapped x ∧ ¬ w.Owned x ∧ ¬ w.Forgotten x}

/-- The addresses of allocated regions. -/
def starts (w : World) : Set Nat := {p | ∃ o n, Located w p o n}

end World

/-- What a function has taken and not yet put anywhere, or returns. -/
structure Hand where
  blocks : Set Nat
  bytes : Set Nat
  ptrs : Set Nat

namespace Hand

def empty : Hand := ⟨∅, ∅, ∅⟩

def block (a : Nat) : Hand := ⟨{a}, ∅, ∅⟩

def range (span : Span) : Hand := ⟨∅, {x | span.Holds x}, ∅⟩

def ptr (p : Nat) : Hand := ⟨∅, ∅, {p}⟩

def add (held other : Hand) : Hand :=
  ⟨held.blocks ∪ other.blocks, held.bytes ∪ other.bytes, held.ptrs ∪ other.ptrs⟩

@[simp] theorem empty_add (held : Hand) : empty.add held = held := by
  simp [add, empty]

theorem range_add_block (span : Span) (a : Nat) :
    (range span).add (block a) = ⟨{a}, {x | span.Holds x}, ∅⟩ := by
  simp [add, range, block]

end Hand

/-- But for what is in hand, the books of `w'` are those of `w`, and the bytes that the allocator
has no use for are as they were. -/
structure Ledger (held : Hand) (w : World) (held' : Hand) (w' : World) : Prop where
  blocks : Accounts World.strays held.blocks w held'.blocks w'
  bytes : Accounts World.aliens held.bytes w held'.bytes w'
  ptrs : Accounts World.starts held.ptrs w held'.ptrs w'
  kept : ∀ x ∈ w.aliens \ held.bytes, x ∈ w'.aliens \ held'.bytes ∧ w'.memory x = w.memory x

namespace Ledger

variable {held held' held'' : Hand} {w w' w'' : World}

theorem refl (held : Hand) (w : World) : Ledger held w held w where
  blocks := .refl _ w
  bytes := .refl _ w
  ptrs := .refl _ w
  kept := fun _ member => ⟨member, rfl⟩

theorem trans (first : Ledger held w held' w') (second : Ledger held' w' held'' w'') :
    Ledger held w held'' w'' where
  blocks := first.blocks.trans second.blocks
  bytes := first.bytes.trans second.bytes
  ptrs := first.ptrs.trans second.ptrs
  kept := by
    intro x member
    have here := first.kept x member
    have there := second.kept x here.1
    exact ⟨there.1, there.2.trans here.2⟩

theorem frame (other : Hand) (step : Ledger held w held' w') :
    Ledger (held.add other) w (held'.add other) w' where
  blocks := step.blocks.frame other.blocks
  bytes := step.bytes.frame other.bytes
  ptrs := step.ptrs.frame other.ptrs
  kept := by
    intro x member
    have outside : x ∉ held.bytes ∧ x ∉ other.bytes := not_or.mp member.2
    have here := step.kept x ⟨member.1, outside.1⟩
    exact ⟨⟨here.1.1, fun inside => inside.elim here.1.2 outside.2⟩, here.2⟩

/-- A function that starts with empty hands leaves alone what its caller holds. -/
theorem carry (other : Hand) (step : Ledger .empty w held' w') :
    Ledger other w (held'.add other) w' := by
  have framed := step.frame other
  rwa [Hand.empty_add] at framed

theorem carry_quiet (other : Hand) (step : Ledger .empty w .empty w') :
    Ledger other w other w' := by
  have framed := step.carry other
  rwa [Hand.empty_add] at framed

/-- A step after which the books are the same. -/
theorem same (strays : w'.strays = w.strays) (aliens : w'.aliens = w.aliens)
    (starts : w'.starts = w.starts) (memory : ∀ x ∈ w.aliens, w'.memory x = w.memory x) :
    Ledger held w held w' where
  blocks := .same strays
  bytes := .same aliens
  ptrs := .same starts
  kept := by
    intro x member
    rw [aliens]
    exact ⟨member, memory x member.1⟩

/-- A step that hands the bytes in hand over to the allocator. -/
theorem settle (strays : Accounts World.strays held.blocks w held'.blocks w')
    (starts : Accounts World.starts held.ptrs w held'.ptrs w') (empty : held'.bytes = ∅)
    (aliens : w'.aliens = w.aliens \ held.bytes)
    (memory : ∀ x ∈ w.aliens, x ∉ held.bytes → w'.memory x = w.memory x) :
    Ledger held w held' w' where
  blocks := strays
  bytes := by
    rw [empty]
    apply Accounts.give
    rw [aliens]
  ptrs := starts
  kept := by
    intro x member
    rw [aliens, empty]
    exact ⟨⟨member, id⟩, memory x member.1 member.2⟩

end Ledger

section Books

variable {w w' : World} {a : Nat}

/-- A block in hand that is put on a list. -/
theorem strays_enter (roots : w'.arena.internalAllocList = w.arena.internalAllocList)
    (intAllocs : w'.intAllocs = w.intAllocs)
    (stay : ∀ kind, ∀ b ∈ w.arena.entries kind, b ∈ w'.arena.entries kind)
    (here : ∃ kind, a ∈ w'.arena.entries kind) : Accounts World.strays {a} w ∅ w' := by
  apply Accounts.give
  intro other stray
  rcases stray with ⟨block, unlisted⟩
  rw [roots, intAllocs] at block
  refine ⟨⟨block, fun kind listed => unlisted kind (stay kind other listed)⟩, ?_⟩
  intro same
  rcases here with ⟨kind, listed⟩
  have isBlock : other = a := same
  exact unlisted kind (isBlock ▸ listed)

/-- A block that is taken off a list is in hand. -/
theorem strays_leave (roots : w'.arena.internalAllocList = w.arena.internalAllocList)
    (intAllocs : w'.intAllocs = w.intAllocs)
    (stay : ∀ kind, ∀ b ∈ w.arena.entries kind, b = a ∨ b ∈ w'.arena.entries kind) :
    Accounts World.strays ∅ w {a} w' := by
  apply Accounts.take
  intro other stray
  rcases stray with ⟨block, unlisted⟩
  rw [roots, intAllocs] at block
  by_cases same : other = a
  · exact Or.inr same
  · left
    refine ⟨block, ?_⟩
    intro kind listed
    exact unlisted kind ((stay kind other listed).resolve_left same)

/-- A step that unmaps some of the allocator's bytes and makes others the allocator's. -/
theorem aliens_change {lost gained : Set Nat}
    (granted : w'.history.granted = w.history.granted)
    (mapped : ∀ x, w'.Mapped x ↔ w.Mapped x ∧ x ∉ lost)
    (owned : ∀ x, w'.Owned x ↔ (w.Owned x ∧ x ∉ lost) ∨ x ∈ gained)
    (inside : ∀ x ∈ lost, w.Owned x) : w'.aliens = w.aliens \ gained := by
  have forgotten : ∀ x, w'.Forgotten x ↔ w.Forgotten x := by
    intro x
    unfold World.Forgotten
    rw [granted]
  ext x
  have lose := inside x
  have member : x ∈ w'.aliens ↔ w'.Mapped x ∧ ¬ w'.Owned x ∧ ¬ w'.Forgotten x := Iff.rfl
  have member' : x ∈ w.aliens ↔ w.Mapped x ∧ ¬ w.Owned x ∧ ¬ w.Forgotten x := Iff.rfl
  rw [Set.mem_sdiff, member, member', mapped, owned, forgotten]
  tauto

end Books

section Owned

variable {w w' : World} {g : Layout} {pending : Option (Nat × Nat)}

/-- A node that holds a byte is above the leaf of the byte. -/
theorem nodeRun_holds {key n x : Nat} (node : IsNode n) (low : key ≤ x)
    (high : x < key + chunkSizeBytes) :
    (nodeRun key n).Holds x ↔ Below n (2048 + (x - key) / 16384) := by
  have size : chunkSizeBytes = 16384 * 2048 := rfl
  have leaf : InLevel 11 (2048 + (x - key) / 16384) := by
    constructor
    · omega
    · omega
  rw [leaf_below node leaf]
  unfold ChunkRun.Holds nodeRun
  rw [leastRegion]
  simp only
  omega

/-- What is given back of a chunk are its dead runs. -/
theorem ChunkPlace.backed {ck : Chunk} {live dead : List Nat} (place : ChunkPlace ck live dead)
    {x : Nat} : Backed ck x ↔ ck.key ≤ x ∧ x < ck.key + chunkSizeBytes ∧
      ∀ n ∈ dead, ¬ (nodeRun ck.key n).Holds x := by
  have isNode : ∀ n ∈ dead, IsNode n := fun n member =>
    ⟨by have := place.inv.nodes n (List.mem_append_right _ member); omega,
      (place.inv.nodes n (List.mem_append_right _ member)).2⟩
  unfold Backed
  constructor
  · intro backed
    rcases backed with ⟨low, high, intact⟩
    refine ⟨low, high, ?_⟩
    intro n member holds
    have node := isNode n member
    exact intact n node holds ((place.inv.states.unmapped n node).mpr (.run member))
  · intro outside
    rcases outside with ⟨low, high, intact⟩
    refine ⟨low, high, ?_⟩
    intro n node holds unmapped
    have gone := (place.inv.states.unmapped n node).mp unmapped
    have below := (nodeRun_holds node low high).mp holds
    rcases gone.meets below with ⟨run, member, above | under⟩
    · exact intact run member ((nodeRun_holds (isNode run member) low high).mpr above)
    · -- a run under a leaf is the leaf
      have same : run = 2048 + (x - ck.key) / 16384 := by
        rcases under with ⟨depth, up⟩
        have bound := (isNode run member).2
        have shallow : depth = 0 := by
          by_contra deep
          have half : 2 ≤ 2 ^ depth := Nat.le_self_pow deep 2
          have small : run / 2 ^ depth ≤ run / 2 := Nat.div_le_div_left half (by decide)
          omega
        rw [shallow, Nat.pow_zero, Nat.div_one] at up
        exact up
      apply intact run member
      rw [nodeRun_holds (isNode run member) low high, same]
      exact below_refl _

theorem Inv.owned_iff (inv : Inv w g pending) {x : Nat} : w.Owned x ↔ ∃ o, Owns w g o x := by
  constructor
  · intro owned
    rcases owned with ⟨root, member, inside⟩ | ⟨chunk, member, backed⟩ | ⟨huge, member, inside⟩
    · exact ⟨.internal root, member, inside⟩
    · exact ⟨.chunk chunk, member, (inv.chunks chunk member).backed.mp backed⟩
    · exact ⟨.huge huge, member, inside⟩
  · intro owns
    rcases owns with ⟨o, owns⟩
    cases o with
    | internal root => exact Or.inl ⟨root, owns.1, owns.2⟩
    | chunk chunk =>
        exact Or.inr (Or.inl ⟨chunk, owns.1, (inv.chunks chunk owns.1).backed.mpr owns.2⟩)
    | huge huge => exact Or.inr (Or.inr ⟨huge, owns.1, owns.2⟩)

/-- Who owns a byte depends on the lists, the chunks and the huge mappings. -/
theorem owned_congr (roots : w'.arena.internalAllocList = w.arena.internalAllocList)
    (chunkList : w'.arena.chunkList = w.arena.chunkList)
    (hugeAllocList : w'.arena.hugeAllocList = w.arena.hugeAllocList)
    (chunks : w'.chunks = w.chunks) (huges : w'.huges = w.huges) : w'.Owned = w.Owned := by
  funext x
  unfold World.Owned
  rw [roots, chunkList, hugeAllocList, chunks, huges]

/-- A store to a metadata block hits only what the allocator owns. -/
theorem aliens_apart {addr size x : Nat} (alien : x ∈ w.aliens)
    (placed : Placed w.arena.internalAllocList w.intAllocs addr size) :
    ¬ (addr ≤ x ∧ x < addr + size) := by
  intro inside
  exact alien.2.1 (Or.inl (placed.internal inside.1 inside.2))

theorem Placed.some {roots : List Nat} {ias : Nat → IntAlloc} {addr size : Nat}
    (placed : Placed roots ias addr size) : Placed roots ias addr 0 := by
  rcases placed with ⟨root, member, k, block, -⟩
  exact ⟨root, member, k, block, Nat.zero_le _⟩

end Owned

/-- What is mapped after a step that unmaps nothing: no more than before but for `fresh` and what
is forgotten. -/
structure Brings (fresh : Set Nat) (w w' : World) : Prop where
  still : ∀ x, w.Mapped x → w'.Mapped x
  mapped : ∀ x, w'.Mapped x → w.Mapped x ∨ x ∈ fresh ∨ w'.Forgotten x
  forgotten : ∀ x, w.Forgotten x → w'.Forgotten x
  zero : ∀ x, w'.Forgotten x → w.Forgotten x ∨ ¬ w.Mapped x

namespace Brings

variable {fresh fresh' : Set Nat} {w w' w'' : World}

theorem trans (first : Brings fresh w w') (second : Brings fresh' w' w'') :
    Brings (fresh ∪ fresh') w w'' where
  still := fun x mapped => second.still x (first.still x mapped)
  mapped := by
    intro x now
    rcases second.mapped x now with before | new | zero
    · rcases first.mapped x before with old | new | zero
      · exact Or.inl old
      · exact Or.inr (Or.inl (Or.inl new))
      · exact Or.inr (Or.inr (second.forgotten x zero))
    · exact Or.inr (Or.inl (Or.inr new))
    · exact Or.inr (Or.inr zero)
  forgotten := fun x zero => second.forgotten x (first.forgotten x zero)
  zero := by
    intro x now
    rcases second.zero x now with before | unmapped
    · exact first.zero x before
    · exact Or.inr fun mapped => unmapped (first.still x mapped)

theorem mono (brings : Brings fresh w w') (more : fresh ⊆ fresh') : Brings fresh' w w' where
  still := brings.still
  mapped := fun x now => (brings.mapped x now).imp_right (Or.imp_left fun new => more new)
  forgotten := brings.forgotten
  zero := brings.zero

/-- A step that brings nothing, and one after it. -/
theorem after (first : Brings ∅ w w') (second : Brings fresh w' w'') : Brings fresh w w'' :=
  (first.trans second).mono fun _ member => member.resolve_left id

theorem before (first : Brings fresh w w') (second : Brings ∅ w' w'') : Brings fresh w w'' :=
  (first.trans second).mono fun _ member => member.resolve_right id

theorem quiet (maps : w'.maps = w.maps) (granted : w'.history.granted = w.history.granted) :
    Brings ∅ w w' := by
  have mapped : w'.Mapped = w.Mapped := by
    funext x
    unfold World.Mapped
    rw [maps]
  have forgotten : w'.Forgotten = w.Forgotten := by
    funext x
    unfold World.Forgotten
    rw [granted]
  refine ⟨?_, ?_, ?_, ?_⟩
  · rw [mapped]
    exact fun _ => id
  · rw [mapped]
    exact fun _ => Or.inl
  · rw [forgotten]
    exact fun _ => id
  · rw [forgotten]
    exact fun _ => Or.inl

instance : IsPreorder World (Brings ∅) where
  refl _ := quiet rfl rfl
  trans _ _ _ := after

end Brings

section Mappings

variable {w w' : World} {env : Env}

theorem Quiet.brings (quiet : Quiet w w') : Brings ∅ w w' := .quiet quiet.maps quiet.granted

theorem quiet_brings {α : Type} {x : Prog World α} (quiet : Steps Quiet x) :
    Steps (Brings ∅) x := quiet.mono Quiet.brings

theorem addMap_brings {span : Span} (grantable : Grantable w.maps span) :
    Brings {x | span.start ≠ 0 ∧ span.Holds x} w (w.addMap span) where
  still := fun x mapped => (mapped_addMap w span x).mpr (Or.inl mapped)
  mapped := by
    intro x now
    rcases (mapped_addMap w span x).mp now with before | holds
    · exact Or.inl before
    · right
      by_cases zero : span.start = 0
      · exact Or.inr ⟨span, List.mem_cons_self, zero, holds⟩
      · exact Or.inl ⟨zero, holds⟩
  forgotten := by
    intro x before
    rcases before with ⟨other, member, zero, holds⟩
    exact ⟨other, List.mem_cons_of_mem span member, zero, holds⟩
  zero := by
    intro x now
    rcases now with ⟨other, member, zero, holds⟩
    rcases List.mem_cons.mp member with rfl | before
    · exact Or.inr (grantable.unmapped holds)
    · exact Or.inl ⟨other, before, zero, holds⟩

/-- The bytes that an answer of `mmap` brings. -/
def MmapReply.bytes (len : Nat) : MmapReply → Set Nat
  | .granted addr => {x | addr ≠ 0 ∧ Span.Holds ⟨addr, len⟩ x}
  | .failed _ => ∅

theorem mmap_brings (hint len : Nat) :
    wlp (mmap env hint len) (fun reply w' => Brings (reply.bytes len) w w') w := by
  have counted : Brings ∅ w w.countMmap := .quiet rfl rfl
  intro reply w' run
  unfold mmap at run
  by_cases empty : len = 0
  · rw [if_pos empty] at run
    injection run with value state
    rw [← value, ← state]
    exact counted
  · rw [if_neg empty] at run
    cases answer : env.mmap w.mmapCalls hint len with
    | failed errno =>
        simp only [answer] at run
        injection run with value state
        rw [← value, ← state]
        exact counted
    | granted addr =>
        simp only [answer] at run
        by_cases free : Grantable w.maps ⟨addr, len⟩
        · rw [if_pos free] at run
          injection run with value state
          rw [← value, ← state]
          have free' : Grantable w.countMmap.maps ⟨addr, len⟩ := free
          exact counted.after (addMap_brings free')
        · rw [if_neg free] at run
          injection run with value state
          rw [← value, ← state]
          exact counted

/-- The bytes that a probe for memory brings. -/
def probeBytes (len : Nat) (out : PlatformStatus × Nat) : Set Nat :=
  {x | out.1.Mapped ∧ Span.Holds ⟨out.2, len⟩ x}

theorem platformMapProbeLoop_brings (probe ceiling len : Nat) : ∀ fuel newProbe (w : World),
    wlp (platformMapProbeLoop env probe ceiling len fuel newProbe)
      (fun out w' => Brings (probeBytes len out) w w') w := by
  intro fuel
  induction fuel with
  | zero =>
      intro newProbe w
      exact wlp_outOfFuel
  | succ fuel ih =>
      intro newProbe w
      unfold platformMapProbeLoop
      rw [wlp_bind]
      refine wlp_mono (mmap_brings newProbe len) ?_
      intro reply w₁ brings
      have again : ∀ next, Brings ∅ w w₁ →
          wlp (platformMapProbeLoop env probe ceiling len fuel next)
            (fun out w' => Brings (probeBytes len out) w w') w₁ := by
        intro next nothing
        refine wlp_mono (ih next w₁) ?_
        exact fun out w₂ later => nothing.after later
      have plain : ∀ code value, Brings ∅ w w₁ → wlp (return (code, value))
          (fun out w' => Brings (probeBytes len out) w w') w₁ := by
        intro code value nothing
        exact (wlp_pure _).mpr (nothing.mono fun _ => False.elim)
      cases reply with
      | granted map =>
          by_cases null : map = 0
          · simp only [if_pos null]
            exact again newProbe (brings.mono fun x member => member.1 null)
          · have got : ∀ code, PlatformStatus.Mapped code → Brings (probeBytes len (code, map)) w w₁ :=
              fun code mapped => brings.mono fun x member => ⟨mapped, member.2⟩
            by_cases other : map ≠ newProbe
            · simp only [if_neg null, if_pos other]
              exact (wlp_pure _).mpr (got .differentAddress trivial)
            · simp only [if_neg null, if_neg other]
              exact (wlp_pure _).mpr (got .ok trivial)
      | failed errno =>
          cases errno with
          | eexist =>
              by_cases ceilingHit : u64 (newProbe + pageSize) ≥ ceiling
              · simp only [if_pos ceilingHit]
                exact plain _ _ brings
              · simp only [if_neg ceilingHit]
                exact again _ brings
          | einval => exact plain _ _ brings
          | enomem => exact plain _ _ brings
          | other => exact plain _ _ brings

theorem platformMapProbe_brings (fuel probe ceiling len : Nat) :
    wlp (platformMapProbe env fuel probe ceiling len)
      (fun out w' => Brings (probeBytes len out) w w') w := by
  unfold platformMapProbe
  by_cases above : probe ≥ ceiling
  · rw [if_pos above]
    have nothing : Brings ∅ w w := .quiet rfl rfl
    exact (wlp_pure _).mpr (nothing.mono fun _ => False.elim)
  · rw [if_neg above]
    exact platformMapProbeLoop_brings probe ceiling len fuel probe w

theorem setArena_brings (w : World) (arena : Arena) : Brings ∅ w (w.setArena arena) :=
  .quiet rfl rfl

/-- Every mapping that `arena_morecore` makes it returns. -/
theorem arenaMorecoreLoop_brings {which : ProbePtr} {reset : Prog World Unit}
    (resets : Steps Quiet reset) (inner size : Nat) (ceil : Arena → Nat) :
    ∀ fuel (w : World), wlp (arenaMorecoreLoop env inner which reset size ceil fuel)
      (fun map w' => Brings {x | Span.Holds ⟨map, size⟩ x} w w') w := by
  intro fuel
  induction fuel with
  | zero =>
      intro w
      exact wlp_outOfFuel
  | succ fuel ih =>
      intro w
      unfold arenaMorecoreLoop
      simp only [wlp_bind, wlp_get]
      refine wlp_mono (platformMapProbe_brings inner _ _ size) ?_
      intro out w₁ brings
      rcases out with ⟨code, probe⟩
      refine wlp_mono (setProbe_quiet which probe w₁) ?_
      intro _ w₂ quiet
      have moved := quiet.brings
      have sofar := brings.before moved
      have again : ∀ w₃, Brings ∅ w w₃ →
          wlp (arenaMorecoreLoop env inner which reset size ceil fuel)
            (fun map w' => Brings {x | Span.Holds ⟨map, size⟩ x} w w') w₃ := by
        intro w₃ nothing
        refine wlp_mono (ih w₃) ?_
        exact fun map w₄ later => nothing.after later
      have done : ∀ w₃, Brings ∅ w₂ w₃ → Brings {x | Span.Holds ⟨probe, size⟩ x} w w₃ :=
        fun w₃ after => (sofar.before after).mono fun x member => member.2
      have nothing : ¬ code.Mapped → Brings ∅ w w₂ :=
        fun unmapped => sofar.mono fun x member => unmapped member.1
      cases code with
      | ok => exact (wlp_pure _).mpr (done w₂ (.quiet rfl rfl))
      | ceilingHit =>
          rw [wlp_bind]
          refine wlp_mono (resets w₂) ?_
          exact fun _ w₃ after => again w₃ ((nothing id).after after.brings)
      | differentAddress =>
          rw [wlp_bind]
          refine wlp_mono (resets w₂) ?_
          exact fun _ w₃ after => (wlp_pure _).mpr (done w₃ after.brings)
      | errUnknown => exact again w₂ (nothing id)
      | errNomem => exact again w₂ (nothing id)
      | errInval => exact again w₂ (nothing id)

/-- What is mapped for metadata is an internal mapping. -/
theorem arenaInternalAlloc_brings (fuel size : Nat) :
    wlp (arenaInternalAlloc env fuel size)
      (fun _ w' => Brings {x | Internal w'.arena.internalAllocList x} w w') w := by
  unfold arenaInternalAlloc
  simp only [wlp_bind, wlp_get]
  refine wlp_mono (internalAllocFrom_quiet size _ w) ?_
  intro found w₁ first
  cases found with
  | some a => exact (wlp_pure _).mpr (first.brings.mono fun _ => False.elim)
  | none =>
      simp only [wlp_bind]
      refine wlp_mono (arenaMorecoreLoop_brings (resetPtrStart_quiet _) fuel _
        (fun _ => maxUserspaceAddr64) fuel w₁) ?_
      intro map w₂ got
      refine wlp_mono (skipMapping_quiet .internalAlloc map _ w₂) ?_
      intro _ w₃ skipped
      simp only [wlp_modify]
      refine wlp_mono (onIntAlloc_quiet map (internalAlloc map size) _) ?_
      intro _ w₄ last
      have stored : Brings ∅ w₃ ((w₃.setIntAlloc map
          (internalAllocatorInit ⟨0, fun _ => 0#8⟩)).setArena
            { w₃.arena with internalAllocList := map :: w₃.arena.internalAllocList }) :=
        .quiet rfl rfl
      have moved := (got.before skipped.brings).before stored
      apply (first.brings.after (moved.before last.brings)).mono
      intro x inside
      refine ⟨map, ?_, inside⟩
      rw [last.internalAllocList]
      exact List.mem_cons_self

end Mappings

section Metadata

variable {w w' : World} {gone : Nat → Prop} {fresh : Set Nat} {env : Env}

theorem MetaFrame.starts (frame : MetaFrame gone w w') : w'.starts = w.starts := by
  have located : ∀ p o n, Located w' p o n ↔ Located w p o n := by
    intro p o n
    unfold Located Region
    rw [frame.entries.1, frame.runChunk, frame.runs, frame.hugeAllocList, frame.huges]
  unfold World.starts
  simp only [located]

/-- Nothing but a new internal mapping becomes the allocator's. -/
theorem MetaFrame.owned (frame : MetaFrame gone w w') {x : Nat} (mapped : w.Mapped x)
    (owned : w'.Owned x) : w.Owned x := by
  unfold World.Owned at owned ⊢
  rw [frame.chunkList, frame.chunks, frame.hugeAllocList, frame.huges] at owned
  rcases owned with ⟨root, member, inside⟩ | other
  · rcases frame.old root member with before | unmapped
    · exact Or.inl ⟨root, before, inside⟩
    · exact absurd mapped (unmapped x inside.1 inside.2)
  · exact Or.inr other

theorem MetaFrame.stays_owned (frame : MetaFrame gone w w')
    (roots : ∀ root ∈ w.arena.internalAllocList, root ∈ w'.arena.internalAllocList) {x : Nat}
    (owned : w.Owned x) : w'.Owned x := by
  unfold World.Owned at owned ⊢
  rw [frame.chunkList, frame.chunks, frame.hugeAllocList, frame.huges]
  rcases owned with ⟨root, member, inside⟩ | other
  · exact Or.inl ⟨root, roots root member, inside⟩
  · exact Or.inr other

/-- Steps on metadata blocks and mappings gain no alien bytes but those they bring. -/
theorem MetaFrame.aliens (frame : MetaFrame gone w w') (brings : Brings fresh w w')
    (roots : ∀ root ∈ w.arena.internalAllocList, root ∈ w'.arena.internalAllocList) :
    w'.aliens ⊆ w.aliens ∪ fresh := by
  intro x alien
  rcases alien with ⟨mapped, unowned, known⟩
  rcases brings.mapped x mapped with before | new | zero
  · left
    refine ⟨before, ?_, ?_⟩
    · exact fun owned => unowned (frame.stays_owned roots owned)
    · exact fun zero => known (brings.forgotten x zero)
  · exact Or.inr new
  · exact absurd zero known

theorem MetaFrame.keeps_alien (frame : MetaFrame gone w w') (brings : Brings fresh w w') {x : Nat}
    (alien : x ∈ w.aliens) : x ∈ w'.aliens ∧ w'.memory x = w.memory x := by
  rcases alien with ⟨mapped, unowned, known⟩
  refine ⟨⟨brings.still x mapped, ?_, ?_⟩, ?_⟩
  · exact fun owned => unowned (frame.owned mapped owned)
  · intro zero
    rcases brings.zero x zero with before | unmapped
    · exact known before
    · exact unmapped mapped
  · exact frame.memory x mapped fun internal => unowned (Or.inl internal)

/-- A new mapping is in the hands of who asked for it. -/
theorem MapFrame.ledger {span : Span} (frame : MapFrame w w') (fresh : FreshMap w w' span)
    (brings : Brings {x | span.Holds x} w w') : Ledger .empty w (.range span) w' where
  blocks := by
    apply Accounts.same
    unfold World.strays
    rw [frame.internalAllocList, frame.intAllocs, frame.metaFrame.entries.1]
  bytes := by
    apply Accounts.take
    apply frame.metaFrame.aliens brings
    rw [frame.internalAllocList]
    exact fun root => id
  ptrs := .same frame.metaFrame.starts
  kept := by
    intro x member
    have still := frame.metaFrame.keeps_alien brings member.1
    exact ⟨⟨still.1, fun inside => fresh.before x inside member.1.1⟩, still.2⟩

/-- A step that maps nothing and leaves the lists alone. -/
theorem MapFrame.ledger_quiet (frame : MapFrame w w') (brings : Brings ∅ w w') :
    Ledger .empty w .empty w' where
  blocks := by
    apply Accounts.same
    unfold World.strays
    rw [frame.internalAllocList, frame.intAllocs, frame.metaFrame.entries.1]
  bytes := by
    apply Accounts.take
    apply frame.metaFrame.aliens brings
    rw [frame.internalAllocList]
    exact fun root => id
  ptrs := .same frame.metaFrame.starts
  kept := by
    intro x member
    have still := frame.metaFrame.keeps_alien brings member.1
    exact ⟨⟨still.1, id⟩, still.2⟩

theorem mem_allBlocks {roots : List Nat} {ias : Nat → IntAlloc} {a : Nat} :
    Placed roots ias a 0 ↔ ∃ k, (a, k) ∈ allBlocks roots ias := by
  constructor
  · intro placed
    rcases placed with ⟨root, member, k, block, -⟩
    exact ⟨k, List.mem_flatMap.mpr ⟨root, member, block⟩⟩
  · intro found
    rcases found with ⟨k, listed⟩
    rcases List.mem_flatMap.mp listed with ⟨root, member, block⟩
    exact ⟨root, member, k, block, Nat.zero_le _⟩

/-- A metadata block that was taken is in the hands of who asked for it. -/
theorem Taken.ledger {size a : Nat} (taken : Taken w size a w') (change : MetaTaken w size w')
    (small : size ≤ 4194304)
    (brings : Brings {x | Internal w'.arena.internalAllocList x} w w') :
    Ledger .empty w (.block a) w' where
  blocks := by
    apply Accounts.take
    intro other stray
    rcases stray with ⟨placed, unlisted⟩
    rw [taken.frame.entries.1] at unlisted
    rcases mem_allBlocks.mp placed with ⟨k, listed⟩
    rcases List.mem_cons.mp ((MetaTaken.blocks taken change small).mem_iff.mp listed) with same | before
    · exact Or.inr (Prod.mk.inj same).1
    · exact Or.inl ⟨mem_allBlocks.mpr ⟨k, before⟩, unlisted⟩
  bytes := by
    have roots : ∀ root ∈ w.arena.internalAllocList, root ∈ w'.arena.internalAllocList := by
      rcases change with ⟨list, -⟩ | ⟨-, map, list, -⟩
      · rw [list]
        exact fun root => id
      · rw [list]
        exact fun root => List.mem_cons_of_mem map
    have gained := Accounts.take (taken.frame.aliens brings roots)
    apply gained.release
    exact fun x internal alien => alien.2.1 (Or.inl internal)
  ptrs := .same taken.frame.starts
  kept := by
    intro x member
    have still := taken.frame.keeps_alien brings member.1
    exact ⟨⟨still.1, id⟩, still.2⟩

theorem arenaInternalAlloc_ledger (size : Nat) {fuel : Nat} (ok : RootsOk w)
    (below : w.arena.brk < maxUserspaceAddr64) (positive : 1 ≤ size) (small : size ≤ 4194304) :
    wlp (arenaInternalAlloc env fuel size)
      (fun r w' => ∃ a, r = some a ∧ Taken w size a w' ∧ Ledger .empty w (.block a) w') w := by
  have spec := @arenaInternalAlloc_taken mayEnd w env size fuel ok below positive small
    fun _ => trivial
  refine wlp_mono (wlp_both spec (arenaInternalAlloc_brings fuel size)) ?_
  intro r w' post
  rcases post with ⟨⟨a, found, taken, change, -⟩, brings⟩
  exact ⟨a, found, taken, taken.ledger change small brings⟩

/-- A metadata block leaves the hands of who gives it back. -/
theorem arenaInternalFree_ledger {addr size : Nat} (ok : RootsOk w)
    (placed : Placed w.arena.internalAllocList w.intAllocs addr size) :
    wlp (arenaInternalFree addr) (fun _ w' => Ledger (.block addr) w .empty w') w := by
  rcases placed with ⟨root, member, k, block, -⟩
  rcases arenaInternalFree_block ok member block with ⟨ia, -, run, -, blocks⟩
  intro value w' run'
  rw [run] at run'
  injection run' with _ state
  rw [← state]
  have same : (w.setIntAlloc root ia).aliens = w.aliens := by
    unfold World.aliens
    rw [@owned_congr w (w.setIntAlloc root ia) rfl rfl rfl rfl rfl]
    rfl
  refine ⟨?_, .same same, .same rfl, ?_⟩
  · apply Accounts.give
    intro other stray
    rcases stray with ⟨⟨root', member', k', block', -⟩, unlisted⟩
    by_cases here : root' = root
    · rw [here, setIntAlloc_same] at block'
      have before := blocks.mem_iff.mpr (List.mem_cons_of_mem (addr, k) block')
      refine ⟨⟨⟨root, member, k', before, Nat.zero_le _⟩, unlisted⟩, ?_⟩
      intro isFreed
      have isFreed' : other = addr := isFreed
      rw [isFreed'] at block'
      have apart := (blocks.pairwise_iff (fun {_ _} => Or.symm)).mp
        (IntAlloc.blocks_apart root (w.intAllocs root))
      have disjoint := (List.pairwise_cons.mp apart).1 _ block'
      have filled := Nat.two_pow_pos k
      have filled' := Nat.two_pow_pos k'
      simp only at disjoint
      omega
    · rw [setIntAlloc_other w here] at block'
      refine ⟨⟨⟨root', member', k', block', Nat.zero_le _⟩, unlisted⟩, ?_⟩
      intro isFreed
      have isFreed' : other = addr := isFreed
      rw [isFreed'] at block'
      have range := IntAlloc.block_range block
      have range' := IntAlloc.block_range block'
      exact here (ok.unique root' root addr member' member range'.1 range'.2 range.1 range.2)
  · intro x alien
    rw [same]
    refine ⟨⟨alien.1, id⟩, ?_⟩
    apply scribble_other
    intro inside
    apply alien.1.2.1
    have header : intAllocHeaderBytes + internalAllocBuddyTreeSizeBytes ≤ intAllocSizeof :=
      Nat.le_add_right _ _
    have rounded := intAllocSizeof_le
    exact Or.inl ⟨root, member, inside.1, by omega⟩

end Metadata

end Sealloc
