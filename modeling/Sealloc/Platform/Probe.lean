import Sealloc.Platform

/-! Where `platform_map_probe` places a mapping.

The probe loop is taken over any `mmap`, and then over one that grants exactly the ranges that
are not occupied. -/

namespace Sealloc

open Library

section Generic

variable {σ : Type}

/-- The loop of `platform_map_probe` for an `mmap` of ranges of one length. -/
def probeLoop (map : Nat → Prog σ MmapReply) (probe ceiling : Nat) :
    Nat → Nat → Prog σ (PlatformStatus × Nat)
  | 0, _ => Prog.outOfFuel
  | fuel + 1, newProbe => do
      match ← map newProbe with
      | .granted map' =>
          if map' = 0 then probeLoop map probe ceiling fuel newProbe
          else if map' ≠ newProbe then return (.differentAddress, map')
          else return (.ok, map')
      | .failed .eexist =>
          if u64 (newProbe + pageSize) ≥ ceiling then return (.ceilingHit, probe)
          else probeLoop map probe ceiling fuel (u64 (newProbe + pageSize))
      | .failed errno => return (getErrorFromErrno errno, probe)

def mapProbe (map : Nat → Prog σ MmapReply) (fuel probe ceiling : Nat) :
    Prog σ (PlatformStatus × Nat) :=
  if probe ≥ ceiling then return (.ceilingHit, probe)
  else probeLoop map probe ceiling fuel probe

end Generic

theorem platformMapProbeLoop_generic (env : Env) (probe ceiling len fuel newProbe : Nat) :
    platformMapProbeLoop env probe ceiling len fuel newProbe =
      probeLoop (fun addr => mmap env addr len) probe ceiling fuel newProbe := by
  induction fuel generalizing newProbe with
  | zero => rfl
  | succ fuel ih =>
      unfold platformMapProbeLoop probeLoop
      refine congrArg (fun next => mmap env newProbe len >>= next) (funext fun reply => ?_)
      cases reply with
      | granted map => simp only [ih]
      | failed errno => cases errno <;> simp only [ih]

/-- `platform_map_probe` is the generic search at the `mmap` of the process. -/
theorem platformMapProbe_generic (env : Env) (fuel probe ceiling len : Nat) :
    platformMapProbe env fuel probe ceiling len =
      mapProbe (fun addr => mmap env addr len) fuel probe ceiling := by
  unfold platformMapProbe mapProbe
  rw [platformMapProbeLoop_generic]

/-- The pages of the address space that are occupied. -/
abbrev Occupancy := Nat → Bool

/-- No page of the range is occupied. -/
def Unoccupied (occupied : Occupancy) (addr len : Nat) : Prop :=
  addr + len ≤ 2 ^ 64 ∧ ∀ k < len / pageSize, occupied (addr / pageSize + k) = false

instance (occupied : Occupancy) (addr len : Nat) : Decidable (Unoccupied occupied addr len) :=
  inferInstanceAs (Decidable (_ ∧ _))

def occupy (occupied : Occupancy) (addr len : Nat) : Occupancy := fun page =>
  occupied page || decide (addr / pageSize ≤ page ∧ page < addr / pageSize + len / pageSize)

/-- An `mmap` that succeeds where the range is not occupied and reports `EEXIST` elsewhere. -/
def mmapExact (len addr : Nat) : Prog Occupancy MmapReply := fun occupied =>
  if Unoccupied occupied addr len then .ok (.granted addr) (occupy occupied addr len)
  else .ok (.failed .eexist) occupied

/-- A page at or above the probe from which the whole range is unoccupied. -/
def Start (occupied : Occupancy) (probe len : Nat) : Set Nat :=
  {x | probe ≤ x ∧ x % pageSize = 0 ∧ Unoccupied occupied x len}

/-- The search ends. It returns `PLATFORM_STATUS_OK` when the range at the lowest start lies
below the ceiling, and then maps that range; otherwise it returns `PLATFORM_STATUS_CEILING_HIT`
and leaves the probe as it was. -/
def RespectsCeiling (occupied : Occupancy) (probe ceiling len : Nat) : Prop :=
  ∃ fuel status probe' occupied',
    mapProbe (mmapExact len) fuel probe ceiling occupied = .ok (status, probe') occupied' ∧
    ((∃ a, IsLeast (Start occupied probe len) a ∧ a + len ≤ ceiling) → status = .ok) ∧
    (status = .ok → IsLeast (Start occupied probe len) probe' ∧ probe' + len ≤ ceiling) ∧
    (¬ (∃ a, IsLeast (Start occupied probe len) a ∧ a + len ≤ ceiling) →
      status = .ceilingHit ∧ probe' = probe)

section Loop

variable {occupied occupied' : Occupancy} {probe ceiling len x y fuel : Nat}
  {status : PlatformStatus}

theorem mmapExact_granted (unoccupied : Unoccupied occupied x len) :
    mmapExact len x occupied = .ok (.granted x) (occupy occupied x len) := if_pos unoccupied

theorem mmapExact_failed (taken : ¬ Unoccupied occupied x len) :
    mmapExact len x occupied = .ok (.failed .eexist) occupied := if_neg taken

theorem probeLoop_granted (unoccupied : Unoccupied occupied x len) (nonzero : x ≠ 0) :
    probeLoop (mmapExact len) probe ceiling (fuel + 1) x occupied =
      .ok (.ok, x) (occupy occupied x len) := by
  unfold probeLoop
  rw [bind_apply, mmapExact_granted unoccupied]
  simp [nonzero]

/-- A mapping at address zero is taken for none, and the loop maps once more. -/
theorem probeLoop_zero (unoccupied : Unoccupied occupied 0 len) :
    probeLoop (mmapExact len) probe ceiling (fuel + 1) 0 occupied =
      probeLoop (mmapExact len) probe ceiling fuel 0 (occupy occupied 0 len) := by
  conv_lhs => unfold probeLoop
  rw [bind_apply, mmapExact_granted unoccupied]
  simp

theorem probeLoop_next (taken : ¬ Unoccupied occupied x len)
    (below : u64 (x + pageSize) < ceiling) :
    probeLoop (mmapExact len) probe ceiling (fuel + 1) x occupied =
      probeLoop (mmapExact len) probe ceiling fuel (u64 (x + pageSize)) occupied := by
  conv_lhs => unfold probeLoop
  rw [bind_apply, mmapExact_failed taken]
  simp [Nat.not_le.mpr below]

theorem probeLoop_ceiling (taken : ¬ Unoccupied occupied x len)
    (above : ceiling ≤ u64 (x + pageSize)) :
    probeLoop (mmapExact len) probe ceiling (fuel + 1) x occupied =
      .ok (.ceilingHit, probe) occupied := by
  conv_lhs => unfold probeLoop
  rw [bind_apply, mmapExact_failed taken]
  simp [above]

/-- Pages without room are passed over one by one. -/
theorem probeLoop_skip (n : Nat) (taken : ∀ k < n, ¬ Unoccupied occupied (x + pageSize * k) len)
    (below : n ≠ 0 → x + pageSize * n < ceiling) (word : x + pageSize * n < 2 ^ 64) :
    probeLoop (mmapExact len) probe ceiling (n + fuel) x occupied =
      probeLoop (mmapExact len) probe ceiling fuel (x + pageSize * n) occupied := by
  induction n generalizing x with
  | zero => simp
  | succ n ih =>
      have first := taken 0 (Nat.succ_pos n)
      rw [Nat.mul_zero, Nat.add_zero] at first
      have reach := below (Nat.succ_ne_zero n)
      have split : x + pageSize * (n + 1) = x + pageSize + pageSize * n := by ring
      rw [split] at reach word ⊢
      have next : u64 (x + pageSize) = x + pageSize := u64_eq (by omega)
      have order : n + 1 + fuel = n + fuel + 1 := by omega
      rw [order, probeLoop_next first (by rw [next]; omega), next]
      apply ih
      · intro k less
        have later := taken (k + 1) (by omega)
        have same : x + pageSize * (k + 1) = x + pageSize + pageSize * k := by ring
        rw [same] at later
        exact later
      · intro some
        exact reach
      · exact word

/-- More rounds do not change a result. -/
theorem probeLoop_more {result : PlatformStatus × Nat} (more : Nat)
    (run : probeLoop (mmapExact len) probe ceiling fuel x occupied = .ok result occupied') :
    probeLoop (mmapExact len) probe ceiling (fuel + more) x occupied = .ok result occupied' := by
  induction fuel generalizing x occupied with
  | zero => simp [probeLoop, Prog.outOfFuel] at run
  | succ fuel ih =>
      have order : fuel + 1 + more = fuel + more + 1 := by omega
      rw [order]
      by_cases room : Unoccupied occupied x len
      · by_cases zero : x = 0
        · subst zero
          rw [probeLoop_zero room] at run ⊢
          exact ih run
        · rw [probeLoop_granted room zero] at run ⊢
          exact run
      · rcases Nat.lt_or_ge (u64 (x + pageSize)) ceiling with below | above
        · rw [probeLoop_next room below] at run ⊢
          exact ih run
        · rw [probeLoop_ceiling room above] at run ⊢
          exact run

theorem probeLoop_unique {n m : Nat} {one two : PlatformStatus × Nat} {o o' : Occupancy}
    (first : probeLoop (mmapExact len) probe ceiling n x occupied = .ok one o)
    (second : probeLoop (mmapExact len) probe ceiling m x occupied = .ok two o') : one = two := by
  have more := probeLoop_more m first
  rw [Nat.add_comm, probeLoop_more n second] at more
  injection more with same
  exact same.symm

/-- The loop does not return a mapping at address zero. -/
theorem probeLoop_ne_zero
    (run : probeLoop (mmapExact len) probe ceiling fuel x occupied = .ok (.ok, y) occupied') :
    y ≠ 0 := by
  induction fuel generalizing x occupied with
  | zero => simp [probeLoop, Prog.outOfFuel] at run
  | succ fuel ih =>
      by_cases room : Unoccupied occupied x len
      · by_cases zero : x = 0
        · subst zero
          rw [probeLoop_zero room] at run
          exact ih run
        · rw [probeLoop_granted room zero] at run
          injection run with result
          rw [← (Prod.mk.inj result).2]
          exact zero
      · rcases Nat.lt_or_ge (u64 (x + pageSize)) ceiling with below | above
        · rw [probeLoop_next room below] at run
          exact ih run
        · rw [probeLoop_ceiling room above] at run
          injection run with result
          exact absurd (Prod.mk.inj result).1 PlatformStatus.noConfusion

/-- In the last page of the address space the probe wraps, and the ceiling is never hit. -/
theorem probeLoop_wraps (last : 2 ^ 64 - pageSize < ceiling) (aligned : x % pageSize = 0)
    (run : probeLoop (mmapExact len) probe ceiling fuel x occupied = .ok (status, y) occupied') :
    status = .ok := by
  unfold pageSize at last aligned
  induction fuel generalizing x occupied with
  | zero => simp [probeLoop, Prog.outOfFuel] at run
  | succ fuel ih =>
      by_cases room : Unoccupied occupied x len
      · by_cases zero : x = 0
        · subst zero
          rw [probeLoop_zero room] at run
          exact ih aligned run
        · rw [probeLoop_granted room zero] at run
          injection run with result
          exact (Prod.mk.inj result).1.symm
      · have aligned' : u64 (x + pageSize) % 4096 = 0 := by
          unfold u64 pageSize
          omega
        have below : u64 (x + pageSize) < ceiling := by
          have word : u64 (x + pageSize) < 2 ^ 64 := Nat.mod_lt _ (by norm_num)
          omega
        rw [probeLoop_next room below] at run
        exact ih aligned' run

/-- Where no page below the ceiling has room, the search ends at the ceiling. -/
theorem probeLoop_exhausts (aligned : x % pageSize = 0) (below : x < ceiling)
    (word : ∀ y, y < ceiling → y % pageSize = 0 → y + pageSize < 2 ^ 64)
    (taken : ∀ y, x ≤ y → y < ceiling → y % pageSize = 0 → ¬ Unoccupied occupied y len) :
    ∃ fuel, probeLoop (mmapExact len) probe ceiling fuel x occupied =
      .ok (.ceilingHit, probe) occupied := by
  unfold pageSize at aligned word taken
  -- the last page that starts below the ceiling
  have last : x + 4096 * ((ceiling - 1 - x) / 4096) < ceiling := by omega
  have fits := word _ last (by omega)
  refine ⟨(ceiling - 1 - x) / 4096 + 1, ?_⟩
  rw [probeLoop_skip]
  · unfold pageSize
    apply probeLoop_ceiling
    · exact taken _ (Nat.le_add_right _ _) last (by omega)
    · change ceiling ≤ u64 (x + 4096 * ((ceiling - 1 - x) / 4096) + 4096)
      rw [u64_eq fits]
      omega
  · intro k less
    unfold pageSize
    exact taken _ (Nat.le_add_right _ _) (by omega) (by omega)
  · intro _
    exact last
  · unfold pageSize
    omega

end Loop

section Ceiling

variable {occupied : Occupancy} {probe ceiling len : Nat}

/-- The condition under which the search respects its ceiling: the range at the lowest start
does not straddle the ceiling and does not start at address zero (where a straddling range does
no harm), and if the ceiling lies in the last page, there is a start. -/
def CeilingSafe (occupied : Occupancy) (probe ceiling len : Nat) : Prop :=
  (∀ a, IsLeast (Start occupied probe len) a → a < ceiling → (a + len ≤ ceiling ↔ a ≠ 0)) ∧
  (ceiling ≤ 2 ^ 64 - pageSize ∨ (Start occupied probe len).Nonempty)

/-- A search from a page, for a length of whole pages. -/
structure ProbeCall (probe ceiling len : Nat) : Prop where
  probePage : probe % pageSize = 0
  probeWord : probe < 2 ^ 64
  ceilingWord : ceiling < 2 ^ 64
  lenPages : len % pageSize = 0
  lenSome : 0 < len
  lenWord : len < 2 ^ 64

theorem start_least (some : (Start occupied probe len).Nonempty) :
    ∃ a, IsLeast (Start occupied probe len) a := by
  classical
  have exists_ : ∃ a, a ∈ Start occupied probe len := some
  exact ⟨Nat.find exists_, Nat.find_spec exists_, fun b member => Nat.find_min' exists_ member⟩

/-- Below the lowest start no page has room. -/
theorem taken_below {a : Nat} (least : IsLeast (Start occupied probe len) a) {x : Nat}
    (above : probe ≤ x) (below : x < a) (aligned : x % pageSize = 0) :
    ¬ Unoccupied occupied x len :=
  fun room => Nat.not_le.mpr below (least.2 ⟨above, aligned, room⟩)

theorem mapProbe_below (below : probe < ceiling) (fuel : Nat) :
    mapProbe (mmapExact len) fuel probe ceiling =
      probeLoop (mmapExact len) probe ceiling fuel probe :=
  if_neg (Nat.not_le.mpr below)

/-- The loop reaches the lowest start. -/
theorem probeLoop_reaches {a : Nat} (call : ProbeCall probe ceiling len)
    (least : IsLeast (Start occupied probe len) a) (below : a < ceiling) (fuel : Nat) :
    ∃ n, probeLoop (mmapExact len) probe ceiling (n + fuel) probe occupied =
      probeLoop (mmapExact len) probe ceiling fuel a occupied := by
  rcases least.1 with ⟨above, aligned, -⟩
  have aligned' := call.probePage
  have word := call.ceilingWord
  unfold pageSize at aligned aligned'
  have distance : probe + pageSize * ((a - probe) / 4096) = a := by
    unfold pageSize
    omega
  refine ⟨(a - probe) / 4096, ?_⟩
  rw [probeLoop_skip, distance]
  · intro k less
    apply taken_below least (Nat.le_add_right _ _)
    · unfold pageSize
      omega
    · unfold pageSize
      omega
  · intro _
    rw [distance]
    exact below
  · rw [distance]
    omega

theorem respectsCeiling_safe (call : ProbeCall probe ceiling len)
    (respects : RespectsCeiling occupied probe ceiling len) :
    CeilingSafe occupied probe ceiling len := by
  rcases respects with ⟨fuel, status, probe', occupied', run, finds, places, -⟩
  constructor
  · intro a least below
    rw [mapProbe_below (lt_of_le_of_lt least.1.1 below)] at run
    by_cases zero : a = 0
    · refine iff_of_false ?_ (not_not.mpr zero)
      intro fits
      have found := finds ⟨a, least, fits⟩
      rw [found] at run
      exact probeLoop_ne_zero run (((places found).1.unique least).trans zero)
    · refine iff_of_true ?_ zero
      rcases probeLoop_reaches call least below 1 with ⟨n, reached⟩
      rw [probeLoop_granted least.1.2.2 zero] at reached
      have result := probeLoop_unique reached run
      have found : status = .ok := (Prod.mk.inj result).1.symm
      have place : probe' = a := (Prod.mk.inj result).2.symm
      rw [← place]
      exact (places found).2
  · by_contra neither
    rw [not_or, not_le, Set.not_nonempty_iff_eq_empty] at neither
    rcases neither with ⟨last, empty⟩
    have below : probe < ceiling := by
      have aligned := call.probePage
      have word := call.probeWord
      unfold pageSize at last aligned
      omega
    rw [mapProbe_below below] at run
    have found := probeLoop_wraps last call.probePage run
    have member := (places found).1.1
    rw [empty] at member
    exact member

/-- A range of more than the space below the ceiling is mapped at address zero, and then no
page below the ceiling has room. -/
theorem probeLoop_zero_straddles (call : ProbeCall 0 ceiling len) (some : 0 < ceiling)
    (room : Unoccupied occupied 0 len) (straddles : ceiling < len) :
    ∃ fuel, probeLoop (mmapExact len) 0 ceiling fuel 0 occupied =
      .ok (.ceilingHit, 0) (occupy occupied 0 len) := by
  have pages := call.lenPages
  have word := call.lenWord
  unfold pageSize at pages
  have exhausts : ∃ fuel, probeLoop (mmapExact len) 0 ceiling fuel 0 (occupy occupied 0 len) =
      .ok (.ceilingHit, 0) (occupy occupied 0 len) := by
    apply probeLoop_exhausts (Nat.zero_mod _) some
    · intro y below aligned
      unfold pageSize at aligned ⊢
      omega
    · intro y _ below aligned free
      have first := free.2 0 (by unfold pageSize; omega)
      have inside : 0 / pageSize ≤ y / pageSize + 0 ∧
          y / pageSize + 0 < 0 / pageSize + len / pageSize := by
        unfold pageSize at aligned ⊢
        omega
      unfold occupy at first
      rw [decide_eq_true inside, Bool.or_true] at first
      exact Bool.noConfusion first
  rcases exhausts with ⟨fuel, run⟩
  exact ⟨fuel + 1, (probeLoop_zero room).trans run⟩

/-- Without a start below the ceiling the search ends there. -/
theorem respectsCeiling_none (call : ProbeCall probe ceiling len) (below : probe < ceiling)
    (noStart : ∀ a, IsLeast (Start occupied probe len) a → ceiling ≤ a)
    (reachable : ceiling ≤ 2 ^ 64 - pageSize ∨ (Start occupied probe len).Nonempty) :
    RespectsCeiling occupied probe ceiling len := by
  have early : ceiling ≤ 2 ^ 64 - pageSize := by
    rcases reachable with early | some
    · exact early
    · rcases start_least some with ⟨a, least⟩
      have above := noStart a least
      rcases least.1 with ⟨-, aligned, room, -⟩
      have lenSome := call.lenSome
      unfold pageSize at aligned ⊢
      omega
  have exhausts : ∃ fuel, probeLoop (mmapExact len) probe ceiling fuel probe occupied =
      .ok (.ceilingHit, probe) occupied := by
    apply probeLoop_exhausts call.probePage below
    · intro y less _
      unfold pageSize at early ⊢
      omega
    · intro y above less aligned room
      rcases start_least ⟨y, above, aligned, room⟩ with ⟨a, least⟩
      have first := least.2 ⟨above, aligned, room⟩
      have beyond := noStart a least
      omega
  rcases exhausts with ⟨fuel, run⟩
  refine ⟨fuel, .ceilingHit, probe, occupied, ?_, ?_, ?_, ?_⟩
  · rw [mapProbe_below below]
    exact run
  · rintro ⟨a, least, fits⟩
    have beyond := noStart a least
    have lenSome := call.lenSome
    omega
  · intro hit
    exact absurd hit PlatformStatus.noConfusion
  · intro _
    exact ⟨rfl, rfl⟩

theorem safe_respectsCeiling (call : ProbeCall probe ceiling len)
    (safe : CeilingSafe occupied probe ceiling len) :
    RespectsCeiling occupied probe ceiling len := by
  have lenSome := call.lenSome
  rcases Nat.lt_or_ge probe ceiling with below | above
  · by_cases start : ∃ a, IsLeast (Start occupied probe len) a ∧ a < ceiling
    · rcases start with ⟨a, least, less⟩
      have fitsIff := safe.1 a least less
      by_cases zero : a = 0
      · subst zero
        have probeZero : probe = 0 := Nat.le_zero.mp least.1.1
        subst probeZero
        have straddles : ceiling < len := by
          have fits : ¬ 0 + len ≤ ceiling := fun fits => fitsIff.mp fits rfl
          omega
        rcases probeLoop_zero_straddles call less least.1.2.2 straddles with ⟨fuel, run⟩
        refine ⟨fuel, .ceilingHit, 0, occupy occupied 0 len, ?_, ?_, ?_, ?_⟩
        · rw [mapProbe_below below]
          exact run
        · rintro ⟨b, leastB, fits⟩
          rw [leastB.unique least] at fits
          omega
        · intro hit
          exact absurd hit PlatformStatus.noConfusion
        · intro _
          exact ⟨rfl, rfl⟩
      · have fits := fitsIff.mpr zero
        rcases probeLoop_reaches call least less 1 with ⟨n, reached⟩
        rw [probeLoop_granted least.1.2.2 zero] at reached
        refine ⟨n + 1, .ok, a, occupy occupied a len, ?_, ?_, ?_, ?_⟩
        · rw [mapProbe_below below]
          exact reached
        · intro _
          rfl
        · intro _
          exact ⟨least, fits⟩
        · intro none_
          exact absurd ⟨a, least, fits⟩ none_
    · apply respectsCeiling_none call below _ safe.2
      intro a least
      exact not_lt.mp fun less => start ⟨a, least, less⟩
  · have stops : mapProbe (mmapExact len) 0 probe ceiling = pure (.ceilingHit, probe) :=
      if_pos above
    refine ⟨0, .ceilingHit, probe, occupied, by rw [stops]; rfl, ?_, ?_, ?_⟩
    · rintro ⟨a, least, fits⟩
      have further := least.1.1
      omega
    · intro hit
      exact absurd hit PlatformStatus.noConfusion
    · intro _
      exact ⟨rfl, rfl⟩

end Ceiling

end Sealloc
