import Sealloc.World

/-! Mapping and unmapping of memory, as `platform.c` does it. -/

namespace Sealloc

open Library

inductive PlatformStatus where
  | errUnknown
  | errNomem
  | errInval
  | ok
  | ceilingHit
  | differentAddress
  deriving DecidableEq, Repr

def getErrorFromErrno : Errno → PlatformStatus
  | .einval => .errInval
  | .enomem => .errNomem
  | .eexist => .errUnknown
  | .other => .errUnknown

/-- The loop of `platform_map_probe`: the status and the value of `*probe`. A mapping at
address zero looks like none at all, so the loop maps once more. -/
def platformMapProbeLoop (env : Env) (probe ceiling len : Nat) :
    Nat → Nat → Prog World (PlatformStatus × Nat)
  | 0, _ => Prog.outOfFuel
  | fuel + 1, newProbe => do
      match ← mmap env newProbe len with
      | .granted map =>
          if map = 0 then platformMapProbeLoop env probe ceiling len fuel newProbe
          else if map ≠ newProbe then return (.differentAddress, map)
          else return (.ok, map)
      | .failed .eexist =>
          if u64 (newProbe + pageSize) ≥ ceiling then return (.ceilingHit, probe)
          else platformMapProbeLoop env probe ceiling len fuel (u64 (newProbe + pageSize))
      | .failed errno => return (getErrorFromErrno errno, probe)

def platformMapProbe (env : Env) (fuel probe ceiling len : Nat) :
    Prog World (PlatformStatus × Nat) :=
  if probe ≥ ceiling then return (.ceilingHit, probe)
  else platformMapProbeLoop env probe ceiling len fuel probe

/-- `platform_unmap` as its callers use it: they all end the process where it fails. -/
def platformUnmap (env : Env) (ptr len : Nat) : Prog World Unit := do
  match ← munmap env ptr len with
  | none => return ()
  | some _ =>
      Prog.modify fun w => w.record { w.history with unmapFailed := true }
      Prog.exit

end Sealloc
