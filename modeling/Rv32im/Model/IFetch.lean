/-
The instruction-fetch stream model (`src/IFetchStreamModel.cpp`, `include/rv32im/IFetchStreamModel.hpp`).

Every method works on the fetch stream and on the I-cache it is handed, so the two together are the state of a
front-end call. `requests` is a history variable: the PCs that `issue` sent to an enabled I-cache, oldest first, each
with its replay flag. No method reads it.

`ensureThrough` loops while a 32-bit pointer that is advanced modulo 2^32 is at most the target. The pointer takes at
most 2^30 values before it repeats, so a loop that is still running after 2^30 iterations never ends: that is the call
that does not return.
-/
import Rv32im.Model.Cache

namespace Rv32im

structure IFetchStreamConfig where
  dcacheHoldAheadBytes : BitVec 32 := 12
  systemLookaheadBytes : BitVec 32 := 8
  systemHoldHits : BitVec 32 := 2
  branchWrongPathBytes : BitVec 32 := 8
  jumpWrongPathBytes : BitVec 32 := 8
deriving DecidableEq, Repr

structure IFetchStreamStats where
  issuedAccesses : ℕ := 0
  replayAccesses : ℕ := 0
  lookaheadAccesses : ℕ := 0
  redirectEvents : ℕ := 0
  wrongPathAccesses : ℕ := 0
deriving DecidableEq, Repr

/-- one request to the I-cache -/
structure Request where
  pc : BitVec 32
  replay : Bool
deriving DecidableEq, Repr

structure IFetchStreamModel (config : IFetchStreamConfig) where
  stats : IFetchStreamStats := {}
  nextSequentialPc : BitVec 32 := 0
  requests : List Request := []

def IFetchStreamModel.reset {config : IFetchStreamConfig} (_f : IFetchStreamModel config) (resetPc : BitVec 32) :
    IFetchStreamModel config :=
  { stats := {}, nextSequentialPc := resetPc, requests := [] }

/-- the fetch stream and the I-cache it is handed -/
structure FrontEnd (config : IFetchStreamConfig) (icfg : CacheConfig) where
  ifetch : IFetchStreamModel config
  icache : DirectMappedCacheModel icfg

abbrev FetchM (config : IFetchStreamConfig) (icfg : CacheConfig) := Exec Exn (FrontEnd config icfg)

namespace FrontEnd

variable {config : IFetchStreamConfig} {icfg : CacheConfig}

/-- the fetch stream after one counted request -/
def count (f : IFetchStreamModel config) (pc : BitVec 32) (replay lookahead : Bool) : IFetchStreamModel config :=
  { f with
    stats := { f.stats with
      issuedAccesses := f.stats.issuedAccesses + 1
      replayAccesses := f.stats.replayAccesses + if replay then 1 else 0
      lookaheadAccesses := f.stats.lookaheadAccesses + if lookahead then 1 else 0 }
    requests := f.requests ++ [⟨pc, replay⟩] }

def issue (pc : BitVec 32) (replay lookahead : Bool) : FetchM config icfg CacheAccessResult := fun f =>
  let (result, icache) := f.icache.access pc false
  .ok result ⟨if icfg.enabled then count f.ifetch pc replay lookahead else f.ifetch, icache⟩

def setNext (pc : BitVec 32) : FetchM config icfg Unit :=
  Exec.modify fun f => { f with ifetch := { f.ifetch with nextSequentialPc := pc } }

/-- the loop of `ensure_through`; `fuel` bounds its iterations -/
def ensureLoop (targetPc : BitVec 32) : ℕ → BitVec 32 → FetchM config icfg (BitVec 32)
  | 0, _ => Exec.hang
  | fuel + 1, stalls => do
    let f ← Exec.get
    let next := f.ifetch.nextSequentialPc
    if next ≤ targetPc then do
      let access ← issue next false (next ≠ targetPc)
      setNext (next + 4)
      ensureLoop targetPc fuel (stalls + access.stallCycles)
    else
      return stalls

def ensureThrough (targetPc : BitVec 32) : FetchM config icfg (BitVec 32) :=
  if !icfg.enabled then pure 0
  else do
    Exec.throwIf (targetPc &&& 3 ≠ 0) .fetchTarget
    ensureLoop targetPc (2 ^ 30 + 1) 0

/-- n replays of one PC, added to `stalls` -/
def replayLoop (pc : BitVec 32) (lookahead : Bool) : ℕ → BitVec 32 → FetchM config icfg (BitVec 32)
  | 0, stalls => pure stalls
  | n + 1, stalls => do
    let replay ← issue pc true lookahead
    replayLoop pc lookahead n (stalls + replay.stallCycles)

def onDcacheStall (retiredPc dcacheStallCycles : BitVec 32) : FetchM config icfg (BitVec 32) :=
  if !icfg.enabled || dcacheStallCycles = 0 then pure 0
  else do
    let heldPc := retiredPc + config.dcacheHoldAheadBytes
    let stalls ← ensureThrough heldPc
    replayLoop heldPc false dcacheStallCycles.toNat stalls

/-- the common body of `on_taken_branch` and `on_jump_redirect` -/
def redirect (wrongPathBytes pc targetPc : BitVec 32) : FetchM config icfg (BitVec 32) :=
  if !icfg.enabled then do
    Exec.modify fun f => { f with ifetch := { f.ifetch with
      nextSequentialPc := targetPc
      stats := { f.ifetch.stats with redirectEvents := f.ifetch.stats.redirectEvents + 1 } } }
    return 0
  else do
    let before ← Exec.get
    let stalls ← ensureThrough (pc + wrongPathBytes)
    Exec.modify fun f => { f with ifetch := { f.ifetch with
      nextSequentialPc := targetPc
      stats := { f.ifetch.stats with
        wrongPathAccesses := f.ifetch.stats.wrongPathAccesses +
          (f.ifetch.stats.issuedAccesses - before.ifetch.stats.issuedAccesses)
        redirectEvents := f.ifetch.stats.redirectEvents + 1 } } }
    return stalls

def onTakenBranch (branchPc targetPc : BitVec 32) : FetchM config icfg (BitVec 32) :=
  redirect config.branchWrongPathBytes branchPc targetPc

def onJumpRedirect (jumpPc targetPc : BitVec 32) : FetchM config icfg (BitVec 32) :=
  redirect config.jumpWrongPathBytes jumpPc targetPc

def onSystemDrain (systemPc : BitVec 32) : FetchM config icfg (BitVec 32) :=
  if !icfg.enabled then pure 0
  else do
    let finalFetchPc := systemPc + config.systemLookaheadBytes
    let stalls ← ensureThrough finalFetchPc
    replayLoop finalFetchPc true config.systemHoldHits.toNat stalls

end FrontEnd

end Rv32im
