import Mathlib
import OtgMaster.Lib.Blocks
import OtgMaster.Lib.Prog
import OtgMaster.Lib.Run

/-!
`LibaumsRawBlockDevice`: reads and writes in chunks, the recovery after a transfer that failed, and
the replay of the most recent writes after a reset, over a drive whose resets may lose the last
blocks that it has acknowledged.

What the drive does is a script: one reply for every call of the driver and every port reset. A call
that finds the script at its end is still waiting for the drive.
-/

namespace OtgMaster.Usb

open Lib

def REPLAY_BYTES : ℕ := 2 ^ 20
def MAX_REPLAY_ROUNDS : ℕ := 3
def MAX_TRANSFER_BYTES : ℕ := 120 * 1024
def MIN_TRANSFER_BYTES : ℕ := 4 * 1024
def SAME_SIZE_RETRY_WINDOW : ℕ := 240

structure Config where
  blockSize : ℕ
  transferBytesOverride : Option ℕ
  rememberedTransferBytes : Option ℕ
  /-- The drive: a reset can lose any of the last `reach` blocks that it has acknowledged. -/
  reach : ℕ

def Config.initialTransferBlocks (cfg : Config) : ℕ :=
  let bytes := match cfg.transferBytesOverride, cfg.rememberedTransferBytes with
    | some bytes, _ => bytes
    | none, some bytes => max MIN_TRANSFER_BYTES (min bytes MAX_TRANSFER_BYTES)
    | none, none => MAX_TRANSFER_BYTES
  max (bytes / cfg.blockSize) 1

def Config.minTransferBlocks (cfg : Config) : ℕ := max (MIN_TRANSFER_BYTES / cfg.blockSize) 1

/-- What the drive makes of one call: the resets on the way, each with blocks that it loses and what
they hold then, what failed attempts of a write leave in its blocks, and how the call ends. -/
structure Reply (β : Type) where
  resets : List (List (ℕ × β))
  torn : List (ℕ × β)
  ok : Bool

structure Dev (β : Type) where
  disk : ℕ → β
  /-- The blocks of all acknowledged writes, the last one first. -/
  acked : List ℕ
  bulkResets : ℕ
  script : List (Reply β)
  maxTransferBlocks : ℕ
  /-- `none` for -1. -/
  transfersSinceRetry : Option ℕ
  retriedChunk : ℕ
  retryFollowedReset : Bool
  recentWrites : List (Write β)
  recentBytes : ℕ
  portResets : ℕ
  /-- The sizes handed to `onTransferSizeLowered`. -/
  lowered : List ℕ

def Config.opened {β : Type} (cfg : Config) (disk : ℕ → β) : Dev β where
  disk := disk
  acked := []
  bulkResets := 0
  script := []
  maxTransferBlocks := cfg.initialTransferBlocks
  transfersSinceRetry := none
  retriedChunk := 0
  retryFollowedReset := false
  recentWrites := []
  recentBytes := 0
  portResets := 0
  lowered := []

inductive Ex where
  /-- An exception of the code. -/
  | failed
  /-- The drive has not replied yet. -/
  | waiting
  deriving DecidableEq

abbrev M (β : Type) := EStateM Ex (Dev β)

variable {β : Type}

/-- `try m catch (e: Exception)`; `none` if `m` has thrown. -/
def attempt {α : Type} (m : M β α) : M β (Option α) := fun s =>
  match m s with
  | .ok a s' => .ok (some a) s'
  | .error .failed s' => .ok none s'
  | .error .waiting s' => .error .waiting s'

/-! ### The drive -/

def scatter (disk : ℕ → β) (ps : List (ℕ × β)) : ℕ → β :=
  ps.foldl (fun d p => Function.update d p.1 p.2) disk

/-- A reset: of the blocks `lost`, those among the last `reach` acknowledged ones are lost. -/
def lose (cfg : Config) (s : Dev β) (lost : List (ℕ × β)) : Dev β :=
  { s with
    bulkResets := s.bulkResets + 1
    disk := scatter s.disk (lost.filter fun p => p.1 ∈ s.acked.take cfg.reach) }

def nextReply (cfg : Config) : M β (Reply β) := fun s =>
  match s.script with
  | [] => .error .waiting s
  | r :: rest => .ok r (r.resets.foldl (lose cfg) { s with script := rest })

def driverRead (cfg : Config) (at' count : ℕ) : M β (List β) := do
  let r ← nextReply cfg
  throwIf (r.ok = false) .failed
  let s ← get
  pure ((List.range count).map fun i => s.disk (at' + i))

def blocksOf (block : ℕ) (data : List β) : List ℕ := (List.range data.length).reverse.map (block + ·)

/-- `driver.write`. Failed attempts can leave anything in the blocks of the write, and no other. -/
def driverWrite (cfg : Config) (block : ℕ) (data : List β) : M β PUnit := do
  let r ← nextReply cfg
  modify fun s => { s with
    disk := scatter s.disk (r.torn.filter fun p => Write.covers ⟨block, data⟩ p.1) }
  throwIf (r.ok = false) .failed
  modify fun s => { s with
    disk := overwrite s.disk block data
    acked := blocksOf block data ++ s.acked }

def resets : M β ℕ := do
  let s ← get
  pure (s.bulkResets + s.portResets)

/-! ### The window of recent writes -/

/-- The loop in `rememberWrite`: the oldest writes make room for `length` bytes. -/
def makeRoom (cfg : Config) (length : ℕ) : List (Write β) → ℕ → List (Write β) × ℕ
  | [], bytes => ([], bytes)
  | w :: ws, bytes =>
    if REPLAY_BYTES < bytes + length then
      makeRoom cfg length ws (bytes - w.data.length * cfg.blockSize)
    else (w :: ws, bytes)

def Dev.roomFor (cfg : Config) (data : List β) (s : Dev β) : List (Write β) × ℕ :=
  if REPLAY_BYTES < data.length * cfg.blockSize then ([], 0)
  else makeRoom cfg (data.length * cfg.blockSize) s.recentWrites s.recentBytes

/-- The number of leading blocks of a write that the window does not keep: only the tail of a write
that is larger than the window can be lost to a reset that comes after it. -/
def Config.skipped (cfg : Config) (data : List β) : ℕ :=
  if REPLAY_BYTES < data.length * cfg.blockSize then data.length - REPLAY_BYTES / cfg.blockSize else 0

def rememberWrite (cfg : Config) (block : ℕ) (data : List β) (s : Dev β) : Dev β :=
  let skip := cfg.skipped data
  let (ws, bytes) := s.roomFor cfg data
  { s with
    recentWrites := ws ++ [⟨block + skip, data.drop skip⟩]
    recentBytes := bytes + (data.length - skip) * cfg.blockSize }

def replayRound (cfg : Config) : M β PUnit := do
  let s ← get
  s.recentWrites.forM fun w => driverWrite cfg w.block w.data

def replayRounds (cfg : Config) : ℕ → M β PUnit
  | 0 => throw .failed
  | n + 1 => do
    let before ← resets
    replayRound cfg
    let now ← resets
    if now = before then pure () else replayRounds cfg n

def replayRecentWrites (cfg : Config) : M β PUnit := do
  let s ← get
  if s.recentWrites.isEmpty then pure () else replayRounds cfg MAX_REPLAY_ROUNDS

/-! ### Recovery -/

def answersAt (cfg : Config) (at' : ℕ) : M β Bool := do
  let r ← attempt (driverRead cfg at' 1)
  pure r.isSome

/-- `resetPort`; one reply stands for the reset and the `init` after it. -/
def resetPort (cfg : Config) : M β Bool := do
  modify fun s => { s with portResets := s.portResets + 1 }
  let r ← nextReply cfg
  pure r.ok

def stepDown (cfg : Config) (chunk : ℕ) (remember : Bool) : M β Bool :=
  if chunk ≤ cfg.minTransferBlocks then pure false
  else do
    let next := max (chunk / 2) cfg.minTransferBlocks
    modify fun s => { s with
      maxTransferBlocks := min next s.maxTransferBlocks
      lowered := if remember && cfg.transferBytesOverride.isNone then
        s.lowered ++ [next * cfg.blockSize] else s.lowered }
    pure true

/-- The end of `recover`, once the drive answers. -/
def judge (cfg : Config) (chunk : ℕ) (wasReset : Bool) : M β Bool := do
  let s ← get
  let repeated : Bool := chunk = s.retriedChunk &&
    s.transfersSinceRetry.any fun since => since < SAME_SIZE_RETRY_WINDOW
  let stuck := wasReset || (repeated && s.retryFollowedReset)
  set { s with retriedChunk := chunk, retryFollowedReset := wasReset, transfersSinceRetry := some 0 }
  if repeated then stepDown cfg chunk stuck else pure true

def recover (cfg : Config) (chunk at' : ℕ) : M β Bool := do
  let answers ← answersAt cfg at'
  if answers then judge cfg chunk false
  else do
    let reset ← resetPort cfg
    if reset then do
      let answers ← answersAt cfg at'
      if answers then judge cfg chunk true else pure false
    else pure false

/-! ### Reads and writes -/

def countTransfer (s : Dev β) : Dev β :=
  { s with transfersSinceRetry := s.transfersSinceRetry.map (· + 1) }

def readChunk (cfg : Config) (at' chunk : ℕ) : M β (List β) := do
  let resetsBefore ← resets
  let data ← driverRead cfg at' chunk
  let now ← resets
  if now ≠ resetsBefore then replayRecentWrites cfg else pure ()
  modify countTransfer
  pure data

/-- The loop of `readBlocks`. Every turn takes a reply of the script. -/
def readLoop (cfg : Config) : ℕ → ℕ → ℕ → List β → M β (List β)
  | 0, _, _, _ => throw .waiting
  | turns + 1, at', left, out =>
    if left = 0 then pure out
    else do
      let s ← get
      let chunk := min s.maxTransferBlocks left
      match ← attempt (readChunk cfg at' chunk) with
      | some data => readLoop cfg turns (at' + chunk) (left - chunk) (out ++ data)
      | none => do
        let again ← recover cfg chunk at'
        if again then do
          replayRecentWrites cfg
          readLoop cfg turns at' left out
        else throw .failed

def readBlocks (cfg : Config) (startBlock blockCount : ℕ) : M β (List β) := do
  let s ← get
  readLoop cfg (s.script.length + 1) startBlock blockCount []

def writeChunk (cfg : Config) (block : ℕ) (data : List β) : M β PUnit := do
  let resetsBefore ← resets
  driverWrite cfg block data
  modify (rememberWrite cfg block data)
  let now ← resets
  if now ≠ resetsBefore then replayRecentWrites cfg else pure ()
  modify countTransfer

/-- The loop of `writeBlocks`. Every turn takes a reply of the script. -/
def writeLoop (cfg : Config) : ℕ → ℕ → List β → M β PUnit
  | 0, _, _ => throw .waiting
  | turns + 1, block, data =>
    if data.length = 0 then pure ()
    else do
      let s ← get
      let chunk := min s.maxTransferBlocks data.length
      match ← attempt (writeChunk cfg block (data.take chunk)) with
      | some _ => writeLoop cfg turns (block + chunk) (data.drop chunk)
      | none => do
        let again ← recover cfg chunk block
        if again then do
          replayRecentWrites cfg
          writeLoop cfg turns block data
        else throw .failed

def writeBlocks (cfg : Config) (startBlock : ℕ) (data : List β) : M β PUnit := do
  let s ← get
  writeLoop cfg (s.script.length + 1) startBlock data

/-! ### Sequences of calls -/

inductive Call (β : Type) where
  | read (startBlock blockCount : ℕ)
  | write (startBlock : ℕ) (data : List β)

structure Action (β : Type) where
  call : Call β
  script : List (Reply β)

def Call.run (cfg : Config) : Call β → M β PUnit
  | .read start count => do
    let _ ← readBlocks cfg start count
    pure ⟨⟩
  | .write start data => writeBlocks cfg start data

def outcome (cfg : Config) (s : Dev β) (a : Action β) : EStateM.Result Ex (Dev β) PUnit :=
  a.call.run cfg { s with script := a.script }

def step (cfg : Config) (s : Dev β) (a : Action β) : Option (Dev β) :=
  match outcome cfg s a with
  | .ok _ s' => some s'
  | .error .failed s' => some s'
  | .error .waiting _ => none

end OtgMaster.Usb
