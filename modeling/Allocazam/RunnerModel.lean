import Allocazam.Bitmap
import Mathlib.Logic.Function.Basic

/-!
# The run allocator

`runner::allocator<CanGrow, CollectStats, Huge>`: runs are carved from chunks
of a word memory, carry a two-word header (`size_and_flags` and `owner`), and
free runs hold their bin links at the payload and a copy of their size in
their last word.

The memory maps the address of each 8-byte word to its value; a run header at
address `h` occupies the words `h` and `h + 8`, its payload starts at `h + 16`.
Pointers are addresses and `0` is the null pointer.
-/

namespace Allocazam

/-- The exceptions the library throws.  The `bad_alloc` of an acquisition that
the OS refused is kept apart from those the library raises by itself. -/
inductive Exn where
  | badAlloc
  | refused
  | badArrayNewLength
  | invalidArgument (what : String)
  deriving DecidableEq, Repr

namespace Runner

/-- The template arguments, the page size found by `detect_page_size` and the
address of the allocator object itself.  Pages are whole multiples of the run
alignment. -/
structure Config where
  canGrow : Bool
  collectStats : Bool
  huge : Bool
  pageSize : Nat
  self : Nat
  pageAligned : 16 ∣ pageSize
  pageBound : pageSize < 2 ^ 64
  selfNonnull : self ≠ 0

/-- `stats_t`. -/
structure Stats where
  allocateCalls : Nat := 0
  allocateSuccess : Nat := 0
  allocateFail : Nat := 0
  deallocateCalls : Nat := 0
  findFitCalls : Nat := 0
  scannedNodes : Nat := 0
  splitCount : Nat := 0
  coalesceNextCount : Nat := 0
  coalescePrevCount : Nat := 0
  growCalls : Nat := 0
  peakLiveBytes : Nat := 0
  liveBytes : Nat := 0
  requestedBytes : Nat := 0
  grantedBytes : Nat := 0
  deriving DecidableEq, Repr

/-- `chunk_node`; the chunk list itself is a Lean list. -/
structure ChunkNode where
  first : Nat
  bytes : Nat
  mappingBase : Nat
  mappingBytes : Nat
  deriving DecidableEq, Repr

structure Allocator where
  bins : Nat → Nat
  binNonemptyMask : Nat → Nat
  chunks : List ChunkNode
  nextGrowth : Nat
  deferredBytes : Nat
  stats : Stats
  remoteHead : Nat

/-- The allocator together with the memory it works on. -/
structure State extends Allocator where
  mem : Nat → Nat

abbrev runAlignment : Nat := 16
abbrev minBinShift : Nat := 3
abbrev minBinBytes : Nat := 1 <<< minBinShift
abbrev linearBinCutoff : Nat := 4096
abbrev linearBinCount : Nat := linearBinCutoff / minBinBytes
abbrev logBinCount : Nat := 24
abbrev binCount : Nat := linearBinCount + logBinCount
abbrev binWordBits : Nat := 64
abbrev binWordCount : Nat := (binCount + binWordBits - 1) / binWordBits
abbrev headerBytes : Nat := 16
abbrev freeLinksBytes : Nat := 16
abbrev minFreeRunSize : Nat :=
  (headerBytes + freeLinksBytes + 8 + runAlignment - 1) / runAlignment *
    runAlignment
abbrev splitRemainderThreshold : Nat := 64
abbrev epilogueSize : Nat := headerBytes
abbrev minChunkBytes : Nat := minFreeRunSize + epilogueSize
abbrev flagIsFree : Nat := 1
abbrev flagPrevIsFree : Nat := 2
abbrev flagMask : Nat := flagIsFree ||| flagPrevIsFree
abbrev explicitHugePageBytes : Nat := 2 <<< 20

/-- The OS at the time of one call: which base address it returns for a chunk
of the given length, if any, when the given chunks are in use.  A granted
chunk is aligned, does not wrap around the address space and overlaps no chunk
in use. -/
structure Os where
  grant : List ChunkNode → Nat → Option Nat
  sound : ∀ chunks bytes base, grant chunks bytes = some base →
    0 < base ∧ runAlignment ∣ base ∧ base + bytes ≤ 2 ^ 64 ∧
      ∀ chunk ∈ chunks,
        base + bytes ≤ chunk.first ∨ chunk.first + chunk.bytes ≤ base

def alignUpPow2 (value alignment : Nat) : Nat :=
  let mask := alignment - 1
  wrapAdd value mask &&& wordNot mask

def sizeField (sizeAndFlags : Nat) : Nat :=
  sizeAndFlags &&& wordNot flagMask

def flag (sizeAndFlags bit : Nat) : Bool :=
  sizeAndFlags &&& bit != 0

def pack (bytes : Nat) (isFree prevIsFree : Bool) : Nat :=
  bytes ||| (if isFree then flagIsFree else 0) |||
    (if prevIsFree then flagPrevIsFree else 0)

def headerFromPayload (payload : Nat) : Nat :=
  payload - headerBytes

def payloadFromHeader (header : Nat) : Nat :=
  header + headerBytes

/-- Address of `_links(h)->next`. -/
def nextLink (header : Nat) : Nat :=
  payloadFromHeader header

/-- Address of `_links(h)->prev`. -/
def prevLink (header : Nat) : Nat :=
  payloadFromHeader header + 8

/-- Address of `h->owner`. -/
def ownerWord (header : Nat) : Nat :=
  header + 8

def normalizedRunBytesForPayload (payloadBytes : Nat) : Option Nat := do
  let payload ← checkedAdd payloadBytes (runAlignment - 1)
  let payload := payload &&& wordNot (runAlignment - 1)
  let out ← checkedAdd headerBytes payload
  let out ← checkedAdd out (runAlignment - 1)
  let out := out &&& wordNot (runAlignment - 1)
  return max out minFreeRunSize

def binIndexFor (bytes : Nat) : Nat :=
  let aligned := alignUpPow2 (bytes ||| 1) minBinBytes
  if aligned ≤ linearBinCutoff then
    (aligned >>> minBinShift) - 1
  else
    let logIdx := bitWidth (aligned - 1) - bitWidth linearBinCutoff
    min (linearBinCount + logIdx) (binCount - 1)

def binWordIndex (idx : Nat) : Nat :=
  idx / binWordBits

def binWordBit (idx : Nat) : Nat :=
  1 <<< (idx % binWordBits)

namespace State

variable (cfg : Config) (s : State)

def write (addr value : Nat) : State :=
  { s with mem := Function.update s.mem addr value }

/-- Statistics are updated only when `collect_stats` is set. -/
def record (update : Stats → Stats) : State :=
  if cfg.collectStats then { s with stats := update s.stats } else s

def runSize (h : Nat) : Nat :=
  sizeField (s.mem h)

def isFree (h : Nat) : Bool :=
  flag (s.mem h) flagIsFree

def prevIsFree (h : Nat) : Bool :=
  flag (s.mem h) flagPrevIsFree

def footerPtr (h : Nat) : Nat :=
  h + sizeField (s.mem h) - 8

def setHeader (h bytes : Nat) (isFree prevIsFree : Bool) : State :=
  s.write h (pack bytes isFree prevIsFree)

def setPrevFree (h : Nat) (prevFree : Bool) : State :=
  if s.prevIsFree h = prevFree then s
  else if prevFree then s.write h (s.mem h ||| flagPrevIsFree)
  else s.write h (s.mem h &&& wordNot flagPrevIsFree)

def nextRun (h : Nat) : Nat :=
  let next := h + s.runSize h
  if s.runSize next = 0 then 0 else next

def prevRun (h : Nat) : Nat :=
  let prevSize := s.mem (h - 8)
  if prevSize = 0 then 0 else h - prevSize

def writeFooter (h : Nat) : State :=
  s.write (s.footerPtr h) (s.runSize h)

/-- The recurring step of telling the run behind `h`, unless that is the
epilogue, whether `h` is free. -/
def flagNextRun (h : Nat) (free : Bool) : State :=
  let next := s.nextRun h
  if next ≠ 0 then s.setPrevFree next free else s

def setBinNonempty (idx : Nat) : State :=
  let word := s.binNonemptyMask (binWordIndex idx) ||| binWordBit idx
  { s with
    binNonemptyMask := Function.update s.binNonemptyMask (binWordIndex idx) word }

def setBinEmpty (idx : Nat) : State :=
  let word := s.binNonemptyMask (binWordIndex idx) &&& wordNot (binWordBit idx)
  { s with
    binNonemptyMask := Function.update s.binNonemptyMask (binWordIndex idx) word }

def setBin (idx head : Nat) : State :=
  { s with bins := Function.update s.bins idx head }

/-- The `while` loop of `_first_nonempty_bin_from`, for at most `words` further
words. -/
def firstNonemptyWord (words wordIdx word : Nat) : Nat :=
  if word ≠ 0 then
    let idx := wordIdx * binWordBits + countrZero binWordBits word
    if idx < binCount then idx else binCount
  else
    match words with
    | 0 => binCount
    | words + 1 =>
        if wordIdx + 1 ≥ binWordCount then binCount
        else firstNonemptyWord words (wordIdx + 1)
          (s.binNonemptyMask (wordIdx + 1))

def firstNonemptyBinFrom (startIdx : Nat) : Nat :=
  if startIdx ≥ binCount then binCount
  else
    let wordIdx := binWordIndex startIdx
    let bitIdx := startIdx % binWordBits
    let word := s.binNonemptyMask wordIdx &&& wordNot (2 ^ bitIdx - 1)
    s.firstNonemptyWord binWordCount wordIdx word

def linkFree (h : Nat) : State :=
  let idx := binIndexFor (s.runSize h)
  let s := s.write (prevLink h) 0
  let s := s.write (nextLink h) (s.bins idx)
  let s := if s.bins idx ≠ 0 then s.write (prevLink (s.bins idx)) h else s
  let s := s.setBin idx h
  s.setBinNonempty idx

/-- First step of `_unlink_free`: the predecessor, or the bin head, skips
`h`. -/
def skipForward (h idx : Nat) : State :=
  if s.mem (prevLink h) ≠ 0 then
    s.write (nextLink (s.mem (prevLink h))) (s.mem (nextLink h))
  else s.setBin idx (s.mem (nextLink h))

/-- Second step: the successor skips `h`. -/
def skipBackward (h : Nat) : State :=
  if s.mem (nextLink h) ≠ 0 then
    s.write (prevLink (s.mem (nextLink h))) (s.mem (prevLink h))
  else s

def clearIfEmpty (idx : Nat) : State :=
  if s.bins idx = 0 then s.setBinEmpty idx else s

def unlinkFree (h : Nat) : State :=
  let idx := binIndexFor (s.runSize h)
  let s := s.skipForward h idx
  let s := s.skipBackward h
  s.clearIfEmpty idx

end State

end Runner

end Allocazam
