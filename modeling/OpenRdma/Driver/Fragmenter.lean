import OpenRdma.Driver.Send

/-!
# Fragmenting a work request

A work request is sent as chunks of at most 64 KiB and retransmitted as packets of at most the path
MTU. Both go through one `Fragmenter`, which cuts the remote address range at multiples of the path
MTU. Overflow of an address traps, which is `none` here.
-/

namespace OpenRdma.Driver

open Word Iterator

def wrChunkSize : ℕ := 0x10000

/-! ## Cutting an address range -/

/-- A range of addresses to cut. -/
structure Fragmenter where
  segmentSize : ℕ
  align : ℕ
  baseAddr : ℕ
  endAddr : ℕ
  deriving DecidableEq

structure Fragment where
  addr : ℕ
  len : ℕ
  pos : ChunkPos
  deriving DecidableEq

/-- The iterator over the fragments, `IntoIter`. -/
structure IntoIter where
  segmentSize : ℕ
  align : ℕ
  currentAddr : ℕ
  currentPos : ChunkPos
  endAddr : ℕ
  count : ℕ
  deriving DecidableEq

namespace Fragmenter

def new (segmentSize align baseAddr length : ℕ) : Option Fragmenter :=
  (checkedAdd 64 baseAddr length).map fun endAddr => ⟨segmentSize, align, baseAddr, endAddr⟩

def numSegments (f : Fragmenter) : Option ℕ :=
  if f.baseAddr ≥ f.endAddr then some 1
  else (checkedAdd 64 f.baseAddr f.segmentSize).map fun x =>
    let firstAligned := x &&& compl 64 (f.align - 1)
    let remainingAfterFirst := f.endAddr - firstAligned
    divCeil remainingAfterFirst f.segmentSize + 1

def intoIter (f : Fragmenter) : Option IntoIter :=
  f.numSegments.bind fun numSegments =>
    if numSegments > 0 then
      some { segmentSize := f.segmentSize
             align := f.align
             currentAddr := f.baseAddr
             currentPos := if numSegments = 1 then .only else .first
             endAddr := f.endAddr
             count := numSegments }
    else none

end Fragmenter

namespace IntoIter

/-- The position that follows `pos`, when `isLast` says that one fragment remains. -/
def nextPos (isLast : Bool) (pos : ChunkPos) : ChunkPos :=
  match isLast, pos with
  | _, .only => .only
  | true, _ => .last
  | false, .last => .last
  | false, .first => .middle
  | false, .middle => .middle

/-- The next piece and the rest; `none` is an overflow. -/
def next (it : IntoIter) : Option (Option (Fragment × IntoIter)) :=
  if it.count = 0 then some none
  else
    (checkedAdd 64 it.currentAddr it.segmentSize).bind fun x =>
    let endAddr := min (x &&& compl 64 (it.align - 1)) it.endAddr
    (checkedSub endAddr it.currentAddr).bind fun len =>
    (checkedAdd 64 it.currentAddr len).map fun currentAddr =>
      some ({ addr := it.currentAddr, len := len, pos := it.currentPos },
        { it with
          currentAddr := currentAddr
          count := it.count - 1
          currentPos := nextPos (it.count - 1 == 1) it.currentPos })

end IntoIter

/-! ## The chunks of a work request -/

/-- `IntoIterChunk`. The builder is the chunk with the parameters that are the same for all. -/
structure IntoIterChunk where
  inner : IntoIter
  psn : Psn
  builder : WrChunk
  laddr : ℕ
  pmtu : ℕ
  isRetry : Bool
  deriving DecidableEq

/-- The number of packets a fragment occupies. -/
def numPackets (len pmtu : ℕ) : ℕ := divCeil len pmtu % 2 ^ 32

def IntoIterChunk.next (it : IntoIterChunk) : Option (Option (WrChunk × IntoIterChunk)) :=
  it.inner.next.bind fun item => item.elim (some none) fun (f, inner) =>
    let builder := it.builder.setChunkMeta it.psn it.laddr f.addr (f.len % 2 ^ 32) f.pos
    let chunk := if it.isRetry then builder.setIsRetry else builder
    (checkedAdd 64 it.laddr f.len).map fun laddr =>
      some (chunk, { it with inner := inner, psn := it.psn + numPackets f.len it.pmtu, laddr := laddr })

/-- The iterator over the chunks of a request. -/
def chunkFragmenter (wr : SendWrRdma) (qpParam : QpParams) (basePsn : Psn) (chunkSize : ℕ)
    (isRetry : Bool) : Option IntoIterChunk :=
  (convertIbvMtuToU16 qpParam.pmtu).bind fun pmtu =>
    (Fragmenter.new chunkSize pmtu wr.raddr wr.length).bind fun f =>
      f.intoIter.map fun inner =>
        { inner := inner
          psn := basePsn
          builder := ((WrChunk.newWithOpcode wr.opcode).setQpParams qpParam).setIbvParams wr
          laddr := wr.laddr
          pmtu := pmtu
          isRetry := isRetry }

def IntoIterChunk.toList (it : IntoIterChunk) : Option (List WrChunk) :=
  collect IntoIterChunk.next it.inner.count it

/-- The chunks of `WrChunkFragmenter`. -/
def wrChunkFragmenter (wr : SendWrRdma) (qpParam : QpParams) (basePsn : Psn) :
    Option (List WrChunk) :=
  (chunkFragmenter wr qpParam basePsn wrChunkSize false).bind IntoIterChunk.toList

/-- The chunks `WrChunkFragmenter` yields before an address overflows. -/
def wrChunksYielded (wr : SendWrRdma) (qpParam : QpParams) (basePsn : Psn) : List WrChunk :=
  (chunkFragmenter wr qpParam basePsn wrChunkSize false).elim [] fun it =>
    yields IntoIterChunk.next it.inner.count it

theorem wrChunksYielded_eq {wr : SendWrRdma} {qpParam : QpParams} {basePsn : Psn}
    {chunks : List WrChunk} (h : wrChunkFragmenter wr qpParam basePsn = some chunks) :
    wrChunksYielded wr qpParam basePsn = chunks := by
  obtain ⟨it, hit, h⟩ := Option.bind_eq_some_iff.1 h
  rw [wrChunksYielded, hit]
  exact yields_of_collect h

/-- The packets of `WrPacketFragmenter`. -/
def wrPacketFragmenter (wr : SendWrRdma) (qpParam : QpParams) (basePsn : Psn) :
    Option (List WrChunk) :=
  (convertIbvMtuToU16 qpParam.pmtu).bind fun pmtu =>
    (chunkFragmenter wr qpParam basePsn pmtu true).bind IntoIterChunk.toList

end OpenRdma.Driver
