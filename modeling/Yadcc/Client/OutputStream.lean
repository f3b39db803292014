/-
# The client's output streams

What the preprocessor writes is compressed and hashed while it comes. The compressor fills
chunks of a fixed size and is called again for as long as it has input, and at the end for as
long as it holds something back. Zstd and BLAKE3 are parameters with their documented
behaviour.
-/

import Yadcc.Lib.Hex

namespace Yadcc.Client

open Yadcc.Lib

/-! ## Zstd -/

inductive EndDirective
  | eContinue
  | eEnd
  deriving DecidableEq

/-- What a call of the compressor comes to: the bytes it puts out, how much of the input it
takes, and what is left to be flushed. -/
structure ZstdCall (Ctx : Type) where
  ctx : Ctx
  produced : Bytes
  consumed : ℕ
  result : ℕ

structure ZstdApi where
  Ctx : Type
  initCStream : Ctx
  compressStream2 : Ctx → EndDirective → ℕ → Bytes → ZstdCall Ctx
  decompress : Bytes → Option Bytes

/-- The calls of one frame: input is taken in any pieces, and then the frame is ended in any
pieces. The output and the input of the calls so far are kept. -/
inductive ZstdApi.Session (z : ZstdApi) : Bool → z.Ctx → Bytes → Bytes → Prop
  | init : Session z false z.initCStream [] []
  | input {ctx output taken} (room : ℕ) (src : Bytes) : Session z false ctx output taken →
      Session z false (z.compressStream2 ctx .eContinue room src).ctx
        (output ++ (z.compressStream2 ctx .eContinue room src).produced)
        (taken ++ src.take (z.compressStream2 ctx .eContinue room src).consumed)
  | flush {ending ctx output taken} (room : ℕ) : Session z ending ctx output taken →
      Session z true (z.compressStream2 ctx .eEnd room []).ctx
        (output ++ (z.compressStream2 ctx .eEnd room []).produced) taken

/-- The compressor as it is documented: it stays inside its buffers, makes progress where there
is room, and a frame that is fully flushed decompresses to its input. `pending` bounds what it
can put out without more input. -/
structure Zstd extends ZstdApi where
  pending : Ctx → ℕ
  produced_le : ∀ ctx directive room src,
    (compressStream2 ctx directive room src).produced.length ≤ room
  consumed_le : ∀ ctx directive room src,
    (compressStream2 ctx directive room src).consumed ≤ src.length
  pending_le : ∀ ctx directive room src, (compressStream2 ctx directive room src).consumed = 0 →
    pending (compressStream2 ctx directive room src).ctx +
      (compressStream2 ctx directive room src).produced.length ≤ pending ctx
  input_progress : ∀ ctx room src, 0 < room → src ≠ [] →
    0 < (compressStream2 ctx .eContinue room src).consumed ∨
      0 < (compressStream2 ctx .eContinue room src).produced.length
  flush_progress : ∀ ctx room, 0 < room → (compressStream2 ctx .eEnd room []).result ≠ 0 →
    0 < (compressStream2 ctx .eEnd room []).produced.length
  decompress_frame : ∀ {ending ctx output taken} (room : ℕ),
    toZstdApi.Session ending ctx output taken → (compressStream2 ctx .eEnd room []).result = 0 →
      decompress (output ++ (compressStream2 ctx .eEnd room []).produced) = some taken

/-! ## The compressing stream -/

def kChunkSize : ℕ := 128 * 1024

structure Chunk where
  buffer : Bytes
  used_le : buffer.length ≤ kChunkSize

def Chunk.empty : Chunk := ⟨[], Nat.zero_le _⟩

/-- The chunks are never none; the last one is kept apart. -/
structure ZstdCompressedOutputStream (z : Zstd) where
  ctx : z.Ctx
  front : List Chunk
  back : Chunk

namespace ZstdCompressedOutputStream

variable {z : Zstd}

def new (z : Zstd) : ZstdCompressedOutputStream z := ⟨z.initCStream, [], .empty⟩

/-- What the chunks hold. -/
def bytes (self : ZstdCompressedOutputStream z) : Bytes :=
  (self.front ++ [self.back]).flatMap Chunk.buffer

/-- A full chunk is followed by a new one. -/
def withRoom (self : ZstdCompressedOutputStream z) : ZstdCompressedOutputStream z :=
  if self.back.buffer.length = kChunkSize then
    { self with front := self.front ++ [self.back], back := .empty }
  else self

def bytesAvailable (self : ZstdCompressedOutputStream z) : ℕ :=
  kChunkSize - self.back.buffer.length

/-- The call of the compressor on the last chunk. -/
def call (self : ZstdCompressedOutputStream z) (directive : EndDirective) (src : Bytes) :
    ZstdCall z.Ctx :=
  z.compressStream2 self.ctx directive self.bytesAvailable src

/-- The stream after the call. -/
def advance (self : ZstdCompressedOutputStream z) (directive : EndDirective) (src : Bytes) :
    ZstdCompressedOutputStream z where
  ctx := (self.call directive src).ctx
  front := self.front
  back :=
    { buffer := self.back.buffer ++ (self.call directive src).produced
      used_le := by
        have hroom := z.produced_le self.ctx directive self.bytesAvailable src
        have hused := self.back.used_le
        rw [List.length_append]
        unfold call
        unfold bytesAvailable at hroom ⊢
        omega }

theorem bytesAvailable_withRoom (self : ZstdCompressedOutputStream z) :
    0 < self.withRoom.bytesAvailable := by
  have hused := self.back.used_le
  unfold withRoom bytesAvailable
  split
  · rw [Chunk.empty, List.length_nil]
    decide
  · omega

theorem ctx_withRoom (self : ZstdCompressedOutputStream z) : self.withRoom.ctx = self.ctx := by
  unfold withRoom
  split
  · rfl
  · rfl

theorem bytes_withRoom (self : ZstdCompressedOutputStream z) :
    self.withRoom.bytes = self.bytes := by
  unfold withRoom
  split
  · simp [bytes, Chunk.empty]
  · rfl

theorem bytes_advance (self : ZstdCompressedOutputStream z) (directive : EndDirective)
    (src : Bytes) :
    (self.advance directive src).bytes = self.bytes ++ (self.call directive src).produced := by
  simp [bytes, advance]

/-- A call with room and input takes some of it, or there is less left to put out. -/
theorem input_progress (self : ZstdCompressedOutputStream z) {data : Bytes}
    (hroom : 0 < self.bytesAvailable) (hdata : data ≠ []) :
    (data.drop (self.call .eContinue data).consumed).length < data.length ∨
      (data.drop (self.call .eContinue data).consumed).length = data.length ∧
        z.pending (self.advance .eContinue data).ctx < z.pending self.ctx := by
  have hlength := List.length_pos_iff.mpr hdata
  rw [List.length_drop]
  rcases Nat.eq_zero_or_pos (self.call .eContinue data).consumed with hconsumed | hconsumed
  · right
    have hpending := z.pending_le self.ctx .eContinue self.bytesAvailable data hconsumed
    rcases z.input_progress self.ctx self.bytesAvailable data hroom hdata with htakes | hproduces
    · exact absurd hconsumed htakes.ne'
    · refine ⟨by omega, ?_⟩
      change z.pending (z.compressStream2 self.ctx .eContinue self.bytesAvailable data).ctx < _
      omega
  · left
    omega

/-- A call with room that does not end the frame puts something out. -/
theorem flush_progress (self : ZstdCompressedOutputStream z) (hroom : 0 < self.bytesAvailable)
    (hresult : (self.call .eEnd []).result ≠ 0) :
    z.pending (self.advance .eEnd []).ctx < z.pending self.ctx := by
  have hproduced := z.flush_progress self.ctx self.bytesAvailable hroom hresult
  have hconsumed := z.consumed_le self.ctx .eEnd self.bytesAvailable []
  have hpending := z.pending_le self.ctx .eEnd self.bytesAvailable [] (Nat.le_zero.mp hconsumed)
  change z.pending (z.compressStream2 self.ctx .eEnd self.bytesAvailable []).ctx < _
  omega

/-- The loop of `Write`. -/
def write (self : ZstdCompressedOutputStream z) (data : Bytes) : ZstdCompressedOutputStream z :=
  if data = [] then self
  else
    write (self.withRoom.advance .eContinue data)
      (data.drop (self.withRoom.call .eContinue data).consumed)
termination_by (data.length, z.pending self.ctx)
decreasing_by
  next hdata =>
    have hprogress := self.withRoom.input_progress self.bytesAvailable_withRoom hdata
    rw [ctx_withRoom] at hprogress
    rcases hprogress with hless | ⟨heq, hless⟩
    · exact Prod.Lex.left _ _ hless
    · rw [heq]
      exact Prod.Lex.right _ hless

/-- The loop of `FlushCompressorBuffer`. -/
def flushCompressorBuffer (self : ZstdCompressedOutputStream z) : ZstdCompressedOutputStream z :=
  if (self.withRoom.call .eEnd []).result = 0 then self.withRoom.advance .eEnd []
  else flushCompressorBuffer (self.withRoom.advance .eEnd [])
termination_by z.pending self.ctx
decreasing_by
  next hresult =>
    have hprogress := self.withRoom.flush_progress self.bytesAvailable_withRoom hresult
    rwa [ctx_withRoom] at hprogress

def flushAndGet (self : ZstdCompressedOutputStream z) : Bytes := self.flushCompressorBuffer.bytes

/-! ## What the stream holds -/

/-- The chunks are the output of the calls so far. -/
def Holds (self : ZstdCompressedOutputStream z) (ending : Bool) (taken : Bytes) : Prop :=
  z.toZstdApi.Session ending self.ctx self.bytes taken

theorem holds_new (z : Zstd) : (new z).Holds false [] := .init

theorem Holds.withRoom {self : ZstdCompressedOutputStream z} {ending : Bool} {taken : Bytes}
    (h : self.Holds ending taken) : self.withRoom.Holds ending taken := by
  rw [Holds, ctx_withRoom, bytes_withRoom]
  exact h

/-- However the compressor cuts it up, the data of a write are taken whole. -/
theorem Holds.write {self : ZstdCompressedOutputStream z} {taken : Bytes}
    (h : self.Holds false taken) (data : Bytes) :
    (self.write data).Holds false (taken ++ data) := by
  fun_induction ZstdCompressedOutputStream.write self data generalizing taken with
  | case1 self => rwa [List.append_nil]
  | case2 self data hdata ih =>
      have hcall : (self.withRoom.advance .eContinue data).Holds false
          (taken ++ data.take (self.withRoom.call .eContinue data).consumed) := by
        rw [Holds, bytes_advance]
        exact .input _ data h.withRoom
      have hrest := ih hcall
      rwa [List.append_assoc, List.take_append_drop] at hrest

/-- What is got at the end decompresses to what was taken. -/
theorem Holds.flushAndGet {self : ZstdCompressedOutputStream z} {ending : Bool} {taken : Bytes}
    (h : self.Holds ending taken) : z.decompress self.flushAndGet = some taken := by
  unfold ZstdCompressedOutputStream.flushAndGet
  fun_induction flushCompressorBuffer self generalizing ending with
  | case1 self hresult =>
      rw [bytes_advance]
      exact z.decompress_frame _ h.withRoom hresult
  | case2 self hresult ih =>
      apply ih
      rw [Holds, bytes_advance]
      exact .flush _ h.withRoom

end ZstdCompressedOutputStream

/-- The output of the compressing stream for these writes. -/
def Zstd.compress (z : Zstd) (writes : List Bytes) : Bytes :=
  (writes.foldl ZstdCompressedOutputStream.write (.new z)).flushAndGet

/-- The writes come back joined. -/
theorem Zstd.decompress_compress (z : Zstd) (writes : List Bytes) :
    z.decompress (z.compress writes) = some writes.flatten := by
  have hwrites : ∀ (writes : List Bytes) (stream : ZstdCompressedOutputStream z) (taken : Bytes),
      stream.Holds false taken →
      (writes.foldl ZstdCompressedOutputStream.write stream).Holds false
        (taken ++ writes.flatten) := by
    intro writes
    induction writes with
    | nil =>
        intro stream taken h
        rwa [List.flatten_nil, List.append_nil]
    | cons data writes ih =>
        intro stream taken h
        rw [List.foldl_cons, List.flatten_cons, ← List.append_assoc]
        exact ih _ _ (h.write data)
  exact (hwrites writes _ [] (ZstdCompressedOutputStream.holds_new z)).flushAndGet

/-! ## The hashing stream -/

/-- BLAKE3 as it is documented: updates are hashed as one text. -/
structure Blake3 extends Hash 32 where
  State : Type
  hasherInit : State
  hasherUpdate : State → Bytes → State
  hasherFinalize : State → Bytes
  finalize_update : ∀ writes : List Bytes,
    hasherFinalize (writes.foldl hasherUpdate hasherInit) = digest writes.flatten

/-! ## Both streams -/

/-- The streams that a command's output is forwarded to. The hashing one is there unless caching
is disallowed. -/
structure OutputStreams (z : Zstd) (b : Blake3) where
  zstd : ZstdCompressedOutputStream z
  cacheParams : Option b.State

namespace OutputStreams

variable {z : Zstd} {b : Blake3}

/-- `ForwardingOutputStream::Write`. -/
def write (self : OutputStreams z b) (data : Bytes) : OutputStreams z b where
  zstd := self.zstd.write data
  cacheParams := self.cacheParams.map fun state => b.hasherUpdate state data

/-- The streams take the writes each on its own. -/
theorem foldl_write (writes : List Bytes) (self : OutputStreams z b) :
    writes.foldl write self =
      { zstd := writes.foldl ZstdCompressedOutputStream.write self.zstd
        cacheParams := self.cacheParams.map fun state => writes.foldl b.hasherUpdate state } := by
  induction writes generalizing self with
  | nil => simp
  | cons data writes ih =>
      rw [List.foldl_cons, ih, write, Option.map_map]
      rfl

end OutputStreams

end Yadcc.Client
