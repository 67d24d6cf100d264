import FluentBit.Msgpack.Object

/-!
The msgpack-c packer as `flb_mp.c` drives it. Every `msgpack_pack_*` call appends chunks to a
`msgpack_sbuffer` through `msgpack_sbuffer_write`, which may move the buffer when it grows and
fails, leaving it as it was, when the allocator refuses. A packer returns at its first failed
write.
-/

namespace FluentBit.Msgpack

/-- `_msgpack_store16/32/64`: the low `w` bytes of `n`, most significant first. -/
def storeBE : Nat → Nat → List UInt8
  | 0, _ => []
  | w + 1, n => UInt8.ofNat (n / 256 ^ w) :: storeBE w n

/-- The number spelled by big-endian bytes. -/
def loadBE : List UInt8 → Nat
  | [] => 0
  | b :: bs => b.toNat * 256 ^ bs.length + loadBE bs

@[simp] theorem uint8_toNat_ofNat (n : Nat) : (UInt8.ofNat n).toNat = n % 256 := rfl

@[simp] theorem storeBE_length (w n : Nat) : (storeBE w n).length = w := by
  induction w <;> simp_all [storeBE]

theorem storeBE_one (n : Nat) : storeBE 1 n = [UInt8.ofNat n] := by
  simp [storeBE]

theorem loadBE_storeBE (w n : Nat) : loadBE (storeBE w n) = n % 256 ^ w := by
  induction w with
  | zero => simp [storeBE, loadBE, Nat.mod_one]
  | succ w ih =>
      simp only [storeBE, loadBE, storeBE_length, ih, Nat.mod_pow_succ]
      change n / 256 ^ w % 256 * 256 ^ w + _ = _
      rw [Nat.mul_comm]; omega

/-- `msgpack_pack_real_uint64`. -/
def packUint64 (d : Nat) : List UInt8 :=
  if d < 2 ^ 8 then
    if d < 2 ^ 7 then [UInt8.ofNat d] else [0xcc, UInt8.ofNat d]
  else if d < 2 ^ 16 then 0xcd :: storeBE 2 d
  else if d < 2 ^ 32 then 0xce :: storeBE 4 d
  else 0xcf :: storeBE 8 d

/-- `msgpack_pack_real_int64`; a value stores its two's complement bytes. At and above `2 ^ 7`
its branches are those of `msgpack_pack_real_uint64`. -/
def packInt64 (d : Int) : List UInt8 :=
  if d < -2 ^ 5 then
    if d < -2 ^ 15 then
      if d < -2 ^ 31 then 0xd3 :: storeBE 8 (d % 2 ^ 64).toNat
      else 0xd2 :: storeBE 4 (d % 2 ^ 32).toNat
    else if d < -2 ^ 7 then 0xd1 :: storeBE 2 (d % 2 ^ 16).toNat
    else [0xd0, UInt8.ofNat (d % 2 ^ 8).toNat]
  else if d < 2 ^ 7 then [UInt8.ofNat (d % 2 ^ 8).toNat]
  else packUint64 d.toNat

/-- `msgpack_pack_float` and `msgpack_pack_double`, on the bit pattern. -/
def packFloat (bits : Nat) : List UInt8 := 0xca :: storeBE 4 bits
def packDouble (bits : Nat) : List UInt8 := 0xcb :: storeBE 8 bits

/-- `msgpack_pack_str`: the header of a string of `l` bytes. -/
def packStr (l : Nat) : List UInt8 :=
  if l < 32 then [UInt8.ofNat (0xa0 + l)]
  else if l < 256 then [0xd9, UInt8.ofNat l]
  else if l < 65536 then 0xda :: storeBE 2 l
  else 0xdb :: storeBE 4 l

/-- `msgpack_pack_bin`. -/
def packBin (l : Nat) : List UInt8 :=
  if l < 256 then [0xc4, UInt8.ofNat l]
  else if l < 65536 then 0xc5 :: storeBE 2 l
  else 0xc6 :: storeBE 4 l

/-- `msgpack_pack_ext`: the header of `l` bytes of extension `type`. -/
def packExt (l : Nat) (type : Int) : List UInt8 :=
  let t := UInt8.ofNat (type % 256).toNat
  match l with
  | 1 => [0xd4, t]
  | 2 => [0xd5, t]
  | 4 => [0xd6, t]
  | 8 => [0xd7, t]
  | 16 => [0xd8, t]
  | l =>
      if l < 256 then [0xc7, UInt8.ofNat l, t]
      else if l < 65536 then 0xc8 :: storeBE 2 l ++ [t]
      else 0xc9 :: storeBE 4 l ++ [t]

/-- `msgpack_pack_array`. -/
def packArray (n : Nat) : List UInt8 :=
  if n < 16 then [UInt8.ofNat (0x90 + n)]
  else if n < 65536 then 0xdc :: storeBE 2 n
  else 0xdd :: storeBE 4 n

/-- `msgpack_pack_map`. -/
def packMap (n : Nat) : List UInt8 :=
  if n < 16 then [UInt8.ofNat (0x80 + n)]
  else if n < 65536 then 0xde :: storeBE 2 n
  else 0xdf :: storeBE 4 n

/-- The writes of `msgpack_pack_object` for a scalar: strings, binaries and extensions are a
header write and a body write. -/
def Scalar.chunks : Scalar → List (List UInt8)
  | .nil => [[0xc0]]
  | .boolean b => [if b then [0xc3] else [0xc2]]
  | .positiveInteger u => [packUint64 u]
  | .negativeInteger i => [packInt64 i]
  | .float32 f => [packFloat f]
  | .float64 f => [packDouble f]
  | .str s => [packStr s.length, s]
  | .bin s => [packBin s.length, s]
  | .ext t d => [packExt d.length t, d]

namespace Obj

variable {α : Type}

mutual
/-- The writes of `msgpack_pack_object`, in order: a container's header, then its entries. -/
def chunks : Obj α → List (List UInt8)
  | .scalar _ s => s.chunks
  | .array _ xs => packArray xs.length :: chunksList xs
  | .map _ kvs => packMap kvs.length :: chunksKvs kvs
def chunksList : List (Obj α) → List (List UInt8)
  | [] => []
  | x :: xs => x.chunks ++ chunksList xs
def chunksKvs : List (Obj α × Obj α) → List (List UInt8)
  | [] => []
  | (k, v) :: kvs => k.chunks ++ v.chunks ++ chunksKvs kvs
end

/-- The bytes `msgpack_pack_object` appends when every write succeeds. -/
def packed (o : Obj α) : List UInt8 := o.chunks.flatten

end Obj

/-- `msgpack_sbuffer`: `bytes` (its `size` bytes) at address `data`, `alloc` bytes reserved. -/
structure Sbuffer where
  data : Nat
  alloc : Nat
  bytes : List UInt8

/-- `msgpack_sbuffer_init`. -/
def msgpackSbufferInit : Sbuffer := ⟨0, 0, []⟩

/-- The doubling loop of `msgpack_sbuffer_write` over `size_t`: a doubling that wraps stops it,
so it runs at most 64 rounds. -/
def sbufferGrow : Nat → Nat → Nat → Nat
  | 0, nsize, _ => nsize
  | k + 1, nsize, need =>
      if nsize < need then
        if nsize * 2 % 2 ^ 64 ≤ nsize then need else sbufferGrow k (nsize * 2 % 2 ^ 64) need
      else nsize

/-- The packer's output buffer and its allocator: `realloc t` is the address returned by the
`t`-th growth attempt, `none` when `realloc` fails. -/
structure Packer where
  sbuf : Sbuffer
  realloc : Nat → Option Nat
  tick : Nat

abbrev PackM := StateM Packer

/-- `msgpack_sbuffer_write`: `0` when `buf` is appended, `-1` when the buffer had to grow and
could not; the buffer is then unchanged. -/
def msgpackSbufferWrite (buf : List UInt8) : PackM Int := fun p =>
  let s := p.sbuf
  if s.alloc - s.bytes.length < buf.length then
    let nsize := sbufferGrow 64 (if s.alloc = 0 then 8192 else s.alloc * 2 % 2 ^ 64)
      (s.bytes.length + buf.length)
    match p.realloc p.tick with
    | none => (-1, { p with tick := p.tick + 1 })
    | some data => (0, { p with sbuf := ⟨data, nsize, s.bytes ++ buf⟩, tick := p.tick + 1 })
  else (0, { p with sbuf := { s with bytes := s.bytes ++ buf } })

/-- `msgpack_pack_append_buffer` for each chunk in turn, up to the first failure. -/
def writeChunks : List (List UInt8) → PackM Int
  | [] => pure 0
  | c :: cs => do
    let r ← msgpackSbufferWrite c
    if r < 0 then pure r else writeChunks cs

/-- `msgpack_pack_object`. -/
def msgpackPackObject {α : Type} (o : Obj α) : PackM Int := writeChunks o.chunks

/-- An allocator that never refuses: every write then succeeds. -/
def Packer.Reliable (p : Packer) : Prop := ∀ t, (p.realloc t).isSome

section Reliable

variable {p : Packer}

theorem msgpackSbufferWrite_reliable (buf : List UInt8) (h : p.Reliable) :
    (msgpackSbufferWrite buf p).1 = 0 ∧
      (msgpackSbufferWrite buf p).2.sbuf.bytes = p.sbuf.bytes ++ buf ∧
      (msgpackSbufferWrite buf p).2.realloc = p.realloc := by
  obtain ⟨a, ha⟩ := Option.isSome_iff_exists.mp (h p.tick)
  unfold msgpackSbufferWrite
  simp only [ha]
  split <;> exact ⟨rfl, rfl, rfl⟩

theorem writeChunks_reliable (cs : List (List UInt8)) (h : p.Reliable) :
    (writeChunks cs p).1 = 0 ∧ (writeChunks cs p).2.sbuf.bytes = p.sbuf.bytes ++ cs.flatten ∧
      (writeChunks cs p).2.realloc = p.realloc := by
  induction cs generalizing p with
  | nil => simp [writeChunks, pure, StateT.pure]
  | cons c cs ih =>
      obtain ⟨h0, hb, hr⟩ := msgpackSbufferWrite_reliable c h
      obtain ⟨h0', hb', hr'⟩ := ih (p := (msgpackSbufferWrite c p).2) (fun t => hr ▸ h t)
      simp only [writeChunks, bind, StateT.bind]
      rcases hw : msgpackSbufferWrite c p with ⟨r, q⟩
      rw [hw] at h0 hb hr h0' hb' hr'
      dsimp only at h0 hb hr h0' hb' hr'
      subst h0
      simp [h0', hb', hb, hr', hr]

theorem msgpackPackObject_reliable {α : Type} (o : Obj α) (h : p.Reliable) :
    (msgpackPackObject o p).2.sbuf.bytes = p.sbuf.bytes ++ o.packed ∧
      (msgpackPackObject o p).2.Reliable := by
  obtain ⟨_, hb, hr⟩ := writeChunks_reliable o.chunks h
  exact ⟨hb, fun t => by simpa [msgpackPackObject, hr] using h t⟩

end Reliable

end FluentBit.Msgpack
