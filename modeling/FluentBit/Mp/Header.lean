import FluentBit.Msgpack.RoundTrip

/-!
The map and array header builder of `flb_mp.c`. `flb_mp_map_header_init` packs a header for
65536 entries, which msgpack-c writes in its 32-bit form `0xdf`; `_append` counts an entry;
`_end` finds the header again through the buffer's current data and the offset the cursor
kept, and stores the count in the header's four length bytes.
-/

namespace FluentBit.Mp

open Msgpack

/-- `struct flb_mp_map_header`: the offset of its header in the buffer, and the entries
registered so far. -/
structure FlbMpMapHeader where
  offset : Nat
  entries : Nat

/-- Overwrite the bytes from `off` on with `new`. -/
def patch (bs : List UInt8) (off : Nat) (new : List UInt8) : List UInt8 :=
  bs.take off ++ new ++ bs.drop (off + new.length)

/-- The body of `flb_mp_set_map_header_size` and `flb_mp_set_array_header_size`: the header at
`off` is rewritten in its own format, a fix format with high nibble `fix`, or the 16- or 32-bit
format with first byte `f16` or `f32`. A header past the end reads as `0`. -/
def setHeaderSize (fix f16 f32 : Nat) (bs : List UInt8) (off size : Nat) : List UInt8 :=
  let h := (bs.getD off 0).toNat
  if h >>> 4 = fix then patch bs off [UInt8.ofNat (fix <<< 4 ||| size % 256)]
  else if h = f16 then patch bs (off + 1) (storeBE 2 size)
  else if h = f32 then patch bs (off + 1) (storeBE 4 size)
  else bs

/-- `flb_mp_set_map_header_size`. -/
def flbMpSetMapHeaderSize : List UInt8 → Nat → Nat → List UInt8 := setHeaderSize 0x8 0xde 0xdf

/-- `flb_mp_set_array_header_size`. -/
def flbMpSetArrayHeaderSize : List UInt8 → Nat → Nat → List UInt8 :=
  setHeaderSize 0x9 0xdc 0xdd

/-- `mp_header_type_init`: the cursor records the next free byte; the type is not kept. -/
def mpHeaderTypeInit : PackM FlbMpMapHeader := fun p => (⟨p.sbuf.bytes.length, 0⟩, p)

/-- The body of `flb_mp_map_header_init` and `flb_mp_array_header_init`: a header for 65536
entries, which forces the 32-bit format. -/
def headerInit (packHeader : Nat → List UInt8) : PackM (FlbMpMapHeader × Int) := do
  let mh ← mpHeaderTypeInit
  let ret ← msgpackSbufferWrite (packHeader 65536)
  pure (mh, ret)

/-- `flb_mp_map_header_init`. -/
def flbMpMapHeaderInit : PackM (FlbMpMapHeader × Int) := headerInit packMap

/-- `flb_mp_array_header_init`. -/
def flbMpArrayHeaderInit : PackM (FlbMpMapHeader × Int) := headerInit packArray

/-- `flb_mp_map_header_append`: the new count. -/
def flbMpMapHeaderAppend (mh : FlbMpMapHeader) : FlbMpMapHeader × Nat :=
  (⟨mh.offset, mh.entries + 1⟩, mh.entries + 1)

/-- `flb_mp_array_header_append`, the same as the map's. -/
def flbMpArrayHeaderAppend : FlbMpMapHeader → FlbMpMapHeader × Nat := flbMpMapHeaderAppend

/-- The body of `flb_mp_map_header_end` and `flb_mp_array_header_end`. -/
def headerEnd (setSize : List UInt8 → Nat → Nat → List UInt8) (mh : FlbMpMapHeader) :
    PackM Unit :=
  modify fun p => { p with sbuf := { p.sbuf with bytes := setSize p.sbuf.bytes mh.offset mh.entries } }

/-- `flb_mp_map_header_end`. -/
def flbMpMapHeaderEnd : FlbMpMapHeader → PackM Unit := headerEnd flbMpSetMapHeaderSize

/-- `flb_mp_array_header_end`. -/
def flbMpArrayHeaderEnd : FlbMpMapHeader → PackM Unit := headerEnd flbMpSetArrayHeaderSize

theorem patch_append (pre old post new : List UInt8) (h : old.length = new.length) :
    patch (pre ++ old ++ post) pre.length new = pre ++ new ++ post := by
  simp [patch, h, List.take_append_of_le_length, List.drop_append_eq_append_drop]

theorem patch_frame (bs : List UInt8) (off : Nat) (new : List UInt8)
    (h : off + new.length ≤ bs.length) :
    (patch bs off new).length = bs.length ∧
      ∀ i, i < off ∨ off + new.length ≤ i → (patch bs off new)[i]? = bs[i]? := by
  refine ⟨by simp [patch]; omega, fun i hi => ?_⟩
  rcases hi with hi | hi
  · simp [patch, List.getElem?_append_left, hi, List.getElem?_take]
    rw [List.getElem?_append_left (by simp; omega), List.getElem?_take_of_lt hi]
  · rw [patch, List.getElem?_append_right (by simp; omega), List.getElem?_drop]
    congr 1; simp; omega

theorem setHeaderSize_of_wide {fix f16 f32 : Nat} {bs : List UInt8} {off : Nat}
    (hh : (bs.getD off 0).toNat = f32) (hfix : f32 >>> 4 ≠ fix) (h16 : f32 ≠ f16) (n : Nat) :
    setHeaderSize fix f16 f32 bs off n = patch bs (off + 1) (storeBE 4 n) := by
  simp only [setHeaderSize, hh, if_neg hfix, if_neg h16, if_true]

theorem setHeaderSize_of_fix {fix f16 f32 size : Nat} {c : UInt8} (hfix : c.toNat >>> 4 = fix)
    (hs : size < 16) (rest : List UInt8) :
    setHeaderSize fix f16 f32 (c :: rest) 0 size = UInt8.ofNat (fix <<< 4 ||| size) :: rest := by
  simp [setHeaderSize, patch, hfix, Nat.mod_eq_of_lt (show size < 256 by omega)]

theorem setHeaderSize_of_f16 {fix f16 f32 : Nat} {c : UInt8} (hc : c.toNat = f16)
    (hfix : f16 >>> 4 ≠ fix) (n size : Nat) (rest : List UInt8) :
    setHeaderSize fix f16 f32 (c :: storeBE 2 n ++ rest) 0 size = c :: storeBE 2 size ++ rest := by
  simpa [setHeaderSize, hc, hfix] using patch_append [c] (storeBE 2 n) rest (storeBE 2 size) (by simp)

/-- The counts that the header `msgpack_pack_map n` or `msgpack_pack_array n` writes has room
for: `n` picks its format. -/
def headerRoom (n : Nat) : Nat := if n < 16 then 16 else if n < 65536 then 65536 else 2 ^ 32

/-- The two kinds of container the builder opens. -/
inductive Kind where
  | map
  | array
  deriving DecidableEq, Repr

/-- Keys and values, alternating, as a map's entries. -/
def pairs {β : Type} : List β → List (β × β)
  | k :: v :: rest => (k, v) :: pairs rest
  | _ => []

theorem encodesKvs_pairs : ∀ (kids : List (Obj Unit)) (n : Nat) {out : List UInt8},
    EncodesList kids out → kids.length = 2 * n →
      EncodesKvs (pairs kids) out ∧ (pairs kids).length = n
  | [], 0, _, h, _ => ⟨h, rfl⟩
  | _ :: _ :: rest, n + 1, _, ⟨_, _, rfl, hk, _, r, rfl, hv, hr⟩, hl => by
      obtain ⟨hkvs, hlen⟩ := encodesKvs_pairs rest n hr (by simp at hl; omega)
      exact ⟨⟨_, _, r, by simp, hk, hv, hkvs⟩, by simp [pairs, hlen]⟩
  | [], _ + 1, _, _, hl | [_], _, _, _, hl | _ :: _ :: _, 0, _, _, hl => by
      simp at hl <;> omega

namespace Kind

-- The builder's calls for each kind: the map's functions or the array's, and the header byte,
-- entry arity, container and tag of that kind.

def headerInit : Kind → PackM (FlbMpMapHeader × Int)
  | map => flbMpMapHeaderInit
  | array => flbMpArrayHeaderInit

def headerAppend : Kind → FlbMpMapHeader → FlbMpMapHeader × Nat
  | map => flbMpMapHeaderAppend
  | array => flbMpArrayHeaderAppend

def headerEnd : Kind → FlbMpMapHeader → PackM Unit
  | map => flbMpMapHeaderEnd
  | array => flbMpArrayHeaderEnd

def wide : Kind → UInt8
  | map => 0xdf
  | array => 0xdd

def arity : Kind → Nat
  | map => 2
  | array => 1

def assemble : Kind → List (Obj Unit) → Obj Unit
  | map, kids => .map () (pairs kids)
  | array, kids => .array () kids

def setSize : Kind → List UInt8 → Nat → Nat → List UInt8
  | map => flbMpSetMapHeaderSize
  | array => flbMpSetArrayHeaderSize

def packHeader : Kind → Nat → List UInt8
  | map => packMap
  | array => packArray

def tag : Kind → Nat → Tag
  | map => .map
  | array => .array

variable (k : Kind) {p : Packer}

/-- On a header that `msgpack_pack_map` or `msgpack_pack_array` wrote, a count that its format has
room for is read back from the rewritten header, and the bytes after the header stay. -/
theorem setSize_packHeader {n size : Nat} (hn : n < 2 ^ 32) (hs : size < headerRoom n)
    (rest : List UInt8) :
    readTag (k.setSize (k.packHeader n ++ rest) 0 size) = some (k.tag size, rest) := by
  have hfix : ∀ s < 16, 8 <<< 4 ||| s = 0x80 + s ∧ 9 <<< 4 ||| s = 0x90 + s := by decide
  unfold headerRoom at hs
  cases k <;> simp only [setSize, packHeader, tag, flbMpSetMapHeaderSize, flbMpSetArrayHeaderSize,
    packMap, packArray] <;> split_ifs at hs ⊢ with h16 h65536
  · rw [List.singleton_append, setHeaderSize_of_fix (by simp [Nat.shiftRight_eq_div_pow]; omega) hs,
      (hfix size hs).1]
    simpa [packMap, hs] using heads_packMap (show size < 2 ^ 32 by omega) rest
  · rw [setHeaderSize_of_f16 (show (0xde : UInt8).toNat = 0xde from rfl) (by decide)]
    exact heads_uint (c := 0xde) (t := .map) (by decide) (by decide) (by intro; rfl) hs rest
  · rw [List.cons_append, setHeaderSize_of_wide (by rfl) (by decide) (by decide)]
    simpa using heads_map32 hs rest
  · rw [List.singleton_append, setHeaderSize_of_fix (by simp [Nat.shiftRight_eq_div_pow]; omega) hs,
      (hfix size hs).2]
    simpa [packArray, hs] using heads_packArray (show size < 2 ^ 32 by omega) rest
  · rw [setHeaderSize_of_f16 (show (0xdc : UInt8).toNat = 0xdc from rfl) (by decide)]
    exact heads_uint (c := 0xdc) (t := .array) (by decide) (by decide) (by intro; rfl) hs rest
  · rw [List.cons_append, setHeaderSize_of_wide (by rfl) (by decide) (by decide)]
    simpa using heads_array32 hs rest

theorem setSize_packHeader_map16 :
    20 < 2 ^ 32 ∧ 3 < headerRoom 20 ∧
      readTag (map.setSize (map.packHeader 20 ++ [0xc0]) 0 3) = some (map.tag 3, [0xc0]) :=
  ⟨by decide, by decide, map.setSize_packHeader (by decide) (by decide) [0xc0]⟩

theorem headerInit_eq : k.headerInit p =
    ((⟨p.sbuf.bytes.length, 0⟩, (msgpackSbufferWrite (k.wide :: storeBE 4 65536) p).1),
      (msgpackSbufferWrite (k.wide :: storeBE 4 65536) p).2) := by
  cases k <;> rfl

theorem headerEnd_eq (mh : FlbMpMapHeader) : (k.headerEnd mh p).2 =
    { p with sbuf := { p.sbuf with bytes := k.setSize p.sbuf.bytes mh.offset mh.entries } } := by
  cases k <;> rfl

theorem headerInit_reliable (h : p.Reliable) :
    (k.headerInit p).1.1 = ⟨p.sbuf.bytes.length, 0⟩ ∧
      (k.headerInit p).2.sbuf.bytes = p.sbuf.bytes ++ k.wide :: storeBE 4 65536 ∧
      (k.headerInit p).2.Reliable := by
  obtain ⟨-, hb, hr⟩ := msgpackSbufferWrite_reliable (k.wide :: storeBE 4 65536) h
  rw [headerInit_eq]
  exact ⟨rfl, hb, fun t => hr ▸ h t⟩

theorem setSize_of_wide {bs : List UInt8} {off : Nat} (hw : bs[off]? = some k.wide) (n : Nat) :
    k.setSize bs off n = patch bs (off + 1) (storeBE 4 n) := by
  have hh : bs.getD off 0 = k.wide := by simp [List.getD_eq_getElem?_getD, hw]
  cases k <;> exact setHeaderSize_of_wide (by rw [hh]; rfl) (by decide) (by decide) n

theorem headerEnd_after (q : Packer) (pre out : List UInt8)
    (hb : q.sbuf.bytes = pre ++ k.wide :: storeBE 4 65536 ++ out) (n : Nat) :
    (k.headerEnd ⟨pre.length, n⟩ q).2.sbuf.bytes = pre ++ k.wide :: storeBE 4 n ++ out ∧
      (k.headerEnd ⟨pre.length, n⟩ q).2.realloc = q.realloc := by
  have hw : q.sbuf.bytes[pre.length]? = some k.wide := by simp [hb, List.getElem_append_right]
  rw [headerEnd_eq]
  refine ⟨?_, rfl⟩
  rw [setSize_of_wide k hw, hb]
  simpa using patch_append (pre ++ [k.wide]) (storeBE 4 65536) out (storeBE 4 n) (by simp)

theorem encodes_assemble {kids : List (Obj Unit)} {out : List UInt8} {n : Nat}
    (he : EncodesList kids out) (hl : kids.length = k.arity * n) (hn : n < 2 ^ 32) :
    Encodes (k.assemble kids) (k.wide :: storeBE 4 n ++ out) := by
  cases k
  · obtain ⟨hkvs, hlen⟩ := encodesKvs_pairs kids n he hl
    exact ⟨_, _, rfl, by rw [hlen]; exact heads_map32 hn, hkvs⟩
  · exact ⟨_, _, rfl, by rw [hl, arity, Nat.one_mul]; exact heads_array32 hn, he⟩

/-- A container written the way the builder writes one: open, run `body` on the cursor,
close. -/
def rebuild (body : FlbMpMapHeader → PackM FlbMpMapHeader) : PackM Unit := do
  let mh := (← k.headerInit).1
  let mh ← body mh
  k.headerEnd mh

theorem rebuild_reliable (body : FlbMpMapHeader → PackM FlbMpMapHeader) {n : Nat}
    {P : List UInt8 → Prop} (hr : p.Reliable)
    (hbody : ∀ q : Packer, q.Reliable → ∀ mh, (body mh q).1 = ⟨mh.offset, mh.entries + n⟩ ∧
      (body mh q).2.Reliable ∧ ∃ out, (body mh q).2.sbuf.bytes = q.sbuf.bytes ++ out ∧ P out) :
    (k.rebuild body p).2.Reliable ∧
      ∃ out, (k.rebuild body p).2.sbuf.bytes = p.sbuf.bytes ++ k.wide :: storeBE 4 n ++ out ∧
        P out := by
  obtain ⟨h1, h2, h3⟩ := k.headerInit_reliable hr
  obtain ⟨hmh, hr4, out, hb4, hP⟩ := hbody _ h3 ⟨p.sbuf.bytes.length, 0⟩
  have hx : k.rebuild body p = k.headerEnd (body ⟨p.sbuf.bytes.length, 0⟩ (k.headerInit p).2).1
      (body ⟨p.sbuf.bytes.length, 0⟩ (k.headerInit p).2).2 := by
    rw [← h1]; rfl
  obtain ⟨hb5, hr5⟩ := k.headerEnd_after _ p.sbuf.bytes out (by rw [hb4, h2]) n
  rw [hx, hmh, Nat.zero_add]
  exact ⟨fun t => hr5 ▸ hr4 t, out, hb5, hP⟩

end Kind

/-- A call of code that builds with this API: open a container, register an entry, close the
innermost open container, or pack a whole object with `msgpack_pack_object`. -/
inductive BuildStep (α : Type) where
  | init (k : Kind)
  | append (k : Kind)
  | close (k : Kind)
  | pack (o : Obj α)

/-- The packer, and the cursors of the containers opened and not yet closed, innermost first. -/
structure Builder where
  pk : Packer
  cursors : List FlbMpMapHeader

variable {α : Type}

/-- One call; registering and closing act on the innermost open cursor. -/
def buildStep : BuildStep α → Builder → Builder
  | .init k, b => ⟨(k.headerInit b.pk).2, (k.headerInit b.pk).1.1 :: b.cursors⟩
  | .append k, ⟨pk, mh :: cs⟩ => ⟨pk, (k.headerAppend mh).1 :: cs⟩
  | .close k, ⟨pk, mh :: cs⟩ => ⟨(k.headerEnd mh pk).2, cs⟩
  | .pack o, b => ⟨(msgpackPackObject o b.pk).2, b.cursors⟩
  | _, b => b

/-- The calls in order. -/
def buildRun : List (BuildStep α) → Builder → Builder
  | [], b => b
  | s :: ss, b => buildRun ss (buildStep s b)

/-- Closing the innermost open container of `b` finds the cursor's 32-bit header byte with the
four length bytes after it in the buffer, and changes no other byte. -/
def CloseFramed (k : Kind) (b : Builder) : Prop :=
  match b.cursors with
  | mh :: _ =>
      b.pk.sbuf.bytes[mh.offset]? = some k.wide ∧ mh.offset + 5 ≤ b.pk.sbuf.bytes.length ∧
        (buildStep (α := α) (.close k) b).pk.sbuf.bytes.length = b.pk.sbuf.bytes.length ∧
        ∀ i, i ≤ mh.offset ∨ mh.offset + 5 ≤ i →
          (buildStep (α := α) (.close k) b).pk.sbuf.bytes[i]? = b.pk.sbuf.bytes[i]?
  | [] => False

/-- Closes are framed; the other steps are not constrained here. -/
def StepFramed : BuildStep α → Builder → Prop
  | .close k, b => CloseFramed (α := α) k b
  | _, _ => True

/-- Every close of the run is framed, each in the state it runs from. -/
def ClosesFramed : List (BuildStep α) → Builder → Prop
  | [], _ => True
  | s :: ss, b => StepFramed s b ∧ ClosesFramed ss (buildStep s b)

/-- `ss` is a well-bracketed run that writes the objects `os` and registers `n` entries on the
container of kind `c` it runs in (`none` at the top, where nothing is registered): whole objects
packed, and containers each opened, given `m` appends and exactly their children, and closed. -/
inductive Builds : Option Kind → List (BuildStep α) → Nat → List (Obj Unit) → Prop
  | nil {c} : Builds c [] 0 []
  | append {k ss n os} : Builds (some k) ss n os → Builds (some k) (.append k :: ss) (n + 1) os
  | pack {c o ss n os} : o.WF → Builds c ss n os → Builds c (.pack o :: ss) n (o.erase :: os)
  | container {c k body m kids ss n os} : Builds (some k) body m kids →
      kids.length = k.arity * m → m < 2 ^ 31 → Builds c ss n os →
      Builds c (.init k :: body ++ .close k :: ss) n (k.assemble kids :: os)

/-- The cursors after `n` more entries on the innermost one. -/
def addEntries (n : Nat) : List FlbMpMapHeader → List FlbMpMapHeader
  | mh :: cs => ⟨mh.offset, mh.entries + n⟩ :: cs
  | [] => []

@[simp] theorem addEntries_zero (cs : List FlbMpMapHeader) : addEntries 0 cs = cs := by
  cases cs <;> rfl

theorem addEntries_add (m n : Nat) (cs : List FlbMpMapHeader) :
    addEntries n (addEntries m cs) = addEntries (m + n) cs := by
  cases cs <;> simp [addEntries, Nat.add_assoc]

theorem buildRun_append (ss₁ ss₂ : List (BuildStep α)) (b : Builder) :
    buildRun (ss₁ ++ ss₂) b = buildRun ss₂ (buildRun ss₁ b) := by
  induction ss₁ generalizing b <;> simp_all [buildRun]

theorem closesFramed_append (ss₁ ss₂ : List (BuildStep α)) (b : Builder) :
    ClosesFramed (ss₁ ++ ss₂) b ↔ ClosesFramed ss₁ b ∧ ClosesFramed ss₂ (buildRun ss₁ b) := by
  induction ss₁ generalizing b <;> simp_all [ClosesFramed, buildRun, and_assoc]

section Steps

variable {b : Builder} (hr : b.pk.Reliable)
include hr

theorem buildStep_pack (o : Obj α) :
    (buildStep (.pack o) b).pk.sbuf.bytes = b.pk.sbuf.bytes ++ o.packed ∧
      (buildStep (.pack o) b).cursors = b.cursors ∧ (buildStep (.pack o) b).pk.Reliable :=
  ⟨(msgpackPackObject_reliable o hr).1, rfl, (msgpackPackObject_reliable o hr).2⟩

theorem buildStep_init (k : Kind) :
    (buildStep (α := α) (.init k) b).pk.sbuf.bytes = b.pk.sbuf.bytes ++ k.wide :: storeBE 4 65536 ∧
      (buildStep (α := α) (.init k) b).cursors = ⟨b.pk.sbuf.bytes.length, 0⟩ :: b.cursors ∧
      (buildStep (α := α) (.init k) b).pk.Reliable := by
  obtain ⟨h1, h2, h3⟩ := k.headerInit_reliable hr
  exact ⟨h2, by simp [buildStep, h1], h3⟩

end Steps

theorem buildStep_append (k : Kind) (pk : Packer) (mh : FlbMpMapHeader) (cs : List FlbMpMapHeader) :
    buildStep (α := α) (.append k) ⟨pk, mh :: cs⟩ = ⟨pk, ⟨mh.offset, mh.entries + 1⟩ :: cs⟩ := by
  cases k <;> rfl

theorem buildStep_close (k : Kind) (pk : Packer) (mh : FlbMpMapHeader) (cs : List FlbMpMapHeader)
    (hw : pk.sbuf.bytes[mh.offset]? = some k.wide) :
    buildStep (α := α) (.close k) ⟨pk, mh :: cs⟩ = ⟨{ pk with sbuf := { pk.sbuf with
      bytes := patch pk.sbuf.bytes (mh.offset + 1) (storeBE 4 mh.entries) } }, cs⟩ := by
  simp only [buildStep, k.headerEnd_eq, k.setSize_of_wide hw]

theorem close_after_body (k : Kind) {pk : Packer} {cs : List FlbMpMapHeader}
    {pre out : List UInt8} {n : Nat} (hb : pk.sbuf.bytes = pre ++ k.wide :: storeBE 4 65536 ++ out)
    (hr : pk.Reliable) :
    (buildStep (α := α) (.close k) ⟨pk, ⟨pre.length, n⟩ :: cs⟩).pk.sbuf.bytes =
        pre ++ k.wide :: storeBE 4 n ++ out ∧
      (buildStep (α := α) (.close k) ⟨pk, ⟨pre.length, n⟩ :: cs⟩).cursors = cs ∧
      (buildStep (α := α) (.close k) ⟨pk, ⟨pre.length, n⟩ :: cs⟩).pk.Reliable ∧
      StepFramed (α := α) (.close k) ⟨pk, ⟨pre.length, n⟩ :: cs⟩ := by
  have hw : pk.sbuf.bytes[pre.length]? = some k.wide := by simp [hb, List.getElem_append_right]
  have hl : pre.length + 5 ≤ pk.sbuf.bytes.length := by simp [hb]
  obtain ⟨hb', hr'⟩ := k.headerEnd_after pk pre out hb n
  refine ⟨hb', rfl, fun t => hr' ▸ hr t, ?_⟩
  obtain ⟨hlen, hframe⟩ := patch_frame pk.sbuf.bytes (pre.length + 1) (storeBE 4 n)
    (by simp; omega)
  simp only [StepFramed, CloseFramed, buildStep_close (α := α) k pk ⟨pre.length, n⟩ cs hw]
  exact ⟨hw, hl, hlen, fun i hi => hframe i (by simp only [storeBE_length]; omega)⟩

theorem builds_run {c : Option Kind} {ss : List (BuildStep α)} {n : Nat} {os : List (Obj Unit)}
    (h : Builds c ss n os) (b : Builder) (hr : b.pk.Reliable) (hc : c.isSome → b.cursors ≠ []) :
    ∃ out, (buildRun ss b).pk.sbuf.bytes = b.pk.sbuf.bytes ++ out ∧ EncodesList os out ∧
      (buildRun ss b).cursors = addEntries n b.cursors ∧ (buildRun ss b).pk.Reliable ∧
      ClosesFramed ss b := by
  induction h generalizing b with
  | nil => exact ⟨[], by simp [buildRun], rfl, by simp [buildRun], hr, trivial⟩
  | @append k ss n os _ ih =>
      obtain ⟨pk, _ | ⟨mh, cs⟩⟩ := b
      · exact absurd rfl (hc rfl)
      obtain ⟨out, h1, h2, h3, h4, h5⟩ := ih ⟨pk, ⟨mh.offset, mh.entries + 1⟩ :: cs⟩ hr (by simp)
      simp only [buildRun, ClosesFramed, buildStep_append]
      refine ⟨out, h1, h2, ?_, h4, trivial, h5⟩
      rw [h3, show ⟨mh.offset, mh.entries + 1⟩ :: cs = addEntries 1 (mh :: cs) from rfl,
        addEntries_add, Nat.add_comm]
  | @pack c o ss n os hw _ ih =>
      obtain ⟨hb1, hc1, hr1⟩ := buildStep_pack hr o
      obtain ⟨out, hb, he, hcur, hr2, hf⟩ := ih _ hr1 (hc1 ▸ hc)
      refine ⟨o.packed ++ out, ?_, ⟨_, _, rfl, encodes_packed o hw, he⟩, hcur.trans (by rw [hc1]),
        hr2, trivial, hf⟩
      simp [buildRun, hb, hb1]
  | @container c k body m kids ss n os _ hl hm _ ihbody ih =>
      -- Opening pushes a cursor at the header; the body counts `m` entries on it.
      obtain ⟨hb1, hc1, hr1⟩ := buildStep_init (α := α) hr k
      obtain ⟨out, hb2, he, hc2, hr2, hf2⟩ := ihbody _ hr1 (by simp [hc1])
      rcases hrun : buildRun body (buildStep (.init k) b) with ⟨pk2, cs2⟩
      rw [hrun] at hb2 hc2 hr2
      simp only [hc1, addEntries, Nat.zero_add] at hc2
      subst hc2
      have hsplit : buildRun (.init k :: body ++ .close k :: ss) b =
          buildRun ss (buildStep (α := α) (.close k) ⟨pk2, ⟨b.pk.sbuf.bytes.length, m⟩ :: b.cursors⟩) := by
        simp [buildRun, buildRun_append, hrun]
      -- Closing writes the count into the header's length bytes only.
      obtain ⟨hb3, hc3, hr3, hf3⟩ := close_after_body (α := α) k (hb2.trans (by rw [hb1])) hr2
      obtain ⟨out', hb4, he', hc4, hr4, hf4⟩ := ih _ hr3 (hc3 ▸ hc)
      rw [hsplit]
      refine ⟨k.wide :: storeBE 4 m ++ out ++ out', by simp [hb4, hb3],
        ⟨_, _, rfl, k.encodes_assemble he hl (Nat.lt_trans hm (by decide)), he'⟩,
        hc4.trans (by rw [hc3]), hr4, ?_⟩
      simp only [ClosesFramed]
      exact ⟨trivial, (closesFramed_append _ _ _).mpr ⟨hf2, by rw [hrun]; exact ⟨hf3, hf4⟩⟩⟩

/-- Building after any buffer content `B`: `B` stays, the bytes after it unpack to the run's
objects one after another with nothing left over, and each close changes only the four length
bytes after its own header byte. -/
theorem buildRun_writes_objects {ss : List (BuildStep α)} {os : List (Obj Unit)}
    (h : Builds none ss 0 os) (b : Builder) (hr : b.pk.Reliable) :
    ∃ out, (buildRun ss b).pk.sbuf.bytes = b.pk.sbuf.bytes ++ out ∧
      readMany unpack os.length out = some (os, []) ∧ ClosesFramed ss b := by
  obtain ⟨out, hb, he, -, -, hf⟩ := builds_run h b hr (by simp)
  exact ⟨out, hb, by simpa using readMany_unpack he [], hf⟩

/-- The usage example in the comment above `mp_header_type_init`: a map of `"cool"` to true
and `"slow"` to false. -/
def usageExample : List (BuildStep Unit) :=
  [.init .map,
    .append .map, .pack (.scalar () (.str [0x63, 0x6f, 0x6f, 0x6c])),
      .pack (.scalar () (.boolean true)),
    .append .map, .pack (.scalar () (.str [0x73, 0x6c, 0x6f, 0x77])),
      .pack (.scalar () (.boolean false)),
    .close .map]

/-- The record the usage example builds. -/
def usageRecord : Obj Unit :=
  .map () [(.scalar () (.str [0x63, 0x6f, 0x6f, 0x6c]), .scalar () (.boolean true)),
    (.scalar () (.str [0x73, 0x6c, 0x6f, 0x77]), .scalar () (.boolean false))]

theorem buildRun_writes_usageExample :
    Builds none usageExample 0 [usageRecord] ∧
      (⟨msgpackSbufferInit, fun _ => some 0, 0⟩ : Packer).Reliable ∧
      ∃ out, (buildRun usageExample ⟨⟨msgpackSbufferInit, fun _ => some 0, 0⟩, []⟩).pk.sbuf.bytes =
          [] ++ out ∧ readMany unpack 1 out = some ([usageRecord], []) ∧
        ClosesFramed usageExample ⟨⟨msgpackSbufferInit, fun _ => some 0, 0⟩, []⟩ := by
  have hs : ∀ s : List UInt8, s.length = 4 → (Obj.scalar () (.str s)).WF := by
    intro s hs; simp [Obj.WF, Scalar.WF, hs]
  have hb : Builds none usageExample 0 [usageRecord] :=
    @Builds.container Unit none .map usageExample.tail.dropLast 2 _ [] 0 []
      (.append (.pack (hs _ rfl) (.pack trivial (.append (.pack (hs _ rfl) (.pack trivial .nil))))))
      rfl (by decide) .nil
  exact ⟨hb, fun _ => rfl, buildRun_writes_objects hb _ fun _ => rfl⟩

end FluentBit.Mp
