import FluentBit.Msgpack.Unpack

/-!
Encodings and the round trip. `Encodes o bs` holds when `bs` is a msgpack encoding of `o` in
any formats wide enough for its lengths: a header that `readTag` reads as `o`'s, then its
entries. Every encoding unpacks to its object, whatever follows it, and `msgpack_pack_object`
writes one.
-/

namespace FluentBit.Msgpack

namespace Obj

variable {α : Type}

mutual
/-- Levels of nesting; a scalar is one level. -/
def depth : Obj α → Nat
  | .scalar .. => 1
  | .array _ xs => depthList xs + 1
  | .map _ kvs => depthKvs kvs + 1
def depthList : List (Obj α) → Nat
  | [] => 0
  | x :: xs => max x.depth (depthList xs)
def depthKvs : List (Obj α × Obj α) → Nat
  | [] => 0
  | (k, v) :: kvs => max (max k.depth v.depth) (depthKvs kvs)
end

theorem depth_pos (o : Obj α) : 0 < o.depth := by
  cases o <;> simp [depth]

end Obj

open Obj

mutual
/-- `bs` is a msgpack encoding of `o`. -/
def Encodes : Obj Unit → List UInt8 → Prop
  | .scalar _ s, bs => Heads bs (.scalar s)
  | .array _ xs, bs =>
      ∃ h body, bs = h ++ body ∧ Heads h (.array xs.length) ∧ EncodesList xs body
  | .map _ kvs, bs =>
      ∃ h body, bs = h ++ body ∧ Heads h (.map kvs.length) ∧ EncodesKvs kvs body
def EncodesList : List (Obj Unit) → List UInt8 → Prop
  | [], bs => bs = []
  | x :: xs, bs => ∃ b r, bs = b ++ r ∧ Encodes x b ∧ EncodesList xs r
def EncodesKvs : List (Obj Unit × Obj Unit) → List UInt8 → Prop
  | [], bs => bs = []
  | (k, v) :: kvs, bs =>
      ∃ bk bv r, bs = bk ++ bv ++ r ∧ Encodes k bk ∧ Encodes v bv ∧ EncodesKvs kvs r
end

mutual
theorem depth_le_of_encodes : (o : Obj Unit) → ∀ {bs : List UInt8}, Encodes o bs →
    o.depth ≤ bs.length
  | .scalar _ _, _, h => h.length_pos
  | .array _ xs, _, ⟨_, _, rfl, hh, hl⟩ => by
      have := hh.length_pos
      have := depthList_le_of_encodes xs hl
      simp only [depth, List.length_append]; omega
  | .map _ kvs, _, ⟨_, _, rfl, hh, hl⟩ => by
      have := hh.length_pos
      have := depthKvs_le_of_encodes kvs hl
      simp only [depth, List.length_append]; omega
theorem depthList_le_of_encodes : (xs : List (Obj Unit)) → ∀ {bs : List UInt8},
    EncodesList xs bs → depthList xs ≤ bs.length
  | [], _, _ => Nat.zero_le _
  | x :: xs, _, ⟨_, _, rfl, hx, hr⟩ => by
      have := depth_le_of_encodes x hx
      have := depthList_le_of_encodes xs hr
      simp only [depthList, List.length_append]; omega
theorem depthKvs_le_of_encodes : (kvs : List (Obj Unit × Obj Unit)) → ∀ {bs : List UInt8},
    EncodesKvs kvs bs → depthKvs kvs ≤ bs.length
  | [], _, _ => Nat.zero_le _
  | (k, v) :: kvs, _, ⟨_, _, _, rfl, hk, hv, hr⟩ => by
      have := depth_le_of_encodes k hk
      have := depth_le_of_encodes v hv
      have := depthKvs_le_of_encodes kvs hr
      simp only [depthKvs, List.length_append]; omega
end

mutual
theorem unpackObject_encodes : (o : Obj Unit) → ∀ {bs : List UInt8} {fuel : Nat}
    (rest : List UInt8), Encodes o bs → o.depth ≤ fuel →
    unpackObject fuel (bs ++ rest) = some (o, rest)
  | .scalar () s, bs, fuel + 1, rest, h, _ => by simp only [unpackObject, h rest]
  | .array () xs, _, fuel + 1, rest, ⟨h, body, rfl, hh, hl⟩, hd => by
      have hxs := @readMany_encodesList xs _ fuel rest hl
        (by simp only [depth] at hd; omega)
      simp only [unpackObject, List.append_assoc, hh (body ++ rest), hxs, Option.map_some']
  | .map () kvs, _, fuel + 1, rest, ⟨h, body, rfl, hh, hl⟩, hd => by
      have hkvs := @readMany_encodesKvs kvs _ fuel rest hl
        (by simp only [depth] at hd; omega)
      simp only [unpackObject, List.append_assoc, hh (body ++ rest), hkvs, Option.map_some']
theorem readMany_encodesList : (xs : List (Obj Unit)) → ∀ {bs : List UInt8} {fuel : Nat}
    (rest : List UInt8), EncodesList xs bs → depthList xs ≤ fuel →
    readMany (unpackObject fuel) xs.length (bs ++ rest) = some (xs, rest)
  | [], _, _, rest, rfl, _ => rfl
  | x :: xs, _, _, rest, ⟨b, r, rfl, hx, hr⟩, hd => by
      simp only [depthList, Nat.max_le] at hd
      simp [readMany, unpackObject_encodes x (r ++ rest) hx hd.1,
        readMany_encodesList xs rest hr hd.2]
theorem readMany_encodesKvs : (kvs : List (Obj Unit × Obj Unit)) → ∀ {bs : List UInt8}
    {fuel : Nat} (rest : List UInt8), EncodesKvs kvs bs → depthKvs kvs ≤ fuel →
    readMany (readPair (unpackObject fuel)) kvs.length (bs ++ rest) = some (kvs, rest)
  | [], _, _, rest, rfl, _ => rfl
  | (k, v) :: kvs, _, _, rest, ⟨bk, bv, r, rfl, hk, hv, hr⟩, hd => by
      simp only [depthKvs, Nat.max_le] at hd
      simp [readMany, readPair, unpackObject_encodes k (bv ++ (r ++ rest)) hk hd.1.1,
        unpackObject_encodes v (r ++ rest) hv hd.1.2, readMany_encodesKvs kvs rest hr hd.2]
end

theorem unpack_encodes {o : Obj Unit} {bs : List UInt8} (h : Encodes o bs)
    (rest : List UInt8) : unpack (bs ++ rest) = some (o, rest) :=
  unpackObject_encodes o rest h (by have := depth_le_of_encodes o h; simp; omega)

theorem encodesList_singleton {o : Obj Unit} {bs : List UInt8} :
    EncodesList [o] bs ↔ Encodes o bs :=
  ⟨fun ⟨_, _, h, ho, hr⟩ => by rw [h, hr, List.append_nil]; exact ho,
    fun ho => ⟨bs, [], by simp, ho, rfl⟩⟩

theorem encodesKvs_append : ∀ {kvs kvs' : List (Obj Unit × Obj Unit)} {bs bs' : List UInt8},
    EncodesKvs kvs bs → EncodesKvs kvs' bs' → EncodesKvs (kvs ++ kvs') (bs ++ bs')
  | [], _, _, _, rfl, h => h
  | (_, _) :: _, _, _, _, ⟨bk, bv, r, rfl, hk, hv, hr⟩, h =>
      ⟨bk, bv, r ++ _, by simp, hk, hv, encodesKvs_append hr h⟩

theorem readMany_unpack : ∀ {os : List (Obj Unit)} {bs : List UInt8}, EncodesList os bs →
    ∀ rest, readMany unpack os.length (bs ++ rest) = some (os, rest)
  | [], _, rfl, _ => rfl
  | _ :: _, _, ⟨_, r, rfl, ho, hr⟩, rest => by
      simp [readMany, unpack_encodes ho (r ++ rest), readMany_unpack hr rest]

variable {α : Type}

mutual
theorem encodes_packed : (o : Obj α) → o.WF → Encodes o.erase o.packed
  | .scalar _ _, h => heads_chunks h
  | .array _ xs, ⟨hn, hl⟩ => ⟨_, _, rfl, by simpa using heads_packArray hn,
      encodesList_chunks xs hl⟩
  | .map _ kvs, ⟨hn, hl⟩ => ⟨_, _, rfl, by simpa using heads_packMap hn,
      encodesKvs_chunks kvs hl⟩
theorem encodesList_chunks : (xs : List (Obj α)) → WFList xs →
    EncodesList (eraseList xs) (chunksList xs).flatten
  | [], _ => rfl
  | x :: xs, ⟨hx, hl⟩ => ⟨_, _, by simp [chunksList, packed], encodes_packed x hx,
      encodesList_chunks xs hl⟩
theorem encodesKvs_chunks : (kvs : List (Obj α × Obj α)) → WFKvs kvs →
    EncodesKvs (eraseKvs kvs) (chunksKvs kvs).flatten
  | [], _ => rfl
  | (k, v) :: kvs, ⟨hk, hv, hl⟩ => ⟨_, _, _, by simp [chunksKvs, packed], encodes_packed k hk,
      encodes_packed v hv, encodesKvs_chunks kvs hl⟩
end

/-- What `msgpack_pack_object` writes unpacks to the object's value, and what follows it is left
as it was. -/
theorem unpack_packed (o : Obj α) (h : o.WF) (rest : List UInt8) :
    unpack (o.packed ++ rest) = some (o.erase, rest) :=
  unpack_encodes (encodes_packed o h) rest

theorem unpack_packed_single :
    (Obj.map 1 [(.scalar 2 (.str [0x61]), .scalar 3 (.positiveInteger 1))]).WF ∧
      unpack ((Obj.map 1 [(.scalar 2 (.str [0x61]), .scalar 3 (.positiveInteger 1))]).packed ++
        [0xc0]) = some (.map () [(.scalar () (.str [0x61]), .scalar () (.positiveInteger 1))], [0xc0]) :=
  have h : (Obj.map 1 [(.scalar 2 (.str [0x61]), .scalar 3 (.positiveInteger 1))]).WF := by
    simp [Obj.WF, Obj.WFKvs, Scalar.WF]
  ⟨h, unpack_packed _ h [0xc0]⟩

end FluentBit.Msgpack
