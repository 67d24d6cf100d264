import FluentBit.Mp.Header

/-!
The key-removal engine of `flb_mp.c`. An accessor holds the record accessors compiled from its
patterns and a table of match slots, one per pattern, allocated once by
`flb_mp_accessor_create`. `flb_mp_accessor_keys_remove` writes the slot of every pattern that
locates an entry of the record, then rewrites the record: an entry whose key is the start key of
a set slot is repacked by `accessor_sub_pack`, which leaves out the entries whose key or value the
slot names. Pointers are the addresses that annotate the record's objects, and `none` is `NULL`.
-/

namespace FluentBit.Mp

open Msgpack

/-- `struct flb_mp_accessor_match`, with the fields the engine reads back. -/
structure FlbMpAccessorMatch where
  matched : Bool
  startKey : Option Nat
  key : Option Nat
  deriving DecidableEq, Repr

/-- A slot as `flb_calloc` leaves it. -/
def FlbMpAccessorMatch.zero : FlbMpAccessorMatch := ⟨false, none, none⟩

/-- `struct flb_mp_accessor`: the record accessors in pattern order, and their match slots
(the field `matches`). -/
structure FlbMpAccessor (Ra : Type) where
  raList : List Ra
  matchTable : List FlbMpAccessorMatch
  matchTable_length : matchTable.length = raList.length

variable {Ra σ : Type}

/-- `flb_mp_accessor_create`: a record accessor per pattern, compiled by `flbRaCreate`, and a
zeroed match table; `none` when a pattern does not compile. -/
def flbMpAccessorCreate (flbRaCreate : σ → Option Ra) (patterns : List σ) :
    Option (FlbMpAccessor Ra) :=
  (patterns.mapM flbRaCreate).map fun ras =>
    ⟨ras, List.replicate ras.length .zero, List.length_replicate _ _⟩

/-- `accessor_key_find_match`: the first set slot whose start key is `key`, or `-1`. -/
def accessorKeyFindMatch (mpa : FlbMpAccessor Ra) (key : Nat) : Int :=
  match mpa.matchTable.findIdx? (fun m => m.matched && m.startKey == some key) with
  | some i => i
  | none => -1

/-- `if (key) msgpack_pack_object(mp_pck, *key);` in `accessor_sub_pack`. -/
def packKey : Option (Obj Nat) → PackM Unit
  | some k => do let _ ← msgpackPackObject k
  | none => pure ()

mutual
/-- `accessor_sub_pack`: `false`, writing nothing, when the slot names the entry's key or value;
otherwise the key, if there is one, then the value with its maps and arrays rebuilt from the
entries the slot does not name. -/
def accessorSubPack (m : FlbMpAccessorMatch) (key : Option (Obj Nat)) (val : Obj Nat) :
    PackM Bool :=
  if m.key == key.map Obj.ann || m.key == some val.ann then pure false else do
    packKey key
    match val with
    | .map _ kvs =>
        let mh := (← flbMpMapHeaderInit).1
        let mh ← subPackKvs m kvs mh
        flbMpMapHeaderEnd mh
        pure true
    | .array _ xs =>
        let mh := (← flbMpArrayHeaderInit).1
        let mh ← subPackList m xs mh
        flbMpArrayHeaderEnd mh
        pure true
    | .scalar .. =>
        let _ ← msgpackPackObject val
        pure true
/-- The loop of `accessor_sub_pack` over a map's entries. -/
def subPackKvs (m : FlbMpAccessorMatch) :
    List (Obj Nat × Obj Nat) → FlbMpMapHeader → PackM FlbMpMapHeader
  | [], mh => pure mh
  | (k, v) :: kvs, mh => do
      let ret ← accessorSubPack m (some k) v
      subPackKvs m kvs (if ret then (flbMpMapHeaderAppend mh).1 else mh)
/-- The loop of `accessor_sub_pack` over an array's elements, which have no key. -/
def subPackList (m : FlbMpAccessorMatch) :
    List (Obj Nat) → FlbMpMapHeader → PackM FlbMpMapHeader
  | [], mh => pure mh
  | x :: xs, mh => do
      let ret ← accessorSubPack m none x
      subPackList m xs (if ret then (flbMpArrayHeaderAppend mh).1 else mh)
end

/-- The second loop of `flb_mp_accessor_keys_remove`: an entry no slot starts at is copied, the
others go through `accessor_sub_pack` with the slot found. -/
def keysRemoveLoop (mpa : FlbMpAccessor Ra) :
    List (Obj Nat × Obj Nat) → FlbMpMapHeader → PackM FlbMpMapHeader
  | [], mh => pure mh
  | (k, v) :: kvs, mh => do
      let ret := accessorKeyFindMatch mpa k.ann
      if ret = -1 then
        let mh := (flbMpMapHeaderAppend mh).1
        let _ ← msgpackPackObject k
        let _ ← msgpackPackObject v
        keysRemoveLoop mpa kvs mh
      else
        let ret ← accessorSubPack (mpa.matchTable.getD ret.toNat .zero) (some k) v
        keysRemoveLoop mpa kvs (if ret then (flbMpMapHeaderAppend mh).1 else mh)

/-- What `flb_mp_accessor_keys_remove` returns and leaves: its return value, the accessor with
its match table, the buffer handed back through `out_buf` and `out_size`, if any, and the
allocator's clock. -/
structure KeysRemoveResult (Ra : Type) where
  ret : Int
  mpa : FlbMpAccessor Ra
  out : Option Sbuffer
  tick : Nat

section KeysRemove

/- `flb_ra_get_kv_pair` is not part of this file: it gives the start key and the innermost key
that a record accessor locates in a record's entries, if any. -/
variable (flbRaGetKvPair : Ra → List (Obj Nat × Obj Nat) → Option (Nat × Nat))

/-- The slot of record accessor `ra` after the first loop of `flb_mp_accessor_keys_remove`:
written when `flb_ra_get_kv_pair` locates an entry, kept as it was otherwise. -/
def registerMatch (kvs : List (Obj Nat × Obj Nat)) (ra : Ra) (m : FlbMpAccessorMatch) :
    FlbMpAccessorMatch :=
  match flbRaGetKvPair ra kvs with
  | some (s, k) => ⟨true, some s, some k⟩
  | none => m

/-- The first loop of `flb_mp_accessor_keys_remove`, over the rules and their slots. -/
def registerMatches (kvs : List (Obj Nat × Obj Nat)) (mpa : FlbMpAccessor Ra) :
    FlbMpAccessor Ra :=
  ⟨mpa.raList, List.zipWith (registerMatch flbRaGetKvPair kvs) mpa.raList mpa.matchTable,
    by simp [mpa.matchTable_length]⟩

/-- `flb_mp_accessor_keys_remove` on the record with entries `kvs`, its allocator answering
growth attempt `t` with `realloc t` from clock `tick` on. `FLB_TRUE` is `1` and `FLB_FALSE` is
`0`. -/
def flbMpAccessorKeysRemove (mpa : FlbMpAccessor Ra) (kvs : List (Obj Nat × Obj Nat))
    (realloc : Nat → Option Nat) (tick : Nat) : KeysRemoveResult Ra :=
  if kvs.length = 0 then ⟨0, mpa, none, tick⟩ else
  let mpa := registerMatches flbRaGetKvPair kvs mpa
  if mpa.raList.countP (fun ra => (flbRaGetKvPair ra kvs).isSome) = 0 then ⟨0, mpa, none, tick⟩
  else
    let run : PackM Unit := do
      let mh := (← flbMpMapHeaderInit).1
      let mh ← keysRemoveLoop mpa kvs mh
      flbMpMapHeaderEnd mh
    let pk := (run ⟨msgpackSbufferInit, realloc, tick⟩).2
    ⟨1, mpa, some pk.sbuf, pk.tick⟩

end KeysRemove

end FluentBit.Mp
