import FluentBit.Msgpack.Object

/-!
The record accessor patterns the key-removal engine is built from. Their compiler
`flb_ra_create` and their lookup `flb_ra_get_kv_pair` are not part of these sources, so both are
modelled from the spec: a pattern is a top-level key and a path of key and index segments below
it, and each segment matches only at its own depth.
-/

namespace FluentBit.Ra

open Msgpack

/-- Modelled from the spec: a segment of a pattern below its top-level key. -/
inductive RaSegment where
  | key (name : List UInt8)
  | index (i : Nat)
  deriving DecidableEq, Repr

/-- Modelled from the spec: a compiled pattern such as `$a['b'][0]`. -/
structure RaPattern where
  top : List UInt8
  subkeys : List RaSegment
  deriving DecidableEq, Repr, Inhabited

/-- Modelled from the spec: the object is the string `name`. -/
def keyIs (name : List UInt8) : Obj Nat → Bool
  | .scalar _ (.str s) => s == name
  | _ => false

/-- Modelled from the spec: the first entry whose key is the string `name`. -/
def findKey (name : List UInt8) (kvs : List (Obj Nat × Obj Nat)) : Option (Obj Nat × Obj Nat) :=
  kvs.find? fun kv => keyIs name kv.1

/-- Modelled from the spec: the innermost key that `segs` reach below an entry with key at
`key` and value `val`; an index segment names the element itself. -/
def locate : List RaSegment → Nat → Obj Nat → Option Nat
  | [], key, _ => some key
  | .key name :: segs, _, .map _ kvs => (findKey name kvs).bind fun kv => locate segs kv.1.ann kv.2
  | .index i :: segs, _, .array _ xs => xs[i]?.bind fun x => locate segs x.ann x
  | _ :: _, _, _ => none

/-- Modelled from the spec: `flb_ra_get_kv_pair`, the start key and the innermost key that a
pattern locates in a record's entries. -/
def flbRaGetKvPair (ra : RaPattern) (kvs : List (Obj Nat × Obj Nat)) : Option (Nat × Nat) :=
  (findKey ra.top kvs).bind fun kv => (locate ra.subkeys kv.1.ann kv.2).map fun key => (kv.1.ann, key)

end FluentBit.Ra
