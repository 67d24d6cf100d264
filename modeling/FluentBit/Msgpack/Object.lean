import Mathlib

/-!
The `msgpack_object` model of msgpack-c as `flb_mp.c` reads it: a scalar, an array of
objects or a map of key/value pairs. Every object carries an annotation. A record unpacked
in memory annotates each object with its address (`Obj Nat`, address `0` is `NULL`); a value
decoded from bytes carries none (`Obj Unit`).
-/

namespace FluentBit.Msgpack

/-- The scalar kinds of `msgpack_object_type` with their payloads. Floating-point payloads
are the IEEE bit patterns that the packer stores. -/
inductive Scalar where
  | nil
  | boolean (b : Bool)
  | positiveInteger (u64 : Nat)
  | negativeInteger (i64 : Int)
  | float32 (bits : Nat)
  | float64 (bits : Nat)
  | str (body : List UInt8)
  | bin (body : List UInt8)
  | ext (extType : Int) (body : List UInt8)
  deriving DecidableEq, Repr

/-- The ranges of the C fields: `uint64_t`, a negative `int64_t`, `int8_t` extension types
and `uint32_t` lengths. -/
def Scalar.WF : Scalar → Prop
  | .positiveInteger n => n < 2 ^ 64
  | .negativeInteger i => -2 ^ 63 ≤ i ∧ i < 0
  | .float32 b => b < 2 ^ 32
  | .float64 b => b < 2 ^ 64
  | .str s | .bin s => s.length < 2 ^ 32
  | .ext t d => -128 ≤ t ∧ t < 128 ∧ d.length < 2 ^ 32
  | .nil | .boolean _ => True

inductive Obj (α : Type) where
  | scalar (a : α) (s : Scalar)
  | array (a : α) (xs : List (Obj α))
  | map (a : α) (kvs : List (Obj α × Obj α))

namespace Obj

variable {α : Type}

/-- The annotation of the outermost object: its address for a record in memory. -/
def ann : Obj α → α
  | .scalar a _ | .array a _ | .map a _ => a

mutual
def decEq [DecidableEq α] : (o p : Obj α) → Decidable (o = p)
  | .scalar a s, .scalar b t =>
      if h : a = b ∧ s = t then isTrue (by rw [h.1, h.2])
      else isFalse fun e => by cases e; exact h ⟨rfl, rfl⟩
  | .array a xs, .array b ys =>
      match decEqList xs ys with
      | isTrue hx => if h : a = b then isTrue (by rw [h, hx])
          else isFalse fun e => by cases e; exact h rfl
      | isFalse hx => isFalse fun e => by cases e; exact hx rfl
  | .map a kvs, .map b lvs =>
      match decEqKvs kvs lvs with
      | isTrue hx => if h : a = b then isTrue (by rw [h, hx])
          else isFalse fun e => by cases e; exact h rfl
      | isFalse hx => isFalse fun e => by cases e; exact hx rfl
  | .scalar .., .array .. | .scalar .., .map .. | .array .., .scalar ..
  | .array .., .map .. | .map .., .scalar .. | .map .., .array .. => isFalse nofun
def decEqList [DecidableEq α] : (xs ys : List (Obj α)) → Decidable (xs = ys)
  | [], [] => isTrue rfl
  | x :: xs, y :: ys =>
      match decEq x y, decEqList xs ys with
      | isTrue h, isTrue hs => isTrue (by rw [h, hs])
      | isFalse h, _ => isFalse fun e => h (List.cons.inj e).1
      | _, isFalse hs => isFalse fun e => hs (List.cons.inj e).2
  | [], _ :: _ | _ :: _, [] => isFalse nofun
def decEqKvs [DecidableEq α] : (xs ys : List (Obj α × Obj α)) → Decidable (xs = ys)
  | [], [] => isTrue rfl
  | (k, v) :: xs, (k', v') :: ys =>
      match decEq k k', decEq v v', decEqKvs xs ys with
      | isTrue hk, isTrue hv, isTrue hs => isTrue (by rw [hk, hv, hs])
      | isFalse hk, _, _ => isFalse fun e => hk (Prod.mk.inj (List.cons.inj e).1).1
      | _, isFalse hv, _ => isFalse fun e => hv (Prod.mk.inj (List.cons.inj e).1).2
      | _, _, isFalse hs => isFalse fun e => hs (List.cons.inj e).2
  | [], _ :: _ | _ :: _, [] => isFalse nofun
end

instance [DecidableEq α] : DecidableEq (Obj α) := decEq

instance [Inhabited α] : Inhabited (Obj α) := ⟨.scalar default .nil⟩

mutual
/-- The value of an object with its annotations dropped. -/
def erase : Obj α → Obj Unit
  | .scalar _ s => .scalar () s
  | .array _ xs => .array () (eraseList xs)
  | .map _ kvs => .map () (eraseKvs kvs)
def eraseList : List (Obj α) → List (Obj Unit)
  | [] => []
  | x :: xs => x.erase :: eraseList xs
def eraseKvs : List (Obj α × Obj α) → List (Obj Unit × Obj Unit)
  | [] => []
  | (k, v) :: kvs => (k.erase, v.erase) :: eraseKvs kvs
end

mutual
/-- The `uint32_t` bounds of every length in the object. -/
def WF : Obj α → Prop
  | .scalar _ s => s.WF
  | .array _ xs => xs.length < 2 ^ 32 ∧ WFList xs
  | .map _ kvs => kvs.length < 2 ^ 32 ∧ WFKvs kvs
def WFList : List (Obj α) → Prop
  | [] => True
  | x :: xs => x.WF ∧ WFList xs
def WFKvs : List (Obj α × Obj α) → Prop
  | [] => True
  | (k, v) :: kvs => k.WF ∧ v.WF ∧ WFKvs kvs
end

@[simp] theorem eraseList_length (xs : List (Obj α)) : (eraseList xs).length = xs.length := by
  induction xs <;> simp_all [eraseList]

@[simp] theorem eraseKvs_length (kvs : List (Obj α × Obj α)) :
    (eraseKvs kvs).length = kvs.length := by
  induction kvs with
  | nil => rfl
  | cons kv kvs ih => simp [eraseKvs, ih]

end Obj

end FluentBit.Msgpack
