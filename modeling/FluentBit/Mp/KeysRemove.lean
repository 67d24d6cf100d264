import FluentBit.Mp.Accessor
import FluentBit.Ra.Pattern

/-!
What the key-removal engine writes. `pruneObj` is the value `accessor_sub_pack` rebuilds under
one match slot and `keysRemoveKvs` the entries of the record `flb_mp_accessor_keys_remove`
rebuilds. Under an allocator that never refuses, the buffer handed back is an encoding of that
record whatever the slots hold, and the record trims the input: entries are deleted, and nothing
else changes. Two runs close the module: patterns that share an anchor, of which only the first
has its entry removed, and a refused first write, which loses the map header.
-/

namespace FluentBit.Mp

open Msgpack

mutual
/-- The value `accessor_sub_pack` writes under a slot whose key pointer is `mk`: its maps and
arrays without the entries whose key or value, and the elements, that sit at `mk`. An element
has no key, so a slot whose key is `NULL` names every element. -/
def pruneObj (mk : Option Nat) : Obj Nat → Obj Unit
  | .scalar _ s => .scalar () s
  | .array _ xs => .array () (pruneList mk xs)
  | .map _ kvs => .map () (pruneKvs mk kvs)
def pruneList (mk : Option Nat) : List (Obj Nat) → List (Obj Unit)
  | [] => []
  | x :: xs =>
      if mk == none || mk == some x.ann then pruneList mk xs else pruneObj mk x :: pruneList mk xs
def pruneKvs (mk : Option Nat) : List (Obj Nat × Obj Nat) → List (Obj Unit × Obj Unit)
  | [] => []
  | (k, v) :: kvs =>
      if mk == some k.ann || mk == some v.ann then pruneKvs mk kvs
      else (k.erase, pruneObj mk v) :: pruneKvs mk kvs
end

mutual
/-- `o'` is `o` with entries deleted from its maps and arrays at any depth: the entries left
keep their order and their keys, and their values trim the original ones. -/
def Trims : Obj Unit → Obj Unit → Prop
  | .scalar _ s, o' => o' = .scalar () s
  | .array _ xs, .array _ ys => TrimsList xs ys
  | .map _ kvs, .map _ kvs' => TrimsKvs kvs kvs'
  | _, _ => False
def TrimsList : List (Obj Unit) → List (Obj Unit) → Prop
  | _, [] => True
  | [], _ :: _ => False
  | x :: xs, y :: ys => (Trims x y ∧ TrimsList xs ys) ∨ TrimsList xs (y :: ys)
def TrimsKvs : List (Obj Unit × Obj Unit) → List (Obj Unit × Obj Unit) → Prop
  | _, [] => True
  | [], _ :: _ => False
  | (k, v) :: kvs, (k', v') :: kvs' =>
      (k' = k ∧ Trims v v' ∧ TrimsKvs kvs kvs') ∨ TrimsKvs kvs ((k', v') :: kvs')
end

theorem trimsList_cons_left {x : Obj Unit} {xs ys : List (Obj Unit)} (h : TrimsList xs ys) :
    TrimsList (x :: xs) ys := by
  cases ys with
  | nil => trivial
  | cons => exact .inr h

theorem trimsKvs_cons_left {kv : Obj Unit × Obj Unit} {kvs kvs' : List (Obj Unit × Obj Unit)}
    (h : TrimsKvs kvs kvs') : TrimsKvs (kv :: kvs) kvs' := by
  cases kvs' with
  | nil => trivial
  | cons => exact .inr h

mutual
theorem trims_refl : (o : Obj Unit) → Trims o o
  | .scalar () _ => rfl
  | .array _ xs => trimsList_refl xs
  | .map _ kvs => trimsKvs_refl kvs
theorem trimsList_refl : (xs : List (Obj Unit)) → TrimsList xs xs
  | [] => trivial
  | x :: xs => .inl ⟨trims_refl x, trimsList_refl xs⟩
theorem trimsKvs_refl : (kvs : List (Obj Unit × Obj Unit)) → TrimsKvs kvs kvs
  | [] => trivial
  | (_, v) :: kvs => .inl ⟨rfl, trims_refl v, trimsKvs_refl kvs⟩
end

mutual
theorem trims_pruneObj (mk : Option Nat) : (o : Obj Nat) → Trims o.erase (pruneObj mk o)
  | .scalar _ _ => rfl
  | .array _ xs => trimsList_pruneList mk xs
  | .map _ kvs => trimsKvs_pruneKvs mk kvs
theorem trimsList_pruneList (mk : Option Nat) :
    (xs : List (Obj Nat)) → TrimsList (Obj.eraseList xs) (pruneList mk xs)
  | [] => trivial
  | x :: xs => by
      simp only [Obj.eraseList, pruneList]
      split
      · exact trimsList_cons_left (trimsList_pruneList mk xs)
      · exact .inl ⟨trims_pruneObj mk x, trimsList_pruneList mk xs⟩
theorem trimsKvs_pruneKvs (mk : Option Nat) :
    (kvs : List (Obj Nat × Obj Nat)) → TrimsKvs (Obj.eraseKvs kvs) (pruneKvs mk kvs)
  | [] => trivial
  | (k, v) :: kvs => by
      simp only [Obj.eraseKvs, pruneKvs]
      split
      · exact trimsKvs_cons_left (trimsKvs_pruneKvs mk kvs)
      · exact .inl ⟨rfl, trims_pruneObj mk v, trimsKvs_pruneKvs mk kvs⟩
end

theorem pruneList_length_le (mk : Option Nat) :
    (xs : List (Obj Nat)) → (pruneList mk xs).length ≤ xs.length
  | [] => le_rfl
  | x :: xs => by
      have := pruneList_length_le mk xs
      simp only [pruneList]; split <;> simp <;> omega

theorem pruneKvs_length_le (mk : Option Nat) :
    (kvs : List (Obj Nat × Obj Nat)) → (pruneKvs mk kvs).length ≤ kvs.length
  | [] => le_rfl
  | (k, v) :: kvs => by
      have := pruneKvs_length_le mk kvs
      simp only [pruneKvs]; split <;> simp <;> omega

section Reliable

variable (m : FlbMpAccessorMatch)

theorem packKey_reliable {p : Packer} (key : Option (Obj Nat)) (hr : p.Reliable) :
    (packKey key p).2.sbuf.bytes = p.sbuf.bytes ++ (key.map Obj.packed).getD [] ∧
      (packKey key p).2.Reliable := by
  cases key with
  | none => exact ⟨by simp [packKey, pure, StateT.pure], hr⟩
  | some k => exact msgpackPackObject_reliable k hr

theorem accessorSubPack_drop (key : Option (Obj Nat)) (val : Obj Nat)
    (h : (m.key == key.map Obj.ann || m.key == some val.ann) = true) (p : Packer) :
    accessorSubPack m key val p = (false, p) := by
  cases val <;> (rw [accessorSubPack, if_pos h]; rfl)

mutual
theorem accessorSubPack_keep : (val : Obj Nat) → val.WF → ∀ (key : Option (Obj Nat)) {p : Packer},
    (∀ k ∈ key, k.WF) → p.Reliable →
    (m.key == key.map Obj.ann || m.key == some val.ann) = false →
    (accessorSubPack m key val p).1 = true ∧ (accessorSubPack m key val p).2.Reliable ∧
      ∃ out, (accessorSubPack m key val p).2.sbuf.bytes =
        p.sbuf.bytes ++ (key.map Obj.packed).getD [] ++ out ∧ Encodes (pruneObj m.key val) out
  | .scalar a s, hwf, key, p, _, hr, hkeep => by
      obtain ⟨hb1, hr1⟩ := packKey_reliable key hr
      obtain ⟨hb2, hr2⟩ := msgpackPackObject_reliable (.scalar a s) hr1
      have heq : accessorSubPack m key (.scalar a s) p =
          (true, (msgpackPackObject (.scalar a s) (packKey key p).2).2) := by
        rw [accessorSubPack, if_neg (by simp [hkeep])]; rfl
      rw [heq]
      exact ⟨rfl, hr2, _, by rw [hb2, hb1], encodes_packed _ hwf⟩
  | .map a kvs, ⟨hn, hwf⟩, key, p, _, hr, hkeep => by
      obtain ⟨hb1, hr1⟩ := packKey_reliable key hr
      obtain ⟨hr2, out, hb2, he⟩ := Kind.map.rebuild_reliable (subPackKvs m kvs) hr1
        (fun q hq mh => subPackKvs_reliable kvs hwf mh hq)
      have heq : accessorSubPack m key (.map a kvs) p =
          (true, (Kind.map.rebuild (subPackKvs m kvs) (packKey key p).2).2) := by
        rw [accessorSubPack, if_neg (by simp [hkeep])]; rfl
      rw [heq]
      exact ⟨rfl, hr2, _, by rw [hb2, hb1]; simp [Kind.wide], _, _, rfl,
        heads_map32 (Nat.lt_of_le_of_lt (pruneKvs_length_le _ kvs) hn), he⟩
  | .array a xs, ⟨hn, hwf⟩, key, p, _, hr, hkeep => by
      obtain ⟨hb1, hr1⟩ := packKey_reliable key hr
      obtain ⟨hr2, out, hb2, he⟩ := Kind.array.rebuild_reliable (subPackList m xs) hr1
        (fun q hq mh => subPackList_reliable xs hwf mh hq)
      have heq : accessorSubPack m key (.array a xs) p =
          (true, (Kind.array.rebuild (subPackList m xs) (packKey key p).2).2) := by
        rw [accessorSubPack, if_neg (by simp [hkeep])]; rfl
      rw [heq]
      exact ⟨rfl, hr2, _, by rw [hb2, hb1]; simp [Kind.wide], _, _, rfl,
        heads_array32 (Nat.lt_of_le_of_lt (pruneList_length_le _ xs) hn), he⟩
theorem subPackKvs_reliable : (kvs : List (Obj Nat × Obj Nat)) → Obj.WFKvs kvs →
    ∀ {p : Packer} (mh : FlbMpMapHeader), p.Reliable →
    (subPackKvs m kvs mh p).1 = ⟨mh.offset, mh.entries + (pruneKvs m.key kvs).length⟩ ∧
      (subPackKvs m kvs mh p).2.Reliable ∧ ∃ out, (subPackKvs m kvs mh p).2.sbuf.bytes =
        p.sbuf.bytes ++ out ∧ EncodesKvs (pruneKvs m.key kvs) out
  | [], _, p, mh, hr => ⟨rfl, hr, [], by simp [subPackKvs, pure, StateT.pure], rfl⟩
  | (k, v) :: kvs, ⟨hk, hv, hwf⟩, p, mh, hr => by
      cases ht : (m.key == some k.ann || m.key == some v.ann) with
      | true =>
          have heq : subPackKvs m ((k, v) :: kvs) mh p = subPackKvs m kvs mh p := by
            show subPackKvs m kvs _ (accessorSubPack m (some k) v p).2 = _
            rw [accessorSubPack_drop m (some k) v ht]; rfl
          simpa only [heq, pruneKvs, ht, if_true] using subPackKvs_reliable kvs hwf mh hr
      | false =>
          obtain ⟨h1, h2, out1, h3, h4⟩ :=
            accessorSubPack_keep v hv (some k) (by simpa using hk) hr ht
          obtain ⟨g1, g2, out2, g3, g4⟩ := subPackKvs_reliable kvs hwf ⟨mh.offset, mh.entries + 1⟩ h2
          have heq : subPackKvs m ((k, v) :: kvs) mh p =
              subPackKvs m kvs ⟨mh.offset, mh.entries + 1⟩ (accessorSubPack m (some k) v p).2 := by
            show subPackKvs m kvs (if (accessorSubPack m (some k) v p).1 then _ else mh) _ = _
            rw [h1]; rfl
          simp only [heq, pruneKvs, ht, Bool.false_eq_true, if_false, List.length_cons]
          refine ⟨by rw [g1]; simp only [Nat.add_assoc, Nat.add_comm 1], g2, k.packed ++ out1 ++ out2,
            by rw [g3, h3]; simp, _, _, _, rfl, encodes_packed k hk, h4, g4⟩
theorem subPackList_reliable : (xs : List (Obj Nat)) → Obj.WFList xs →
    ∀ {p : Packer} (mh : FlbMpMapHeader), p.Reliable →
    (subPackList m xs mh p).1 = ⟨mh.offset, mh.entries + (pruneList m.key xs).length⟩ ∧
      (subPackList m xs mh p).2.Reliable ∧ ∃ out, (subPackList m xs mh p).2.sbuf.bytes =
        p.sbuf.bytes ++ out ∧ EncodesList (pruneList m.key xs) out
  | [], _, p, mh, hr => ⟨rfl, hr, [], by simp [subPackList, pure, StateT.pure], rfl⟩
  | x :: xs, ⟨hx, hwf⟩, p, mh, hr => by
      cases ht : (m.key == none || m.key == some x.ann) with
      | true =>
          have heq : subPackList m (x :: xs) mh p = subPackList m xs mh p := by
            show subPackList m xs _ (accessorSubPack m none x p).2 = _
            rw [accessorSubPack_drop m none x ht]; rfl
          simpa only [heq, pruneList, ht, if_true] using subPackList_reliable xs hwf mh hr
      | false =>
          obtain ⟨h1, h2, out1, h3, h4⟩ := accessorSubPack_keep x hx none (by simp) hr ht
          obtain ⟨g1, g2, out2, g3, g4⟩ := subPackList_reliable xs hwf ⟨mh.offset, mh.entries + 1⟩ h2
          have heq : subPackList m (x :: xs) mh p =
              subPackList m xs ⟨mh.offset, mh.entries + 1⟩ (accessorSubPack m none x p).2 := by
            show subPackList m xs (if (accessorSubPack m none x p).1 then _ else mh) _ = _
            rw [h1]; rfl
          simp only [heq, pruneList, ht, Bool.false_eq_true, if_false, List.length_cons]
          refine ⟨by rw [g1]; simp only [Nat.add_assoc, Nat.add_comm 1], g2, out1 ++ out2,
            by rw [g3, h3]; simp, _, _, rfl, h4, g4⟩
end

theorem accessorSubPack_entry {k v : Obj Nat} (hk : k.WF) (hv : v.WF) {p : Packer}
    (hr : p.Reliable) :
    (accessorSubPack m (some k) v p).2.Reliable ∧
      ((accessorSubPack m (some k) v p).1 = true ↔ (pruneKvs m.key [(k, v)]).length = 1) ∧
      ∃ out, (accessorSubPack m (some k) v p).2.sbuf.bytes = p.sbuf.bytes ++ out ∧
        EncodesKvs (pruneKvs m.key [(k, v)]) out := by
  cases ht : (m.key == some k.ann || m.key == some v.ann) with
  | true =>
      rw [accessorSubPack_drop m (some k) v ht]
      simp only [pruneKvs, ht, if_true]
      exact ⟨hr, by simp, [], by simp, rfl⟩
  | false =>
      obtain ⟨h1, h2, out, h3, h4⟩ := accessorSubPack_keep m v hv (some k) (by simpa using hk) hr ht
      simp only [pruneKvs, ht, Bool.false_eq_true, if_false]
      exact ⟨h2, by simp [h1], k.packed ++ out, by simpa using h3, _, _, [], by simp,
        encodes_packed k hk, h4, rfl⟩

end Reliable

variable {Ra : Type}

/-- The entries `flb_mp_accessor_keys_remove` writes: an entry that no set slot starts at is
copied whole, the others are left as `accessor_sub_pack` leaves them under the slot found. -/
def keysRemoveKvs (mpa : FlbMpAccessor Ra) :
    List (Obj Nat × Obj Nat) → List (Obj Unit × Obj Unit)
  | [] => []
  | (k, v) :: kvs =>
      (if accessorKeyFindMatch mpa k.ann = -1 then [(k.erase, v.erase)]
        else pruneKvs (mpa.matchTable.getD (accessorKeyFindMatch mpa k.ann).toNat .zero).key
          [(k, v)]) ++ keysRemoveKvs mpa kvs

theorem keysRemoveKvs_length_le (mpa : FlbMpAccessor Ra) :
    (kvs : List (Obj Nat × Obj Nat)) → (keysRemoveKvs mpa kvs).length ≤ kvs.length
  | [] => le_rfl
  | (k, v) :: kvs => by
      have := keysRemoveKvs_length_le mpa kvs
      have := pruneKvs_length_le
        (mpa.matchTable.getD (accessorKeyFindMatch mpa k.ann).toNat .zero).key [(k, v)]
      simp only [keysRemoveKvs, List.length_append, List.length_cons, List.length_nil] at *
      split
      · simp only [List.length_singleton]; omega
      · omega

theorem keysRemoveKvs_trims (mpa : FlbMpAccessor Ra) :
    (kvs : List (Obj Nat × Obj Nat)) → TrimsKvs (Obj.eraseKvs kvs) (keysRemoveKvs mpa kvs)
  | [] => trivial
  | (k, v) :: kvs => by
      have ih := keysRemoveKvs_trims mpa kvs
      simp only [keysRemoveKvs, Obj.eraseKvs]
      split
      · exact .inl ⟨rfl, trims_refl v.erase, ih⟩
      · simp only [pruneKvs]
        split
        · exact trimsKvs_cons_left ih
        · exact .inl ⟨rfl, trims_pruneObj _ v, ih⟩

theorem keysRemoveLoop_reliable (mpa : FlbMpAccessor Ra) :
    (kvs : List (Obj Nat × Obj Nat)) → Obj.WFKvs kvs → ∀ {p : Packer} (mh : FlbMpMapHeader),
    p.Reliable →
    (keysRemoveLoop mpa kvs mh p).1 = ⟨mh.offset, mh.entries + (keysRemoveKvs mpa kvs).length⟩ ∧
      (keysRemoveLoop mpa kvs mh p).2.Reliable ∧ ∃ out, (keysRemoveLoop mpa kvs mh p).2.sbuf.bytes =
        p.sbuf.bytes ++ out ∧ EncodesKvs (keysRemoveKvs mpa kvs) out
  | [], _, p, mh, hr => ⟨rfl, hr, [], by simp [keysRemoveLoop, pure, StateT.pure], rfl⟩
  | (k, v) :: kvs, ⟨hk, hv, hwf⟩, p, mh, hr => by
      by_cases hf : accessorKeyFindMatch mpa k.ann = -1
      · -- No slot starts at this key: the entry is counted and copied.
        obtain ⟨hb1, hr1⟩ := msgpackPackObject_reliable k hr
        obtain ⟨hb2, hr2⟩ := msgpackPackObject_reliable v hr1
        obtain ⟨g1, g2, out, g3, g4⟩ :=
          keysRemoveLoop_reliable mpa kvs hwf ⟨mh.offset, mh.entries + 1⟩ hr2
        have heq : keysRemoveLoop mpa ((k, v) :: kvs) mh p = keysRemoveLoop mpa kvs
            ⟨mh.offset, mh.entries + 1⟩ (msgpackPackObject v (msgpackPackObject k p).2).2 := by
          simp only [keysRemoveLoop, hf, if_true]; rfl
        rw [heq, keysRemoveKvs, if_pos hf]
        refine ⟨by rw [g1]; simp [Nat.add_assoc, Nat.add_comm 1], g2, k.packed ++ v.packed ++ out,
          by rw [g3, hb2, hb1]; simp, _, _, _, rfl, encodes_packed k hk, encodes_packed v hv, g4⟩
      · -- A slot starts at this key: `accessor_sub_pack` decides.
        set m := mpa.matchTable.getD (accessorKeyFindMatch mpa k.ann).toNat .zero
        obtain ⟨h1, h2, out1, h3, h4⟩ := accessorSubPack_entry m hk hv hr
        obtain ⟨g1, g2, out2, g3, g4⟩ := keysRemoveLoop_reliable mpa kvs hwf _ h1
        have heq : keysRemoveLoop mpa ((k, v) :: kvs) mh p = keysRemoveLoop mpa kvs
            (if (accessorSubPack m (some k) v p).1 then ⟨mh.offset, mh.entries + 1⟩ else mh)
            (accessorSubPack m (some k) v p).2 := by
          simp only [keysRemoveLoop, hf, if_false]; rfl
        rw [heq, keysRemoveKvs, if_neg hf]
        refine ⟨?_, g2, out1 ++ out2, by rw [g3, h3, List.append_assoc],
          encodesKvs_append h4 g4⟩
        rw [g1, List.length_append]
        by_cases hw : (accessorSubPack m (some k) v p).1 = true
        · rw [if_pos hw, h2.mp hw, Nat.add_assoc, Nat.add_comm 1]
        · have hle := pruneKvs_length_le m.key [(k, v)]
          have h0 : (pruneKvs m.key [(k, v)]).length = 0 := by
            have := mt h2.mpr hw; simp only [List.length_singleton] at hle; omega
          rw [if_neg hw, h0, Nat.zero_add]

theorem flbMpAccessorCreate_some (ras : List Ra) :
    flbMpAccessorCreate some ras =
      some ⟨ras, List.replicate ras.length .zero, List.length_replicate _ _⟩ := by
  have : ras.mapM some = some ras := by
    rw [← List.mapM'_eq_mapM]; induction ras <;> simp_all [List.mapM']
  rw [flbMpAccessorCreate, this]; rfl

section KeysRemove

variable (flbRaGetKvPair : Ra → List (Obj Nat × Obj Nat) → Option (Nat × Nat))
  (mpa : FlbMpAccessor Ra) (kvs : List (Obj Nat × Obj Nat)) (realloc : Nat → Option Nat)
  (tick : Nat)

theorem flbMpAccessorKeysRemove_eq : flbMpAccessorKeysRemove flbRaGetKvPair mpa kvs realloc tick =
    if kvs = [] then ⟨0, mpa, none, tick⟩
    else if ∀ ra ∈ mpa.raList, flbRaGetKvPair ra kvs = none then
      ⟨0, registerMatches flbRaGetKvPair kvs mpa, none, tick⟩
    else
      let pk := (Kind.map.rebuild (keysRemoveLoop (registerMatches flbRaGetKvPair kvs mpa) kvs)
        ⟨msgpackSbufferInit, realloc, tick⟩).2
      ⟨1, registerMatches flbRaGetKvPair kvs mpa, some pk.sbuf, pk.tick⟩ := by
  simp only [flbMpAccessorKeysRemove, List.length_eq_zero, registerMatches, List.countP_eq_zero,
    Option.isSome_iff_ne_none, ne_eq, decide_eq_true_eq, not_not]
  rfl

variable {kvs realloc}

theorem flbMpAccessorKeysRemove_encodes (hn : kvs.length < 2 ^ 32) (hwf : Obj.WFKvs kvs)
    (hr : ∀ t, (realloc t).isSome)
    (h : (flbMpAccessorKeysRemove flbRaGetKvPair mpa kvs realloc tick).ret = 1) :
    ∃ sb, (flbMpAccessorKeysRemove flbRaGetKvPair mpa kvs realloc tick).out = some sb ∧
      Encodes (.map () (keysRemoveKvs
        (flbMpAccessorKeysRemove flbRaGetKvPair mpa kvs realloc tick).mpa kvs)) sb.bytes := by
  rw [flbMpAccessorKeysRemove_eq] at h ⊢
  split_ifs at h ⊢
  · exact absurd h (by simp)
  · exact absurd h (by simp)
  obtain ⟨-, out, hb, he⟩ := Kind.map.rebuild_reliable
    (keysRemoveLoop (registerMatches flbRaGetKvPair kvs mpa) kvs)
    (p := ⟨msgpackSbufferInit, realloc, tick⟩) hr
    (fun q hq mh => keysRemoveLoop_reliable _ kvs hwf mh hq)
  refine ⟨_, rfl, _, out, by simpa [msgpackSbufferInit, Kind.wide] using hb,
    heads_map32 (Nat.lt_of_le_of_lt (keysRemoveKvs_length_le _ kvs) hn), he⟩

/-- Whatever the match table holds, a call that returns `FLB_TRUE` under an allocator that never
refuses hands back exactly one map, each header counting the entries that follow it, and that
map trims the record. -/
theorem flbMpAccessorKeysRemove_trims (hn : kvs.length < 2 ^ 32) (hwf : Obj.WFKvs kvs)
    (hr : ∀ t, (realloc t).isSome)
    (h : (flbMpAccessorKeysRemove flbRaGetKvPair mpa kvs realloc tick).ret = 1) :
    ∃ sb o, (flbMpAccessorKeysRemove flbRaGetKvPair mpa kvs realloc tick).out = some sb ∧
      unpack sb.bytes = some (o, []) ∧ Encodes o sb.bytes ∧
      Trims (.map () (Obj.eraseKvs kvs)) o := by
  obtain ⟨sb, hsb, he⟩ := flbMpAccessorKeysRemove_encodes flbRaGetKvPair mpa tick hn hwf hr h
  exact ⟨sb, _, hsb, by simpa using unpack_encodes he [], he, keysRemoveKvs_trims _ kvs⟩

/-- Under an allocator that never refuses, a call that returns `FLB_TRUE` hands back exactly the
record that `keysRemoveKvs` rebuilds from the match table the call leaves, and nothing after it. -/
theorem flbMpAccessorKeysRemove_decodes (hn : kvs.length < 2 ^ 32) (hwf : Obj.WFKvs kvs)
    (hr : ∀ t, (realloc t).isSome)
    (h : (flbMpAccessorKeysRemove flbRaGetKvPair mpa kvs realloc tick).ret = 1) :
    ∃ sb, (flbMpAccessorKeysRemove flbRaGetKvPair mpa kvs realloc tick).out = some sb ∧
      unpack sb.bytes = some (.map () (keysRemoveKvs
        (flbMpAccessorKeysRemove flbRaGetKvPair mpa kvs realloc tick).mpa kvs), []) := by
  obtain ⟨sb, hsb, he⟩ := flbMpAccessorKeysRemove_encodes flbRaGetKvPair mpa tick hn hwf hr h
  exact ⟨sb, hsb, by simpa using unpack_encodes he []⟩

end KeysRemove

open Ra

/-- `{"a": {"b": 1, "c": 2}}`, its objects at addresses 1 to 6. -/
def sharedAnchorRecord : List (Obj Nat × Obj Nat) :=
  [(.scalar 1 (.str [0x61]), .map 2 [(.scalar 3 (.str [0x62]), .scalar 4 (.positiveInteger 1)),
    (.scalar 5 (.str [0x63]), .scalar 6 (.positiveInteger 2))])]

/-- `$a['b']` and `$a['c']`, both anchored at `a`. -/
def sharedAnchorPatterns : List RaPattern := [⟨[0x61], [.key [0x62]]⟩, ⟨[0x61], [.key [0x63]]⟩]

theorem flbMpAccessorKeysRemove_trims_sharedAnchor :
    sharedAnchorRecord.length < 2 ^ 32 ∧ Obj.WFKvs sharedAnchorRecord ∧
      (∀ t, ((fun _ => some 16 : Nat → Option Nat) t).isSome) ∧
      (flbMpAccessorKeysRemove flbRaGetKvPair ⟨sharedAnchorPatterns, [.zero, .zero], rfl⟩
        sharedAnchorRecord (fun _ => some 16) 0).ret = 1 ∧
      ∃ sb o, (flbMpAccessorKeysRemove flbRaGetKvPair ⟨sharedAnchorPatterns, [.zero, .zero], rfl⟩
          sharedAnchorRecord (fun _ => some 16) 0).out = some sb ∧
        unpack sb.bytes = some (o, []) ∧ Encodes o sb.bytes ∧
        Trims (.map () (Obj.eraseKvs sharedAnchorRecord)) o := by
  have hwf : Obj.WFKvs sharedAnchorRecord := by
    simp [sharedAnchorRecord, Obj.WFKvs, Obj.WF, Scalar.WF]
  have hret : (flbMpAccessorKeysRemove flbRaGetKvPair ⟨sharedAnchorPatterns, [.zero, .zero], rfl⟩
      sharedAnchorRecord (fun _ => some 16) 0).ret = 1 := by decide
  exact ⟨by decide, hwf, fun _ => rfl, hret,
    flbMpAccessorKeysRemove_trims flbRaGetKvPair _ 0 (by decide) hwf (fun _ => rfl) hret⟩

theorem flbMpAccessorKeysRemove_decodes_sharedAnchor :
    sharedAnchorRecord.length < 2 ^ 32 ∧ Obj.WFKvs sharedAnchorRecord ∧
      (∀ t, ((fun _ => some 16 : Nat → Option Nat) t).isSome) ∧
      (flbMpAccessorKeysRemove flbRaGetKvPair ⟨sharedAnchorPatterns, [.zero, .zero], rfl⟩
        sharedAnchorRecord (fun _ => some 16) 0).ret = 1 ∧
      ∃ sb, (flbMpAccessorKeysRemove flbRaGetKvPair ⟨sharedAnchorPatterns, [.zero, .zero], rfl⟩
          sharedAnchorRecord (fun _ => some 16) 0).out = some sb ∧
        unpack sb.bytes = some (.map () (keysRemoveKvs
          (flbMpAccessorKeysRemove flbRaGetKvPair ⟨sharedAnchorPatterns, [.zero, .zero], rfl⟩
            sharedAnchorRecord (fun _ => some 16) 0).mpa sharedAnchorRecord), []) := by
  have hwf : Obj.WFKvs sharedAnchorRecord := by
    simp [sharedAnchorRecord, Obj.WFKvs, Obj.WF, Scalar.WF]
  have hret : (flbMpAccessorKeysRemove flbRaGetKvPair ⟨sharedAnchorPatterns, [.zero, .zero], rfl⟩
      sharedAnchorRecord (fun _ => some 16) 0).ret = 1 := by decide
  exact ⟨by decide, hwf, fun _ => rfl, hret,
    flbMpAccessorKeysRemove_decodes flbRaGetKvPair _ 0 (by decide) hwf (fun _ => rfl) hret⟩

/-- Two patterns anchored at the same key both locate an entry, yet only the first one's entry
is removed: `c` stays. -/
theorem flbMpAccessorKeysRemove_sharedAnchor :
    sharedAnchorPatterns.map (flbRaGetKvPair · sharedAnchorRecord) = [some (1, 3), some (1, 5)] ∧
      (flbMpAccessorCreate some sharedAnchorPatterns).map (fun mpa =>
        (flbMpAccessorKeysRemove flbRaGetKvPair mpa sharedAnchorRecord (fun _ => some 16) 0).out.map
          fun sb => unpack sb.bytes) =
      some (some (some (.map () [(.scalar () (.str [0x61]),
        .map () [(.scalar () (.str [0x63]), .scalar () (.positiveInteger 2))])], []))) :=
  ⟨rfl, rfl⟩

/-- A failed first write loses the map header; the later writes succeed, and `FLB_TRUE` comes
back with a buffer that holds the string `"a"` and a stray byte. -/
theorem flbMpAccessorKeysRemove_lostHeader :
    (flbMpAccessorCreate some [(⟨[0x62], []⟩ : RaPattern)]).map (fun mpa =>
      let r := flbMpAccessorKeysRemove flbRaGetKvPair mpa
        [(.scalar 1 (.str [0x61]), .scalar 2 (.positiveInteger 1)),
          (.scalar 3 (.str [0x62]), .scalar 4 (.positiveInteger 2))]
        (fun t => if t = 0 then none else some 16) 0
      (r.ret, r.out.map Sbuffer.bytes)) = some (1, some [0xa1, 0x61, 0x01]) ∧
    unpack [0xa1, 0x61, 0x01] = some (.scalar () (.str [0x61]), [0x01]) := by
  decide

end FluentBit.Mp
