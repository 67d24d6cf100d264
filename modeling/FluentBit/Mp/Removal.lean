import FluentBit.Mp.KeysRemove

/-!
The removal a pattern describes, and when the key-removal engine performs it. A pattern deletes
the entry its path reaches: the first entry with its top-level key, and below it the first entry
with each key segment's name and the element at each index. The engine compares addresses, not
paths. On a freshly created accessor, over a record whose objects sit at distinct addresses, each
entry is rewritten under the slot of the first pattern anchored at it that locates something, and
the key that slot names sits nowhere else in the record. So the engine makes the removals of the
applied patterns only (`appliedPatterns`): of the patterns that locate something, the first one of
each top-level key. When the top-level keys are distinct, these are all the removals the patterns
describe.
-/

namespace FluentBit.Msgpack.Obj

variable {α : Type}

mutual
/-- The annotations of an object and of everything inside it, outermost first. -/
def addrs : Obj α → List α
  | .scalar a _ => [a]
  | .array a xs => a :: addrsList xs
  | .map a kvs => a :: addrsKvs kvs
def addrsList : List (Obj α) → List α
  | [] => []
  | x :: xs => x.addrs ++ addrsList xs
def addrsKvs : List (Obj α × Obj α) → List α
  | [] => []
  | (k, v) :: kvs => k.addrs ++ v.addrs ++ addrsKvs kvs
end

theorem addrs_eq_cons (o : Obj α) : o.addrs = o.ann :: o.addrs.tail := by
  cases o <;> rfl

theorem ann_mem_addrs (o : Obj α) : o.ann ∈ o.addrs := by
  rw [addrs_eq_cons]; exact List.mem_cons_self _ _

theorem addrs_subset_addrsList {x : Obj α} {xs : List (Obj α)} (h : x ∈ xs) :
    x.addrs ⊆ addrsList xs := by
  induction xs with
  | nil => cases h
  | cons y ys ih =>
      rcases List.mem_cons.mp h with rfl | h
      · exact List.subset_append_left _ _
      · exact (ih h).trans (List.subset_append_right _ _)

theorem addrs_subset_addrsKvs {k v : Obj α} {kvs : List (Obj α × Obj α)} (h : (k, v) ∈ kvs) :
    k.addrs ++ v.addrs ⊆ addrsKvs kvs := by
  induction kvs with
  | nil => cases h
  | cons kv kvs ih =>
      obtain ⟨k', v'⟩ := kv
      rcases List.mem_cons.mp h with h | h
      · cases h; exact List.subset_append_left _ _
      · exact (ih h).trans (List.subset_append_right _ _)

theorem entry_eq_of_addrsKvs_nodup {a : α} {k v k' v' : Obj α} :
    ∀ {kvs : List (Obj α × Obj α)}, (addrsKvs kvs).Nodup → (k, v) ∈ kvs → (k', v') ∈ kvs →
      a ∈ k.addrs ++ v.addrs → a ∈ k'.addrs ++ v'.addrs → (k, v) = (k', v')
  | [], _, h, _, _, _ => by cases h
  | (k₀, v₀) :: kvs, hd, h, h', ha, ha' => by
      rw [addrsKvs, List.nodup_append] at hd
      have disj := fun {k₁ v₁ : Obj α} (h₁ : (k₁, v₁) ∈ kvs) (ha₀ : a ∈ k₀.addrs ++ v₀.addrs)
          (ha₁ : a ∈ k₁.addrs ++ v₁.addrs) => hd.2.2 ha₀ (addrs_subset_addrsKvs h₁ ha₁)
      rcases List.mem_cons.mp h with he | hk <;> rcases List.mem_cons.mp h' with he' | hk'
      · rw [he, he']
      · cases he; exact (disj hk' ha ha').elim
      · cases he'; exact (disj hk ha' ha).elim
      · exact entry_eq_of_addrsKvs_nodup hd.2.1 hk hk' ha ha'

theorem nodup_of_addrsKvs_nodup : ∀ {kvs : List (Obj α × Obj α)}, (addrsKvs kvs).Nodup → kvs.Nodup
  | [], _ => List.nodup_nil
  | (k, v) :: kvs, hd => by
      rw [addrsKvs, List.nodup_append] at hd
      have hk : k.ann ∈ k.addrs ++ v.addrs := List.mem_append_left _ (ann_mem_addrs k)
      exact List.nodup_cons.mpr
        ⟨fun hm => hd.2.2 hk (addrs_subset_addrsKvs hm hk), nodup_of_addrsKvs_nodup hd.2.1⟩

theorem addrsKvs_append (kvs kvs' : List (Obj α × Obj α)) :
    addrsKvs (kvs ++ kvs') = addrsKvs kvs ++ addrsKvs kvs' := by
  induction kvs with
  | nil => rfl
  | cons kv kvs ih => obtain ⟨k, v⟩ := kv; simp [addrsKvs, ih]

@[simp] theorem eraseKvs_append (kvs kvs' : List (Obj α × Obj α)) :
    eraseKvs (kvs ++ kvs') = eraseKvs kvs ++ eraseKvs kvs' := by
  induction kvs with
  | nil => rfl
  | cons kv kvs ih => obtain ⟨k, v⟩ := kv; simp [eraseKvs, ih]

end FluentBit.Msgpack.Obj

namespace FluentBit.Ra

open Msgpack

mutual
/-- Modelled from the spec: the value `o` with the entry that `segs` reach below it deleted;
unchanged when they reach nothing. -/
def removeIn : List RaSegment → Obj Nat → Obj Nat
  | .key name :: segs, .map a kvs => .map a (removeKey name segs kvs)
  | .index i :: segs, .array a xs => .array a (removeIndex segs i xs)
  | _, o => o
/-- Modelled from the spec: the entries with the first one whose key is `name` deleted when
`segs` is empty, or with the entry that `segs` reach below its value deleted. -/
def removeKey (name : List UInt8) (segs : List RaSegment) :
    List (Obj Nat × Obj Nat) → List (Obj Nat × Obj Nat)
  | [] => []
  | (k, v) :: kvs =>
      if keyIs name k then (if segs = [] then kvs else (k, removeIn segs v) :: kvs)
      else (k, v) :: removeKey name segs kvs
/-- Modelled from the spec: the elements with element `i` deleted when `segs` is empty, or with
the entry that `segs` reach below it deleted. -/
def removeIndex (segs : List RaSegment) : Nat → List (Obj Nat) → List (Obj Nat)
  | _, [] => []
  | 0, x :: xs => if segs = [] then xs else removeIn segs x :: xs
  | i + 1, x :: xs => x :: removeIndex segs i xs
end

theorem locate_mem_tail : ∀ {segs : List RaSegment} {a k : Nat} {v : Obj Nat},
    locate segs a v = some k → segs ≠ [] → k ∈ v.addrs.tail
  | .key name :: segs, a, k, .map b kvs, h, _ => by
      obtain ⟨⟨k', v'⟩, hf, hl⟩ := Option.bind_eq_some.mp h
      have hs := Obj.addrs_subset_addrsKvs (List.mem_of_find?_eq_some hf)
      by_cases he : segs = []
      · subst he; cases hl
        exact hs (List.mem_append_left _ (Obj.ann_mem_addrs k'))
      · exact hs (List.mem_append_right _ (List.mem_of_mem_tail (locate_mem_tail hl he)))
  | .index i :: segs, a, k, .array b xs, h, _ => by
      obtain ⟨x, hx, hl⟩ := Option.bind_eq_some.mp h
      have hs := Obj.addrs_subset_addrsList (List.getElem?_mem hx)
      by_cases he : segs = []
      · subst he; cases hl
        exact hs (Obj.ann_mem_addrs x)
      · exact hs (List.mem_of_mem_tail (locate_mem_tail hl he))
  | [], _, _, _, _, h => absurd rfl h
  | .key _ :: _, _, _, .scalar .., h, _ | .key _ :: _, _, _, .array .., h, _
  | .index _ :: _, _, _, .scalar .., h, _ | .index _ :: _, _, _, .map .., h, _ => by cases h

theorem locate_mem_entry {segs : List RaSegment} {k₀ v₀ : Obj Nat} {k : Nat}
    (hl : locate segs k₀.ann v₀ = some k) : k ∈ k₀.addrs ++ v₀.addrs := by
  by_cases he : segs = []
  · subst he; cases hl; exact List.mem_append_left _ (Obj.ann_mem_addrs k₀)
  · exact List.mem_append_right _ (List.mem_of_mem_tail (locate_mem_tail hl he))

theorem locate_mem_addrs {segs : List RaSegment} {x : Obj Nat} {k : Nat}
    (hl : locate segs x.ann x = some k) : k ∈ x.addrs := by
  simpa using locate_mem_entry hl

/-- Modelled from the spec: the record with the entry each pattern reaches deleted, the patterns
taken one after the other. -/
def removePatterns (ps : List RaPattern) (kvs : List (Obj Nat × Obj Nat)) :
    List (Obj Nat × Obj Nat) :=
  ps.foldl (fun kvs P => removeKey P.top P.subkeys kvs) kvs

@[simp] theorem removePatterns_cons (P : RaPattern) (ps : List RaPattern)
    (kvs : List (Obj Nat × Obj Nat)) :
    removePatterns (P :: ps) kvs = removePatterns ps (removeKey P.top P.subkeys kvs) := rfl

@[simp] theorem removePatterns_nil_right : ∀ ps : List RaPattern, removePatterns ps [] = []
  | [] => rfl
  | _ :: ps => removePatterns_nil_right ps

theorem keyIs_inj {n n' : List UInt8} {k : Obj Nat} (h : keyIs n k = true)
    (h' : keyIs n' k = true) : n = n' := by
  unfold keyIs at h h'
  split at h
  · simp_all
  · cases h

theorem keyIs_of_findKey {name : List UInt8} {kvs : List (Obj Nat × Obj Nat)} {k v : Obj Nat}
    (h : findKey name kvs = some (k, v)) : keyIs name k = true :=
  List.find?_some (p := fun kv : Obj Nat × Obj Nat => keyIs name kv.1) h

theorem findKey_eq_some_iff {pre rest : List (Obj Nat × Obj Nat)} {k v : Obj Nat}
    (hK : (pre ++ (k, v) :: rest).Nodup) (name : List UInt8) :
    findKey name (pre ++ (k, v) :: rest) = some (k, v) ↔
      (pre.all fun x => !keyIs name x.1) = true ∧ keyIs name k = true := by
  rw [List.nodup_append, List.nodup_cons] at hK
  have hpre : (k, v) ∉ pre := fun hm => hK.2.2 hm (List.mem_cons_self _ _)
  simp only [findKey, List.find?_append, List.find?_cons]
  cases hp : pre.find? fun kv => keyIs name kv.1 with
  | some x =>
      have hx := List.mem_of_find?_eq_some hp
      simp only [Option.or, Option.some.injEq]
      refine ⟨fun he => absurd (he ▸ hx) hpre, fun ⟨hall, _⟩ => ?_⟩
      exact absurd (List.find?_some hp) (by simpa using List.all_eq_true.mp hall x hx)
  | none =>
      have hall : (pre.all fun x => !keyIs name x.1) = true := by
        simpa [List.all_eq_true, List.find?_eq_none] using hp
      cases hn : keyIs name k
      · simp only [Option.none_or, hall, true_and, Bool.false_eq_true, if_false, iff_false]
        exact fun h => hK.2.1.1 (List.mem_of_find?_eq_some h)
      · simp [hall]

theorem removeKey_fst {name : List UInt8} {segs : List RaSegment} {k : Obj Nat} :
    ∀ {kvs : List (Obj Nat × Obj Nat)}, (∀ x ∈ kvs, x.1 = k) →
      ∀ x ∈ removeKey name segs kvs, x.1 = k
  | [], _ => by simp [removeKey]
  | (k', v) :: kvs, h => by
      have hk : k' = k := h _ (List.mem_cons_self _ _)
      have htail : ∀ x ∈ kvs, x.1 = k := fun x hx => h x (List.mem_cons_of_mem _ hx)
      simp only [removeKey]
      split_ifs
      · exact htail
      · simpa [hk] using htail
      · simpa [hk] using removeKey_fst htail

theorem removeKey_append_of_keyIs {name : List UInt8} {segs : List RaSegment}
    {x : Obj Nat × Obj Nat} (kvs acc : List (Obj Nat × Obj Nat)) (hx : keyIs name x.1 = true) :
    removeKey name segs (x :: kvs ++ acc) = removeKey name segs (x :: kvs) ++ acc := by
  obtain ⟨k, v⟩ := x
  by_cases hs : segs = [] <;> simp_all [removeKey]

theorem removeKey_append_of_not_keyIs {name : List UInt8} {segs : List RaSegment} :
    ∀ {kvs : List (Obj Nat × Obj Nat)} (acc : List (Obj Nat × Obj Nat)),
      (∀ x ∈ kvs, keyIs name x.1 = false) →
      removeKey name segs (kvs ++ acc) = kvs ++ removeKey name segs acc
  | [], _, _ => rfl
  | (k, v) :: kvs, acc, hn => by
      simp [removeKey, hn (k, v) (List.mem_cons_self _ _),
        removeKey_append_of_not_keyIs acc fun x hx => hn x (List.mem_cons_of_mem _ hx)]

theorem removePatterns_append {k : Obj Nat} : ∀ {ps : List RaPattern}
    (kvs acc : List (Obj Nat × Obj Nat)), (ps.map RaPattern.top).Nodup → (∀ x ∈ kvs, x.1 = k) →
    (∀ P ∈ ps, keyIs P.top k = true → kvs ≠ []) →
    removePatterns ps (kvs ++ acc) = removePatterns (ps.filter fun P => keyIs P.top k) kvs ++
      removePatterns (ps.filter fun P => !keyIs P.top k) acc
  | [], _, _, _, _, _ => rfl
  | P :: ps, kvs, acc, hn, hk, hne => by
      rw [List.map_cons, List.nodup_cons] at hn
      by_cases hP : keyIs P.top k = true
      · obtain ⟨x, kvs, rfl⟩ := List.exists_cons_of_ne_nil (hne P (List.mem_cons_self _ _) hP)
        have hx : keyIs P.top x.1 = true := (hk x (List.mem_cons_self _ _)).symm ▸ hP
        rw [List.filter_cons_of_pos (p := fun P : RaPattern => keyIs P.top k) hP,
          List.filter_cons_of_neg (p := fun P : RaPattern => !keyIs P.top k) (by simp [hP]),
          removePatterns_cons, removePatterns_cons, removeKey_append_of_keyIs kvs acc hx]
        exact removePatterns_append _ acc hn.2 (removeKey_fst hk) fun Q hQ hQk =>
          absurd (keyIs_inj hQk hP ▸ List.mem_map_of_mem _ hQ) hn.1
      · rw [List.filter_cons_of_neg (p := fun P : RaPattern => keyIs P.top k) hP,
          List.filter_cons_of_pos (p := fun P : RaPattern => !keyIs P.top k) (by simpa using hP),
          removePatterns_cons, removePatterns_cons,
          removeKey_append_of_not_keyIs acc fun x hx => by rw [hk x hx]; simpa using hP]
        exact removePatterns_append kvs _ hn.2 hk fun Q hQ => hne Q (List.mem_cons_of_mem _ hQ)

/-- The patterns whose removals the engine makes on a record, in pattern order: each pattern that
locates an entry, with the later ones of the same top-level key dropped. -/
def appliedPatterns (kvs : List (Obj Nat × Obj Nat)) : List RaPattern → List RaPattern
  | [] => []
  | P :: ps =>
      if (flbRaGetKvPair P kvs).isSome then
        P :: (appliedPatterns kvs ps).filter fun Q => Q.top != P.top
      else appliedPatterns kvs ps

theorem appliedPatterns_nodup (kvs : List (Obj Nat × Obj Nat)) :
    ∀ ps, ((appliedPatterns kvs ps).map RaPattern.top).Nodup
  | [] => List.nodup_nil
  | P :: ps => by
      unfold appliedPatterns
      split
      · rw [List.map_cons, List.nodup_cons]
        refine ⟨fun h => ?_, (appliedPatterns_nodup kvs ps).sublist ((List.filter_sublist _).map _)⟩
        obtain ⟨Q, hQ, he⟩ := List.mem_map.mp h
        simp [he] at hQ
      · exact appliedPatterns_nodup kvs ps

theorem appliedPatterns_filter (kvs : List (Obj Nat × Obj Nat)) {q : List UInt8 → Bool}
    (hq : ∀ n n', q n → q n' → n = n') : ∀ ps,
    (appliedPatterns kvs ps).filter (fun P => q P.top) =
      ((ps.filter fun P => q P.top).find? fun P => (flbRaGetKvPair P kvs).isSome).toList
  | [] => rfl
  | P :: ps => by
      have ih := appliedPatterns_filter kvs hq ps
      unfold appliedPatterns
      by_cases hl : (flbRaGetKvPair P kvs).isSome <;> by_cases hqP : q P.top <;>
        simp only [hl, hqP, if_true, if_false, List.filter_cons, List.find?_cons, List.filter_filter,
          ih, Bool.false_eq_true]
      · -- The first pattern of its key that locates something; the later ones are dropped.
        rw [List.filter_eq_nil_iff.mpr]
        · rfl
        · intro Q _ h
          simp only [Bool.and_eq_true, bne_iff_ne] at h
          exact h.2 (hq _ _ h.1 hqP)
      · -- A pattern of another key that locates something drops none of this key.
        rw [← ih]
        congr 1; funext Q
        by_cases hQ : q Q.top
        · have hne : Q.top ≠ P.top := fun h => hqP (h ▸ hQ)
          simp [hQ, hne]
        · simp [hQ]

section Unlocated

variable {segs : List RaSegment}
  (ih : ∀ (v : Obj Nat) (a : Nat), segs ≠ [] → locate segs a v = none → removeIn segs v = v)
include ih

theorem removeKey_of_locate_none (name : List UInt8) : ∀ {kvs : List (Obj Nat × Obj Nat)},
    ((findKey name kvs).bind fun kv => locate segs kv.1.ann kv.2) = none →
      removeKey name segs kvs = kvs
  | [], _ => rfl
  | (k, v) :: kvs, h => by
      by_cases hn : keyIs name k = true
      · have hl : locate segs k.ann v = none := by simpa [findKey, hn] using h
        have hs : segs ≠ [] := by rintro rfl; cases hl
        simp [removeKey, hn, hs, ih v k.ann hs hl]
      · simp [removeKey, hn, removeKey_of_locate_none name (by simpa [findKey, hn] using h)]

theorem removeIndex_of_locate_none : ∀ (i : Nat) {xs : List (Obj Nat)},
    (xs[i]?.bind fun x => locate segs x.ann x) = none → removeIndex segs i xs = xs
  | i, [], _ => by cases i <;> rfl
  | 0, x :: xs, h => by
      have hl : locate segs x.ann x = none := by simpa using h
      have hs : segs ≠ [] := by rintro rfl; cases hl
      simp [removeIndex, hs, ih x x.ann hs hl]
  | i + 1, x :: xs, h => by
      simp [removeIndex, removeIndex_of_locate_none i (by simpa using h)]

end Unlocated

theorem removeIn_of_locate_none : ∀ (segs : List RaSegment) (v : Obj Nat) (a : Nat), segs ≠ [] →
    locate segs a v = none → removeIn segs v = v
  | [], _, _, h, _ => absurd rfl h
  | .key name :: segs, .map _ _, _, _, hl => by
      rw [removeIn, removeKey_of_locate_none (fun v a => removeIn_of_locate_none segs v a) name hl]
  | .index i :: segs, .array _ _, _, _, hl => by
      rw [removeIn, removeIndex_of_locate_none (fun v a => removeIn_of_locate_none segs v a) i hl]
  | .key _ :: _, .scalar .., _, _, _ | .key _ :: _, .array .., _, _, _
  | .index _ :: _, .scalar .., _, _, _ | .index _ :: _, .map .., _, _, _ => rfl

theorem flbRaGetKvPair_of_findKey {P : RaPattern} {kvs : List (Obj Nat × Obj Nat)} {k v : Obj Nat}
    (h : findKey P.top kvs = some (k, v)) :
    flbRaGetKvPair P kvs = (locate P.subkeys k.ann v).map fun kk => (k.ann, kk) := by
  simp [flbRaGetKvPair, h]

theorem removeKey_of_getKvPair_none {P : RaPattern} {kvs : List (Obj Nat × Obj Nat)}
    {k v : Obj Nat} (hf : findKey P.top kvs = some (k, v)) (h : flbRaGetKvPair P kvs = none) :
    removeKey P.top P.subkeys [(k, v)] = [(k, v)] := by
  refine removeKey_of_locate_none (fun v a => removeIn_of_locate_none P.subkeys v a) P.top ?_
  rw [flbRaGetKvPair_of_findKey hf, Option.map_eq_none'] at h
  simp [findKey, keyIs_of_findKey hf, h]

end FluentBit.Ra

namespace FluentBit.Mp

open Msgpack Ra

section Prune

variable {k : Nat}

mutual
theorem pruneObj_of_not_mem : (o : Obj Nat) → k ∉ o.addrs → pruneObj (some k) o = o.erase
  | .scalar _ _, _ => rfl
  | .array _ xs, h => by
      rw [pruneObj, pruneList_of_not_mem xs fun hm => h (List.mem_cons_of_mem _ hm)]; rfl
  | .map _ kvs, h => by
      rw [pruneObj, pruneKvs_of_not_mem kvs fun hm => h (List.mem_cons_of_mem _ hm)]; rfl
theorem pruneList_of_not_mem : (xs : List (Obj Nat)) → k ∉ Obj.addrsList xs →
    pruneList (some k) xs = Obj.eraseList xs
  | [], _ => rfl
  | x :: xs, h => by
      simp only [Obj.addrsList, List.mem_append, not_or] at h
      have hx : k ≠ x.ann := fun he => h.1 (he ▸ Obj.ann_mem_addrs x)
      simp [pruneList, Obj.eraseList, hx, pruneObj_of_not_mem x h.1, pruneList_of_not_mem xs h.2]
theorem pruneKvs_of_not_mem : (kvs : List (Obj Nat × Obj Nat)) → k ∉ Obj.addrsKvs kvs →
    pruneKvs (some k) kvs = Obj.eraseKvs kvs
  | [], _ => rfl
  | (k', v) :: kvs, h => by
      simp only [Obj.addrsKvs, List.mem_append, not_or] at h
      have hk : k ≠ k'.ann := fun he => h.1.1 (he ▸ Obj.ann_mem_addrs k')
      have hv : k ≠ v.ann := fun he => h.1.2 (he ▸ Obj.ann_mem_addrs v)
      simp [pruneKvs, Obj.eraseKvs, hk, hv, pruneObj_of_not_mem v h.1.2,
        pruneKvs_of_not_mem kvs h.2]
end

variable {segs : List RaSegment}
  (ih : ∀ (v : Obj Nat) (a : Nat), segs ≠ [] → v.addrs.Nodup → locate segs a v = some k →
    pruneObj (some k) v = (removeIn segs v).erase)
include ih

theorem pruneKvs_removeKey (name : List UInt8) : ∀ {kvs : List (Obj Nat × Obj Nat)},
    (Obj.addrsKvs kvs).Nodup → ((findKey name kvs).bind fun kv => locate segs kv.1.ann kv.2) = some k →
    pruneKvs (some k) kvs = Obj.eraseKvs (removeKey name segs kvs)
  | [], _, h => by cases h
  | (k₀, v₀) :: kvs, hd, h => by
      rw [Obj.addrsKvs, List.nodup_append, List.nodup_append] at hd
      by_cases hn : keyIs name k₀ = true
      · -- The entry the pattern reaches.
        have hl : locate segs k₀.ann v₀ = some k := by simpa [findKey, hn] using h
        have hrest : k ∉ Obj.addrsKvs kvs := hd.2.2 (locate_mem_entry hl)
        by_cases he : segs = []
        · subst he; cases hl
          simp [pruneKvs, removeKey, hn, pruneKvs_of_not_mem kvs hrest]
        · have hin := locate_mem_tail hl he
          have hkv : k ≠ v₀.ann := fun e =>
            (List.nodup_cons.mp (Obj.addrs_eq_cons v₀ ▸ hd.1.2.1)).1 (e ▸ hin)
          have hkk : k ≠ k₀.ann := fun e => hd.1.2.2 (e ▸ Obj.ann_mem_addrs k₀)
            (List.mem_of_mem_tail hin)
          simp [pruneKvs, removeKey, hn, he, hkv, hkk, Obj.eraseKvs,
            ih v₀ k₀.ann he hd.1.2.1 hl, pruneKvs_of_not_mem kvs hrest]
      · -- An entry before it, which holds no object the path reaches.
        have h' : ((findKey name kvs).bind fun kv => locate segs kv.1.ann kv.2) = some k := by
          simpa [findKey, hn] using h
        obtain ⟨⟨k₁, v₁⟩, hf, hl⟩ := Option.bind_eq_some.mp h'
        have hout : k ∉ k₀.addrs ++ v₀.addrs := fun hm => hd.2.2 hm
          (Obj.addrs_subset_addrsKvs (List.mem_of_find?_eq_some hf) (locate_mem_entry hl))
        rw [List.mem_append, not_or] at hout
        have hkk : k ≠ k₀.ann := fun e => hout.1 (e ▸ Obj.ann_mem_addrs k₀)
        have hkv : k ≠ v₀.ann := fun e => hout.2 (e ▸ Obj.ann_mem_addrs v₀)
        simp [pruneKvs, removeKey, hn, hkk, hkv, Obj.eraseKvs, pruneObj_of_not_mem v₀ hout.2,
          pruneKvs_removeKey name hd.2.1 h']

theorem pruneList_removeIndex : ∀ (i : Nat) {xs : List (Obj Nat)}, (Obj.addrsList xs).Nodup →
    (xs[i]?.bind fun x => locate segs x.ann x) = some k →
    pruneList (some k) xs = Obj.eraseList (removeIndex segs i xs)
  | _, [], _, h => by cases h
  | i, x :: xs, hd, h => by
      rw [Obj.addrsList, List.nodup_append] at hd
      cases i with
      | zero =>
          have hl : locate segs x.ann x = some k := by simpa using h
          have hrest : k ∉ Obj.addrsList xs := hd.2.2 (locate_mem_addrs hl)
          by_cases he : segs = []
          · subst he; cases hl
            simp [pruneList, removeIndex, pruneList_of_not_mem xs hrest]
          · have hin := locate_mem_tail hl he
            have hkx : k ≠ x.ann := fun e =>
              (List.nodup_cons.mp (Obj.addrs_eq_cons x ▸ hd.1)).1 (e ▸ hin)
            simp [pruneList, removeIndex, he, hkx, Obj.eraseList, ih x x.ann he hd.1 hl,
              pruneList_of_not_mem xs hrest]
      | succ i =>
          have h' : (xs[i]?.bind fun x => locate segs x.ann x) = some k := by simpa using h
          obtain ⟨y, hy, hl⟩ := Option.bind_eq_some.mp h'
          have hmem : k ∈ Obj.addrsList xs :=
            Obj.addrs_subset_addrsList (List.getElem?_mem hy) (locate_mem_addrs hl)
          have hout : k ∉ x.addrs := fun hm => hd.2.2 hm hmem
          have hkx : k ≠ x.ann := fun e => hout (e ▸ Obj.ann_mem_addrs x)
          simp [pruneList, removeIndex, hkx, Obj.eraseList, pruneObj_of_not_mem x hout,
            pruneList_removeIndex i hd.2.1 h']

end Prune

theorem pruneObj_removeIn : ∀ (segs : List RaSegment) (v : Obj Nat) (a k : Nat), segs ≠ [] →
    v.addrs.Nodup → locate segs a v = some k → pruneObj (some k) v = (removeIn segs v).erase
  | [], _, _, _, h, _, _ => absurd rfl h
  | .key name :: segs, .map b kvs, _, _, _, hd, hl => by
      have := pruneKvs_removeKey (fun v a => pruneObj_removeIn segs v a _) name
        (List.nodup_cons.mp hd).2 hl
      simp only [pruneObj, removeIn, Obj.erase, this]
  | .index i :: segs, .array b xs, _, _, _, hd, hl => by
      have := pruneList_removeIndex (fun v a => pruneObj_removeIn segs v a _) i
        (List.nodup_cons.mp hd).2 hl
      simp only [pruneObj, removeIn, Obj.erase, this]
  | .key _ :: _, .scalar .., _, _, _, _, h | .key _ :: _, .array .., _, _, _, _, h
  | .index _ :: _, .scalar .., _, _, _, _, h | .index _ :: _, .map .., _, _, _, _, h => by cases h

variable {Ra : Type}

theorem keysRemoveKvs_cons (mpa : FlbMpAccessor Ra) (kv : Obj Nat × Obj Nat)
    (kvs : List (Obj Nat × Obj Nat)) :
    keysRemoveKvs mpa (kv :: kvs) = keysRemoveKvs mpa [kv] ++ keysRemoveKvs mpa kvs := by
  obtain ⟨k, v⟩ := kv
  simp only [keysRemoveKvs, List.append_nil]

theorem keysRemoveKvs_singleton (mpa : FlbMpAccessor Ra) (k v : Obj Nat) :
    keysRemoveKvs mpa [(k, v)] =
      ((mpa.matchTable.find? fun m => m.matched && m.startKey == some k.ann).map
        fun m => pruneKvs m.key [(k, v)]).getD [(k.erase, v.erase)] := by
  simp only [keysRemoveKvs, accessorKeyFindMatch, List.append_nil]
  cases h : mpa.matchTable.findIdx? fun m => m.matched && m.startKey == some k.ann with
  | none =>
      rw [List.find?_eq_none.mpr fun m hm => by simpa using List.findIdx?_eq_none_iff.mp h m hm]
      rfl
  | some i =>
      obtain ⟨hi, hp, hmin⟩ := List.findIdx?_eq_some_iff_getElem.mp h
      have hfind : (mpa.matchTable.find? fun m => m.matched && m.startKey == some k.ann) =
          some mpa.matchTable[i] := List.find?_eq_some_iff_getElem.mpr
        ⟨hp, i, hi, rfl, fun j hj => by simpa only [Bool.not_eq_true', Bool.eq_false_iff] using hmin j hj⟩
      simp [hfind, List.getElem?_eq_getElem hi]

section Fresh

variable (flbRaGetKvPair : Ra → List (Obj Nat × Obj Nat) → Option (Nat × Nat))

theorem registerMatches_fresh (kvs : List (Obj Nat × Obj Nat)) (ras : List Ra) :
    (registerMatches flbRaGetKvPair kvs
        ⟨ras, List.replicate ras.length .zero, List.length_replicate _ _⟩).matchTable =
      ras.map fun ra => registerMatch flbRaGetKvPair kvs ra .zero := by
  simp only [registerMatches]
  induction ras with
  | nil => rfl
  | cons ra ras ih => simp [List.replicate_succ, ih]

theorem registerMatch_zero_starts (kvs : List (Obj Nat × Obj Nat)) (ra : Ra) (a : Nat) :
    ((registerMatch flbRaGetKvPair kvs ra .zero).matched &&
        (registerMatch flbRaGetKvPair kvs ra .zero).startKey == some a) =
      ((flbRaGetKvPair ra kvs).map Prod.fst == some a) := by
  unfold registerMatch
  split <;> simp_all [FlbMpAccessorMatch.zero]

theorem registerMatch_zero_key (kvs : List (Obj Nat × Obj Nat)) (ra : Ra) :
    (registerMatch flbRaGetKvPair kvs ra .zero).key = (flbRaGetKvPair ra kvs).map Prod.snd := by
  unfold registerMatch
  split <;> simp_all [FlbMpAccessorMatch.zero]

theorem keysRemoveKvs_fresh_singleton {ras : List Ra} {mpa : FlbMpAccessor Ra}
    {kvs : List (Obj Nat × Obj Nat)}
    (ht : mpa.matchTable = ras.map fun ra => registerMatch flbRaGetKvPair kvs ra .zero)
    (k v : Obj Nat) :
    keysRemoveKvs mpa [(k, v)] =
      ((ras.find? fun ra => (flbRaGetKvPair ra kvs).map Prod.fst == some k.ann).map
        fun ra => pruneKvs ((flbRaGetKvPair ra kvs).map Prod.snd) [(k, v)]).getD
        [(k.erase, v.erase)] := by
  rw [keysRemoveKvs_singleton, ht, List.find?_map, Option.map_map]
  congr 3
  · funext ra; simp only [Function.comp, registerMatch_zero_key]
  · funext ra; exact registerMatch_zero_starts flbRaGetKvPair kvs ra k.ann

end Fresh

theorem findKey_of_getKvPair {K : List (Obj Nat × Obj Nat)} (hd : (Obj.addrsKvs K).Nodup)
    {k v : Obj Nat} (hmem : (k, v) ∈ K) {P : RaPattern} {kk : Nat}
    (h : flbRaGetKvPair P K = some (k.ann, kk)) : findKey P.top K = some (k, v) := by
  obtain ⟨⟨k₀, v₀⟩, hf, hl⟩ := Option.bind_eq_some.mp h
  obtain ⟨_, -, he⟩ := Option.map_eq_some'.mp hl
  have hs : k₀.ann = k.ann := (Prod.mk.inj he).1
  rw [hf, Obj.entry_eq_of_addrsKvs_nodup hd (List.mem_of_find?_eq_some hf) hmem
    (hs ▸ List.mem_append_left _ (Obj.ann_mem_addrs k₀))
    (List.mem_append_left _ (Obj.ann_mem_addrs k))]

theorem getKvPair_starts_iff {K : List (Obj Nat × Obj Nat)} (hd : (Obj.addrsKvs K).Nodup)
    {k v : Obj Nat} (hmem : (k, v) ∈ K) (P : RaPattern) :
    ((flbRaGetKvPair P K).map Prod.fst == some k.ann) =
      (decide (findKey P.top K = some (k, v)) && (flbRaGetKvPair P K).isSome) := by
  by_cases hf : findKey P.top K = some (k, v)
  · rw [flbRaGetKvPair_of_findKey hf]
    cases locate P.subkeys k.ann v <;> simp [hf]
  · cases h : flbRaGetKvPair P K with
    | none => simp
    | some sk =>
        obtain ⟨s, kk⟩ := sk
        have hs : s ≠ k.ann := fun hs => hf (findKey_of_getKvPair hd hmem (hs ▸ h))
        simp [hf, hs]

theorem pruneKvs_anchor {P : RaPattern} {K : List (Obj Nat × Obj Nat)} {k v : Obj Nat}
    {s kk : Nat} (hf : findKey P.top K = some (k, v)) (hdk : (Obj.addrsKvs [(k, v)]).Nodup)
    (h : flbRaGetKvPair P K = some (s, kk)) :
    pruneKvs (some kk) [(k, v)] = Obj.eraseKvs (removeKey P.top P.subkeys [(k, v)]) := by
  rw [flbRaGetKvPair_of_findKey hf, Option.map_eq_some'] at h
  obtain ⟨_, hl, he⟩ := h
  obtain ⟨-, rfl⟩ := Prod.mk.inj he
  exact pruneKvs_removeKey (fun v a => pruneObj_removeIn P.subkeys v a _) P.top hdk
    (by simp [findKey, keyIs_of_findKey hf, hl])

section Anchors

variable {ps : List RaPattern} {mpa : FlbMpAccessor RaPattern} {K : List (Obj Nat × Obj Nat)}
  (ht : mpa.matchTable = ps.map fun P => registerMatch flbRaGetKvPair K P .zero)
  (hd : (Obj.addrsKvs K).Nodup)
include ht hd

theorem keysRemoveKvs_anchor_first {pre rest : List (Obj Nat × Obj Nat)} {k v : Obj Nat}
    (hK : pre ++ (k, v) :: rest = K) :
    keysRemoveKvs mpa [(k, v)] = Obj.eraseKvs (removePatterns
      ((ps.filter fun P => findKey P.top K = some (k, v)).find?
        fun P => (flbRaGetKvPair P K).isSome).toList [(k, v)]) := by
  have hmem : (k, v) ∈ K := hK ▸ List.mem_append_right _ (List.mem_cons_self _ _)
  -- The first slot that starts here is that of the first pattern anchored here that locates.
  have hfind : (ps.find? fun P => (flbRaGetKvPair P K).map Prod.fst == some k.ann) =
      (ps.filter fun P => findKey P.top K = some (k, v)).find? fun P => (flbRaGetKvPair P K).isSome := by
    rw [List.find?_filter]
    congr 1; funext P
    simp [getKvPair_starts_iff hd hmem P]
  rw [keysRemoveKvs_fresh_singleton _ ht, hfind]
  cases hP : (ps.filter fun P => findKey P.top K = some (k, v)).find?
    fun P => (flbRaGetKvPair P K).isSome with
  | none => rfl
  | some P =>
      have hPK : findKey P.top K = some (k, v) :=
        of_decide_eq_true (List.mem_filter.mp (List.mem_of_find?_eq_some hP)).2
      obtain ⟨⟨s, kk⟩, hloc⟩ := Option.isSome_iff_exists.mp
        (List.find?_some (p := fun P : RaPattern => (flbRaGetKvPair P K).isSome) hP)
      have hdk : (Obj.addrsKvs [(k, v)]).Nodup := by
        have := hK ▸ hd
        rw [Obj.addrsKvs_append, Obj.addrsKvs, List.nodup_append, List.nodup_append] at this
        simpa [Obj.addrsKvs] using this.2.1.1
      simpa [hloc] using pruneKvs_anchor hPK hdk hloc

theorem keysRemoveKvs_anchor (hnames : (ps.map RaPattern.top).Nodup)
    {pre rest : List (Obj Nat × Obj Nat)} {k v : Obj Nat} (hK : pre ++ (k, v) :: rest = K) :
    keysRemoveKvs mpa [(k, v)] =
      Obj.eraseKvs (removePatterns (ps.filter fun P => findKey P.top K = some (k, v)) [(k, v)]) := by
  rw [keysRemoveKvs_anchor_first ht hd hK]
  generalize hF : (ps.filter fun P => findKey P.top K = some (k, v)) = F
  have hsub : (F.map RaPattern.top).Nodup := hF ▸ hnames.sublist ((List.filter_sublist ps).map _)
  have hkey : ∀ P ∈ F, findKey P.top K = some (k, v) :=
    fun P hP => by subst hF; exact of_decide_eq_true (List.mem_filter.mp hP).2
  rcases F with _ | ⟨P, _ | ⟨Q, F⟩⟩
  · rfl
  · -- One pattern anchored here: if it locates nothing, it deletes nothing.
    rw [List.find?_singleton]
    cases hloc : flbRaGetKvPair P K with
    | none => simp [removeKey_of_getKvPair_none (hkey P (List.mem_singleton_self P)) hloc]
    | some sk => simp [hloc]
  · -- Two patterns whose first entry is this one share its key.
    have htop : P.top = Q.top := keyIs_inj (keyIs_of_findKey (hkey P (List.mem_cons_self _ _)))
      (keyIs_of_findKey (hkey Q (List.mem_cons_of_mem _ (List.mem_cons_self _ _))))
    simp [htop] at hsub

theorem keysRemoveKvs_anchor_applied {pre rest : List (Obj Nat × Obj Nat)} {k v : Obj Nat}
    (hK : pre ++ (k, v) :: rest = K) :
    keysRemoveKvs mpa [(k, v)] = Obj.eraseKvs (removePatterns
      ((appliedPatterns K ps).filter fun P => findKey P.top K = some (k, v)) [(k, v)]) := by
  rw [keysRemoveKvs_anchor_first ht hd hK,
    appliedPatterns_filter K (q := fun n => decide (findKey n K = some (k, v))) ?_ ps]
  intro n n' h h'
  exact keyIs_inj (keyIs_of_findKey (of_decide_eq_true h)) (keyIs_of_findKey (of_decide_eq_true h'))

end Anchors

section Entries

variable {qs : List RaPattern} {mpa : FlbMpAccessor RaPattern} {K : List (Obj Nat × Obj Nat)}
  (hnames : (qs.map RaPattern.top).Nodup) (hd : (Obj.addrsKvs K).Nodup)
  (hentry : ∀ {pre rest : List (Obj Nat × Obj Nat)} {k v : Obj Nat}, pre ++ (k, v) :: rest = K →
    keysRemoveKvs mpa [(k, v)] =
      Obj.eraseKvs (removePatterns (qs.filter fun P => findKey P.top K = some (k, v)) [(k, v)]))
include hnames hd hentry

theorem keysRemoveKvs_removePatterns : ∀ (pre suf : List (Obj Nat × Obj Nat)), pre ++ suf = K →
    keysRemoveKvs mpa suf =
      Obj.eraseKvs (removePatterns (qs.filter fun P => pre.all fun x => !keyIs P.top x.1) suf)
  | _, [], _ => by rw [removePatterns_nil_right]; rfl
  | pre, (k, v) :: rest, hK => by
      have hKn : (pre ++ (k, v) :: rest).Nodup := hK ▸ Obj.nodup_of_addrsKvs_nodup hd
      have hsub : ((qs.filter fun P => pre.all fun x => !keyIs P.top x.1).map RaPattern.top).Nodup :=
        hnames.sublist ((List.filter_sublist qs).map _)
      have hhere : ((qs.filter fun P => pre.all fun x => !keyIs P.top x.1).filter
          fun P => keyIs P.top k) = qs.filter fun P => findKey P.top K = some (k, v) := by
        rw [List.filter_filter]; congr 1; funext P
        rw [← hK, Bool.eq_iff_iff, decide_eq_true_iff, findKey_eq_some_iff hKn, Bool.and_eq_true,
          and_comm]
      have hlater : ((qs.filter fun P => pre.all fun x => !keyIs P.top x.1).filter
          fun P => !keyIs P.top k) =
            qs.filter fun P => (pre ++ [(k, v)]).all fun x => !keyIs P.top x.1 := by
        rw [List.filter_filter]; congr 1; funext P; simp [List.all_append, Bool.and_comm]
      have hsplit := removePatterns_append (k := k) [(k, v)] rest hsub (by simp) (by simp)
      rw [List.singleton_append] at hsplit
      rw [keysRemoveKvs_cons, hsplit, Obj.eraseKvs_append, hhere, hlater,
        hentry hK,
        keysRemoveKvs_removePatterns (pre ++ [(k, v)]) rest (by rw [List.append_assoc]; exact hK)]

end Entries

theorem flbMpAccessorKeysRemove_fresh {ps : List RaPattern} {mpa : FlbMpAccessor RaPattern}
    {kvs : List (Obj Nat × Obj Nat)} {realloc : Nat → Option Nat} (tick : Nat)
    (hc : flbMpAccessorCreate some ps = some mpa) (hn : kvs.length < 2 ^ 32) (hwf : Obj.WFKvs kvs)
    (hr : ∀ t, (realloc t).isSome) (hloc : ∃ P ∈ ps, (flbRaGetKvPair P kvs).isSome) :
    (flbMpAccessorKeysRemove flbRaGetKvPair mpa kvs realloc tick).ret = 1 ∧
      (flbMpAccessorKeysRemove flbRaGetKvPair mpa kvs realloc tick).mpa.matchTable =
        ps.map (fun P => registerMatch flbRaGetKvPair kvs P .zero) ∧
      ∃ sb, (flbMpAccessorKeysRemove flbRaGetKvPair mpa kvs realloc tick).out = some sb ∧
        Encodes (.map () (keysRemoveKvs
          (flbMpAccessorKeysRemove flbRaGetKvPair mpa kvs realloc tick).mpa kvs)) sb.bytes := by
  have hmpa := (Option.some.inj ((flbMpAccessorCreate_some ps).symm.trans hc)).symm
  obtain ⟨P, hP, hsome⟩ := hloc
  have hne : kvs ≠ [] := by rintro rfl; simp [flbRaGetKvPair, findKey] at hsome
  have hall : ¬∀ ra ∈ mpa.raList, flbRaGetKvPair ra kvs = none := fun h => by
    simp [h P (hmpa ▸ hP)] at hsome
  have hret : (flbMpAccessorKeysRemove flbRaGetKvPair mpa kvs realloc tick).ret = 1 := by
    rw [flbMpAccessorKeysRemove_eq, if_neg hne, if_neg hall]
  refine ⟨hret, ?_, flbMpAccessorKeysRemove_encodes flbRaGetKvPair _ tick hn hwf hr hret⟩
  rw [flbMpAccessorKeysRemove_eq, if_neg hne, if_neg hall, hmpa]
  exact registerMatches_fresh flbRaGetKvPair kvs ps

/-- On a freshly created accessor whose patterns start at distinct top-level keys, one of which
locates an entry of a record whose objects sit at distinct addresses,
`flb_mp_accessor_keys_remove` returns `FLB_TRUE` under an allocator that never refuses, and hands
back exactly the record with the entry each pattern reaches deleted. -/
theorem flbMpAccessorKeysRemove_removes {ps : List RaPattern} {mpa : FlbMpAccessor RaPattern}
    {kvs : List (Obj Nat × Obj Nat)} {realloc : Nat → Option Nat} (tick : Nat)
    (hc : flbMpAccessorCreate some ps = some mpa) (hnames : (ps.map RaPattern.top).Nodup)
    (hd : (Obj.addrsKvs kvs).Nodup) (hn : kvs.length < 2 ^ 32) (hwf : Obj.WFKvs kvs)
    (hr : ∀ t, (realloc t).isSome) (hloc : ∃ P ∈ ps, (flbRaGetKvPair P kvs).isSome) :
    (flbMpAccessorKeysRemove flbRaGetKvPair mpa kvs realloc tick).ret = 1 ∧
      ∃ sb, (flbMpAccessorKeysRemove flbRaGetKvPair mpa kvs realloc tick).out = some sb ∧
        unpack sb.bytes = some (.map () (Obj.eraseKvs (removePatterns ps kvs)), []) := by
  obtain ⟨hret, ht, sb, hsb, hen⟩ := flbMpAccessorKeysRemove_fresh tick hc hn hwf hr hloc
  rw [keysRemoveKvs_removePatterns hnames hd (keysRemoveKvs_anchor ht hd hnames) [] kvs rfl] at hen
  exact ⟨hret, sb, hsb, by simpa using unpack_encodes hen []⟩

/-- `{"a": {"b": 1, "c": 2}, "d": 3}`, its objects at addresses 1 to 8. -/
def twoAnchorRecord : List (Obj Nat × Obj Nat) :=
  sharedAnchorRecord ++ [(.scalar 7 (.str [0x64]), .scalar 8 (.positiveInteger 3))]

/-- `$a['b']` and `$d`, anchored at different keys. -/
def twoAnchorPatterns : List RaPattern := [⟨[0x61], [.key [0x62]]⟩, ⟨[0x64], []⟩]

/-- `$a['b']` and `$d` on `{"a": {"b": 1, "c": 2}, "d": 3}`. -/
theorem flbMpAccessorKeysRemove_removes_twoAnchors :
    flbMpAccessorCreate some twoAnchorPatterns =
        some ⟨twoAnchorPatterns, [.zero, .zero], rfl⟩ ∧
      (twoAnchorPatterns.map RaPattern.top).Nodup ∧
      (Obj.addrsKvs twoAnchorRecord).Nodup ∧ twoAnchorRecord.length < 2 ^ 32 ∧
      Obj.WFKvs twoAnchorRecord ∧ (∀ t, ((fun _ => some 16 : Nat → Option Nat) t).isSome) ∧
      (∃ P ∈ twoAnchorPatterns, (flbRaGetKvPair P twoAnchorRecord).isSome) ∧
      (flbMpAccessorKeysRemove flbRaGetKvPair ⟨twoAnchorPatterns, [.zero, .zero], rfl⟩
          twoAnchorRecord (fun _ => some 16) 0).ret = 1 ∧
      ∃ sb, (flbMpAccessorKeysRemove flbRaGetKvPair ⟨twoAnchorPatterns, [.zero, .zero], rfl⟩
          twoAnchorRecord (fun _ => some 16) 0).out = some sb ∧
        unpack sb.bytes = some (.map () (Obj.eraseKvs
          (removePatterns twoAnchorPatterns twoAnchorRecord)), []) := by
  have hwf : Obj.WFKvs twoAnchorRecord := by
    simp [twoAnchorRecord, sharedAnchorRecord, Obj.WFKvs, Obj.WF, Scalar.WF]
  exact ⟨rfl, by decide, by decide, by decide, hwf, fun _ => rfl, ⟨_, List.mem_cons_self _ _, rfl⟩,
    flbMpAccessorKeysRemove_removes 0 rfl (by decide) (by decide) (by decide) hwf (fun _ => rfl)
      ⟨_, List.mem_cons_self _ _, rfl⟩⟩

-- Both entries go, and `c` stays.
example : Obj.eraseKvs (removePatterns twoAnchorPatterns twoAnchorRecord) =
    [(.scalar () (.str [0x61]), .map () [(.scalar () (.str [0x63]), .scalar () (.positiveInteger 2))])] :=
  rfl

/-- On a freshly created accessor, for any patterns at all, one of which locates an entry of a
record whose objects sit at distinct addresses, `flb_mp_accessor_keys_remove` returns `FLB_TRUE`
under an allocator that never refuses and hands back exactly the record with the removals of the
applied patterns: of the patterns that locate something, only the first one of each top-level key
removes what it reaches, and every later one of that key is ignored. -/
theorem flbMpAccessorKeysRemove_removesApplied {ps : List RaPattern}
    {mpa : FlbMpAccessor RaPattern} {kvs : List (Obj Nat × Obj Nat)} {realloc : Nat → Option Nat}
    (tick : Nat) (hc : flbMpAccessorCreate some ps = some mpa) (hd : (Obj.addrsKvs kvs).Nodup)
    (hn : kvs.length < 2 ^ 32) (hwf : Obj.WFKvs kvs) (hr : ∀ t, (realloc t).isSome)
    (hloc : ∃ P ∈ ps, (flbRaGetKvPair P kvs).isSome) :
    (flbMpAccessorKeysRemove flbRaGetKvPair mpa kvs realloc tick).ret = 1 ∧
      ∃ sb, (flbMpAccessorKeysRemove flbRaGetKvPair mpa kvs realloc tick).out = some sb ∧
        unpack sb.bytes =
          some (.map () (Obj.eraseKvs (removePatterns (appliedPatterns kvs ps) kvs)), []) := by
  obtain ⟨hret, ht, sb, hsb, hen⟩ := flbMpAccessorKeysRemove_fresh tick hc hn hwf hr hloc
  rw [keysRemoveKvs_removePatterns (appliedPatterns_nodup kvs ps) hd
    (keysRemoveKvs_anchor_applied ht hd) [] kvs rfl] at hen
  exact ⟨hret, sb, hsb, by simpa using unpack_encodes hen []⟩

/-- `$a['x']`, which locates nothing, then `$a['b']`, `$a['c']` and `$d`: the first two that
locate something under `a` and `d` are applied, and `$a['c']` is ignored. -/
def firstAnchorPatterns : List RaPattern :=
  [⟨[0x61], [.key [0x78]]⟩, ⟨[0x61], [.key [0x62]]⟩, ⟨[0x61], [.key [0x63]]⟩, ⟨[0x64], []⟩]

theorem flbMpAccessorKeysRemove_removesApplied_four :
    flbMpAccessorCreate some firstAnchorPatterns =
        some ⟨firstAnchorPatterns, [.zero, .zero, .zero, .zero], rfl⟩ ∧
      (Obj.addrsKvs twoAnchorRecord).Nodup ∧ twoAnchorRecord.length < 2 ^ 32 ∧
      Obj.WFKvs twoAnchorRecord ∧ (∀ t, ((fun _ => some 16 : Nat → Option Nat) t).isSome) ∧
      (∃ P ∈ firstAnchorPatterns, (flbRaGetKvPair P twoAnchorRecord).isSome) ∧
      (flbMpAccessorKeysRemove flbRaGetKvPair ⟨firstAnchorPatterns, [.zero, .zero, .zero, .zero], rfl⟩
          twoAnchorRecord (fun _ => some 16) 0).ret = 1 ∧
      ∃ sb, (flbMpAccessorKeysRemove flbRaGetKvPair
          ⟨firstAnchorPatterns, [.zero, .zero, .zero, .zero], rfl⟩
          twoAnchorRecord (fun _ => some 16) 0).out = some sb ∧
        unpack sb.bytes = some (.map () (Obj.eraseKvs
          (removePatterns (appliedPatterns twoAnchorRecord firstAnchorPatterns) twoAnchorRecord)), []) := by
  have hwf : Obj.WFKvs twoAnchorRecord := by
    simp [twoAnchorRecord, sharedAnchorRecord, Obj.WFKvs, Obj.WF, Scalar.WF]
  have hloc : ∃ P ∈ firstAnchorPatterns, (flbRaGetKvPair P twoAnchorRecord).isSome :=
    ⟨_, List.mem_cons_of_mem _ (List.mem_cons_self _ _), rfl⟩
  exact ⟨rfl, by decide, by decide, hwf, fun _ => rfl, hloc,
    flbMpAccessorKeysRemove_removesApplied 0 rfl (by decide) (by decide) hwf (fun _ => rfl) hloc⟩

-- `$a['b']` and `$d` are applied; `c` stays, though `$a['c']` reaches it.
example : appliedPatterns twoAnchorRecord firstAnchorPatterns =
      [⟨[0x61], [.key [0x62]]⟩, ⟨[0x64], []⟩] ∧
    Obj.eraseKvs (removePatterns (appliedPatterns twoAnchorRecord firstAnchorPatterns)
      twoAnchorRecord) =
      [(.scalar () (.str [0x61]), .map () [(.scalar () (.str [0x63]), .scalar () (.positiveInteger 2))])] :=
  ⟨rfl, rfl⟩

end FluentBit.Mp
