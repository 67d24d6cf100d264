import FluentBit.Mp.KeysRemove

/-!
The match table across calls. `flb_mp_accessor_create` allocates the slots once, and each call of
`flb_mp_accessor_keys_remove` sets the slot of every record accessor that locates an entry of its
record and leaves the others as they are: nothing clears a slot. After any sequence of calls, a
slot holds what the last call whose record accessor located an entry wrote there, or what it held
before the first call. A stale slot matters only for a record that some rule does not locate: when
every rule locates an entry, a reused accessor behaves as a fresh one. And it matters only when it
starts at a top-level key of the record, since the second loop reads the table only through the
first set slot that starts at each key: a record none of whose keys sits where a key of an earlier
record sat is handled as by a fresh accessor.
-/

namespace FluentBit.Mp

open Msgpack

section Calls

variable {Ra : Type} (flbRaGetKvPair : Ra → List (Obj Nat × Obj Nat) → Option (Nat × Nat))

/-- The accessor after successive calls of `flb_mp_accessor_keys_remove` on the records `rs`, the
allocator's clock carried from each call to the next. -/
def keysRemoveCalls (realloc : Nat → Option Nat) (mpa : FlbMpAccessor Ra) (tick : Nat) :
    List (List (Obj Nat × Obj Nat)) → FlbMpAccessor Ra
  | [] => mpa
  | kvs :: rs =>
      keysRemoveCalls realloc (flbMpAccessorKeysRemove flbRaGetKvPair mpa kvs realloc tick).mpa
        (flbMpAccessorKeysRemove flbRaGetKvPair mpa kvs realloc tick).tick rs

section OneCall

variable (mpa : FlbMpAccessor Ra) (kvs : List (Obj Nat × Obj Nat)) (realloc : Nat → Option Nat)
  (tick : Nat)

theorem flbMpAccessorKeysRemove_mpa : (flbMpAccessorKeysRemove flbRaGetKvPair mpa kvs realloc tick).mpa =
    if kvs = [] then mpa else registerMatches flbRaGetKvPair kvs mpa := by
  rw [flbMpAccessorKeysRemove_eq]
  split_ifs <;> rfl

theorem flbMpAccessorKeysRemove_raList :
    (flbMpAccessorKeysRemove flbRaGetKvPair mpa kvs realloc tick).mpa.raList = mpa.raList := by
  rw [flbMpAccessorKeysRemove_mpa]
  split_ifs <;> rfl

theorem flbMpAccessorKeysRemove_slot {i : Nat} {ra : Ra} (h : mpa.raList[i]? = some ra) :
    (flbMpAccessorKeysRemove flbRaGetKvPair mpa kvs realloc tick).mpa.matchTable[i]? =
      match if kvs = [] then none else flbRaGetKvPair ra kvs with
      | some (s, k) => some ⟨true, some s, some k⟩
      | none => mpa.matchTable[i]? := by
  have hlt : i < mpa.matchTable.length :=
    mpa.matchTable_length ▸ (List.getElem?_eq_some_iff.mp h).1
  rw [flbMpAccessorKeysRemove_mpa]
  by_cases hk : kvs = []
  · simp [hk]
  · simp only [hk, if_false, registerMatches, List.getElem?_zipWith, h,
      List.getElem?_eq_getElem hlt, registerMatch]
    rcases flbRaGetKvPair ra kvs with _ | ⟨s, k⟩ <;> rfl

end OneCall

/-- After any sequence of calls, the slot of rule `ra` holds what the last call whose record
`ra` located an entry of wrote there, or, when there was none, what it held before. -/
theorem keysRemoveCalls_slot (realloc : Nat → Option Nat) :
    ∀ (rs : List (List (Obj Nat × Obj Nat))) (mpa : FlbMpAccessor Ra) (tick : Nat) {i : Nat}
      {ra : Ra}, mpa.raList[i]? = some ra →
    (keysRemoveCalls flbRaGetKvPair realloc mpa tick rs).matchTable[i]? =
      match (rs.filterMap fun kvs => if kvs = [] then none else flbRaGetKvPair ra kvs).getLast? with
      | some (s, k) => some ⟨true, some s, some k⟩
      | none => mpa.matchTable[i]?
  | [], _, _, _, _, _ => rfl
  | kvs :: rs, mpa, tick, i, ra, h => by
      rw [keysRemoveCalls, keysRemoveCalls_slot realloc rs _ _
        ((flbMpAccessorKeysRemove_raList flbRaGetKvPair mpa kvs realloc tick).symm ▸ h),
        flbMpAccessorKeysRemove_slot flbRaGetKvPair mpa kvs realloc tick h, List.filterMap_cons]
      generalize (if kvs = [] then none else flbRaGetKvPair ra kvs) = g
      generalize List.filterMap _ rs = later
      cases g with
      | none => rfl
      | some sk =>
          rw [List.getLast?_cons]
          cases later.getLast? <;> rfl

theorem zipWith_registerMatch_located (kvs : List (Obj Nat × Obj Nat)) :
    ∀ (ras : List Ra) (ms ms' : List FlbMpAccessorMatch), ms.length = ras.length →
      ms'.length = ras.length → (∀ ra ∈ ras, (flbRaGetKvPair ra kvs).isSome) →
      List.zipWith (registerMatch flbRaGetKvPair kvs) ras ms =
        List.zipWith (registerMatch flbRaGetKvPair kvs) ras ms'
  | [], [], [], _, _, _ => rfl
  | ra :: ras, _ :: ms, _ :: ms', hl, hl', h => by
      obtain ⟨⟨s, k⟩, hsk⟩ := Option.isSome_iff_exists.mp (h ra (List.mem_cons_self _ _))
      simp only [List.zipWith_cons_cons, registerMatch, hsk,
        zipWith_registerMatch_located kvs ras ms ms' (Nat.succ.inj hl) (Nat.succ.inj hl')
          fun r hr => h r (List.mem_cons_of_mem _ hr)]
  | [], _ :: _, _, hl, _, _ | _ :: _, [], _, hl, _, _ => absurd hl (by simp)
  | [], [], _ :: _, _, hl', _ | _ :: _, _ :: _, [], _, hl', _ => absurd hl' (by simp)

/-- A call on a record in which every rule of the accessor locates an entry does not depend on
what the slots held: a reused accessor returns, hands back and leaves what a fresh one does. -/
theorem flbMpAccessorKeysRemove_reused {mpa mpa' : FlbMpAccessor Ra}
    {kvs : List (Obj Nat × Obj Nat)} (realloc : Nat → Option Nat) (tick : Nat)
    (hra : mpa.raList = mpa'.raList) (hne : kvs ≠ [])
    (hall : ∀ ra ∈ mpa.raList, (flbRaGetKvPair ra kvs).isSome) :
    flbMpAccessorKeysRemove flbRaGetKvPair mpa kvs realloc tick =
      flbMpAccessorKeysRemove flbRaGetKvPair mpa' kvs realloc tick := by
  have hreg : registerMatches flbRaGetKvPair kvs mpa = registerMatches flbRaGetKvPair kvs mpa' := by
    obtain ⟨ras, ms, hl⟩ := mpa
    obtain ⟨ras', ms', hl'⟩ := mpa'
    obtain rfl : ras = ras' := hra
    simp only [registerMatches, FlbMpAccessor.mk.injEq, true_and]
    exact zipWith_registerMatch_located flbRaGetKvPair kvs ras ms ms' hl hl' hall
  simp only [flbMpAccessorKeysRemove_eq, if_neg hne, hreg, hra]

/-- A slot that is set starts at no top-level key of the record. -/
def SlotOutside (kvs : List (Obj Nat × Obj Nat)) (m : FlbMpAccessorMatch) : Prop :=
  m.matched = true → ∀ kv ∈ kvs, m.startKey ≠ some kv.1.ann

theorem findIdx?_congr {α : Type} {p : α → Bool} {d : α} : ∀ {l l' : List α},
    List.Forall₂ (fun a b => a = b ∨ (p a = false ∧ p b = false)) l l' →
    l.findIdx? p = l'.findIdx? p ∧ ∀ j, l.findIdx? p = some j → l.getD j d = l'.getD j d
  | [], [], .nil => ⟨rfl, fun _ _ => rfl⟩
  | a :: l, b :: l', .cons hab h => by
      obtain ⟨ih, ihd⟩ := findIdx?_congr h
      rcases hab with rfl | ⟨ha, hb⟩
      · refine ⟨by simp only [List.findIdx?_cons, List.findIdx?_succ, ih], fun j hj => ?_⟩
        simp only [List.findIdx?_cons, List.findIdx?_succ] at hj
        split at hj
        · cases hj; rfl
        · obtain ⟨j', hj', rfl⟩ := Option.map_eq_some'.mp hj
          exact ihd j' hj'
      · simp only [List.findIdx?_cons, List.findIdx?_succ, ha, hb, Bool.false_eq_true, if_false]
        refine ⟨by rw [ih], fun j hj => ?_⟩
        obtain ⟨j', hj', rfl⟩ := Option.map_eq_some'.mp hj
        exact ihd j' hj'

theorem forall₂_registerMatch (kvs : List (Obj Nat × Obj Nat)) (key : Nat)
    (hkey : ∀ m, SlotOutside kvs m → (m.matched && m.startKey == some key) = false) :
    ∀ (ras : List Ra) (ms ms' : List FlbMpAccessorMatch), ms.length = ras.length →
      ms'.length = ras.length → (∀ m ∈ ms, SlotOutside kvs m) → (∀ m ∈ ms', SlotOutside kvs m) →
      List.Forall₂ (fun a b => a = b ∨ ((a.matched && a.startKey == some key) = false ∧
          (b.matched && b.startKey == some key) = false))
        (List.zipWith (registerMatch flbRaGetKvPair kvs) ras ms)
        (List.zipWith (registerMatch flbRaGetKvPair kvs) ras ms')
  | [], [], [], _, _, _, _ => .nil
  | ra :: ras, m :: ms, m' :: ms', hl, hl', h, h' => by
      refine .cons ?_ (forall₂_registerMatch kvs key hkey ras ms ms' (Nat.succ.inj hl)
        (Nat.succ.inj hl') (fun x hx => h x (List.mem_cons_of_mem _ hx))
        (fun x hx => h' x (List.mem_cons_of_mem _ hx)))
      unfold registerMatch
      split
      · exact .inl rfl
      · exact .inr ⟨hkey m (h m (List.mem_cons_self _ _)), hkey m' (h' m' (List.mem_cons_self _ _))⟩
  | [], _ :: _, _, hl, _, _, _ | _ :: _, [], _, hl, _, _, _ => absurd hl (by simp)
  | [], [], _ :: _, _, hl', _, _ | _ :: _, _ :: _, [], _, hl', _, _ => absurd hl' (by simp)

theorem keysRemoveLoop_congr {mpa mpa' : FlbMpAccessor Ra} : ∀ {kvs : List (Obj Nat × Obj Nat)},
    (∀ kv ∈ kvs, mpa.matchTable.findIdx? (fun m => m.matched && m.startKey == some kv.1.ann) =
        mpa'.matchTable.findIdx? (fun m => m.matched && m.startKey == some kv.1.ann) ∧
      ∀ j, mpa.matchTable.findIdx? (fun m => m.matched && m.startKey == some kv.1.ann) = some j →
        mpa.matchTable.getD j .zero = mpa'.matchTable.getD j .zero) →
    ∀ mh, keysRemoveLoop mpa kvs mh = keysRemoveLoop mpa' kvs mh
  | [], _, _ => rfl
  | (k, v) :: kvs, h, mh => by
      obtain ⟨hf, hs⟩ := h (k, v) (List.mem_cons_self _ _)
      have ih := keysRemoveLoop_congr fun kv hkv => h kv (List.mem_cons_of_mem _ hkv)
      simp only [keysRemoveLoop, accessorKeyFindMatch, ← hf, ih]
      cases hj : mpa.matchTable.findIdx? (fun m => m.matched && m.startKey == some k.ann) with
      | none => rfl
      | some j => simp only [hs j hj, Int.toNat_ofNat]

theorem flbMpAccessorKeysRemove_outside {mpa mpa' : FlbMpAccessor Ra}
    {kvs : List (Obj Nat × Obj Nat)} (realloc : Nat → Option Nat) (tick : Nat)
    (hra : mpa.raList = mpa'.raList) (h : ∀ m ∈ mpa.matchTable, SlotOutside kvs m)
    (h' : ∀ m ∈ mpa'.matchTable, SlotOutside kvs m) :
    (flbMpAccessorKeysRemove flbRaGetKvPair mpa kvs realloc tick).ret =
        (flbMpAccessorKeysRemove flbRaGetKvPair mpa' kvs realloc tick).ret ∧
      (flbMpAccessorKeysRemove flbRaGetKvPair mpa kvs realloc tick).out =
        (flbMpAccessorKeysRemove flbRaGetKvPair mpa' kvs realloc tick).out ∧
      (flbMpAccessorKeysRemove flbRaGetKvPair mpa kvs realloc tick).tick =
        (flbMpAccessorKeysRemove flbRaGetKvPair mpa' kvs realloc tick).tick := by
  have hloop : ∀ mh, keysRemoveLoop (registerMatches flbRaGetKvPair kvs mpa) kvs mh =
      keysRemoveLoop (registerMatches flbRaGetKvPair kvs mpa') kvs mh := by
    refine keysRemoveLoop_congr fun kv hkv => findIdx?_congr ?_
    obtain ⟨ras, ms, hl⟩ := mpa
    obtain ⟨ras', ms', hl'⟩ := mpa'
    obtain rfl : ras = ras' := hra
    -- A slot outside the record never starts at one of its keys.
    refine forall₂_registerMatch flbRaGetKvPair kvs kv.1.ann (fun m hm => ?_) ras ms ms' hl hl' h h'
    cases hmt : m.matched
    · rfl
    · simpa using hm hmt kv hkv
  rw [flbMpAccessorKeysRemove_eq, flbMpAccessorKeysRemove_eq, hra]
  split_ifs <;> simp only [funext hloop, and_self]

theorem keysRemoveCalls_raList (realloc : Nat → Option Nat) :
    ∀ (rs : List (List (Obj Nat × Obj Nat))) (mpa : FlbMpAccessor Ra) (tick : Nat),
      (keysRemoveCalls flbRaGetKvPair realloc mpa tick rs).raList = mpa.raList
  | [], _, _ => rfl
  | kvs :: rs, mpa, tick => (keysRemoveCalls_raList realloc rs _ _).trans
      (flbMpAccessorKeysRemove_raList flbRaGetKvPair mpa kvs realloc tick)

theorem keysRemoveCalls_set (realloc : Nat → Option Nat) (rs : List (List (Obj Nat × Obj Nat)))
    (mpa : FlbMpAccessor Ra) (tick : Nat) {m : FlbMpAccessorMatch}
    (hm : m ∈ (keysRemoveCalls flbRaGetKvPair realloc mpa tick rs).matchTable) :
    m ∈ mpa.matchTable ∨
      ∃ ra ∈ mpa.raList, ∃ r ∈ rs, ∃ s k, flbRaGetKvPair ra r = some (s, k) ∧ m.startKey = some s := by
  obtain ⟨i, hi⟩ := List.mem_iff_getElem?.mp hm
  have hlt : i < mpa.raList.length := by
    have := (List.getElem?_eq_some_iff.mp hi).1
    rwa [(keysRemoveCalls flbRaGetKvPair realloc mpa tick rs).matchTable_length,
      keysRemoveCalls_raList] at this
  have hra := List.getElem?_eq_getElem hlt
  rw [keysRemoveCalls_slot flbRaGetKvPair realloc rs mpa tick hra] at hi
  split at hi
  · next s k hlast =>
    obtain ⟨r, hr, hrk⟩ := List.mem_filterMap.mp (List.mem_of_getLast?_eq_some hlast)
    have hne : ¬r = [] := fun h => by simp [h] at hrk
    rw [if_neg hne] at hrk
    cases hi
    exact .inr ⟨_, List.getElem_mem hlt, r, hr, s, k, hrk, rfl⟩
  · exact .inl (List.getElem?_mem hi)

end Calls

open Ra

/-- `{"w": 0, "x": 1}`, its objects at addresses 101 to 104. -/
def staleFirstRecord : List (Obj Nat × Obj Nat) :=
  [(.scalar 101 (.str [0x77]), .scalar 102 (.positiveInteger 0)),
    (.scalar 103 (.str [0x78]), .scalar 104 (.positiveInteger 1))]

/-- `{"y": 2, "q": 3}`, laid out where the first record was, as when an unpacker zone is
reused. -/
def staleSecondRecord : List (Obj Nat × Obj Nat) :=
  [(.scalar 101 (.str [0x79]), .scalar 102 (.positiveInteger 2)),
    (.scalar 103 (.str [0x71]), .scalar 104 (.positiveInteger 3))]

/-- After `$x` matched the first record, its slot still starts at address 103, where the second
record keeps `q`: the reused accessor removes `q`, a fresh one keeps it. -/
theorem flbMpAccessorKeysRemove_staleSlot :
    (flbMpAccessorCreate some [(⟨[0x78], []⟩ : RaPattern), ⟨[0x79], []⟩]).map (fun mpa =>
      let first := flbMpAccessorKeysRemove flbRaGetKvPair mpa staleFirstRecord (fun _ => some 16) 0
      (flbMpAccessorKeysRemove flbRaGetKvPair first.mpa staleSecondRecord (fun _ => some 16)
        first.tick).out.map (unpack ·.bytes)) = some (some (some (.map () [], []))) ∧
    (flbMpAccessorCreate some [(⟨[0x78], []⟩ : RaPattern), ⟨[0x79], []⟩]).map (fun mpa =>
      (flbMpAccessorKeysRemove flbRaGetKvPair mpa staleSecondRecord (fun _ => some 16) 0).out.map
        (unpack ·.bytes)) =
      some (some (some (.map () [(.scalar () (.str [0x71]), .scalar () (.positiveInteger 3))],
        []))) := by
  decide

theorem keysRemoveCalls_slot_stale :
    [(⟨[0x78], []⟩ : RaPattern), ⟨[0x79], []⟩][0]? = some ⟨[0x78], []⟩ ∧
      (keysRemoveCalls flbRaGetKvPair (fun _ => some 16)
        ⟨[⟨[0x78], []⟩, ⟨[0x79], []⟩], [.zero, .zero], rfl⟩ 0
        [staleFirstRecord, staleSecondRecord]).matchTable[0]? = some ⟨true, some 103, some 103⟩ :=
  ⟨rfl, (keysRemoveCalls_slot flbRaGetKvPair (fun _ => some 16) _ _ 0 rfl).trans (by decide)⟩

/-- `{"x": 5, "y": 6}`, laid out where the first record was. -/
def staleBothRecord : List (Obj Nat × Obj Nat) :=
  [(.scalar 101 (.str [0x78]), .scalar 102 (.positiveInteger 5)),
    (.scalar 103 (.str [0x79]), .scalar 104 (.positiveInteger 6))]

theorem flbMpAccessorKeysRemove_reused_stale :
    (flbMpAccessorKeysRemove flbRaGetKvPair ⟨[⟨[0x78], []⟩, ⟨[0x79], []⟩], [.zero, .zero], rfl⟩
        staleFirstRecord (fun _ => some 16) 0).mpa.raList = [⟨[0x78], []⟩, ⟨[0x79], []⟩] ∧
      staleBothRecord ≠ [] ∧
      (∀ ra ∈ (flbMpAccessorKeysRemove flbRaGetKvPair
        ⟨[⟨[0x78], []⟩, ⟨[0x79], []⟩], [.zero, .zero], rfl⟩ staleFirstRecord (fun _ => some 16)
          0).mpa.raList, (flbRaGetKvPair ra staleBothRecord).isSome) ∧
      flbMpAccessorKeysRemove flbRaGetKvPair (flbMpAccessorKeysRemove flbRaGetKvPair
          ⟨[⟨[0x78], []⟩, ⟨[0x79], []⟩], [.zero, .zero], rfl⟩ staleFirstRecord (fun _ => some 16)
          0).mpa staleBothRecord (fun _ => some 16) 0 =
        flbMpAccessorKeysRemove flbRaGetKvPair ⟨[⟨[0x78], []⟩, ⟨[0x79], []⟩], [.zero, .zero], rfl⟩
          staleBothRecord (fun _ => some 16) 0 :=
  ⟨rfl, by decide, by decide, flbMpAccessorKeysRemove_reused flbRaGetKvPair _ 0 rfl (by decide)
    (by decide)⟩

theorem flbRaGetKvPair_start {P : RaPattern} {r : List (Obj Nat × Obj Nat)} {s k : Nat}
    (h : flbRaGetKvPair P r = some (s, k)) : ∃ kv ∈ r, kv.1.ann = s := by
  obtain ⟨kv, hf, hl⟩ := Option.bind_eq_some.mp h
  obtain ⟨_, -, he⟩ := Option.map_eq_some'.mp hl
  exact ⟨kv, List.mem_of_find?_eq_some hf, (Prod.mk.inj he).1⟩

/-- Whatever records an accessor was used on before, a call on a record none of whose top-level
keys sits where a top-level key of an earlier record sat returns the same value, hands back the
same buffer and leaves the allocator's clock at the same point as the call with the freshly
created accessor: stale slots matter only when addresses are reused. -/
theorem keysRemoveCalls_unrecycled {ps : List RaPattern} {mpa : FlbMpAccessor RaPattern}
    (hc : flbMpAccessorCreate some ps = some mpa) (realloc : Nat → Option Nat) (tick tick' : Nat)
    (rs : List (List (Obj Nat × Obj Nat))) (kvs : List (Obj Nat × Obj Nat))
    (hfresh : ∀ r ∈ rs, ∀ kv ∈ r, ∀ kv' ∈ kvs, kv.1.ann ≠ kv'.1.ann) :
    (flbMpAccessorKeysRemove flbRaGetKvPair (keysRemoveCalls flbRaGetKvPair realloc mpa tick rs)
        kvs realloc tick').ret = (flbMpAccessorKeysRemove flbRaGetKvPair mpa kvs realloc tick').ret ∧
      (flbMpAccessorKeysRemove flbRaGetKvPair (keysRemoveCalls flbRaGetKvPair realloc mpa tick rs)
        kvs realloc tick').out = (flbMpAccessorKeysRemove flbRaGetKvPair mpa kvs realloc tick').out ∧
      (flbMpAccessorKeysRemove flbRaGetKvPair (keysRemoveCalls flbRaGetKvPair realloc mpa tick rs)
        kvs realloc tick').tick =
        (flbMpAccessorKeysRemove flbRaGetKvPair mpa kvs realloc tick').tick := by
  have hmpa := (Option.some.inj ((flbMpAccessorCreate_some ps).symm.trans hc)).symm
  -- The created table is zeroed: none of its slots is set.
  have hunset : ∀ m ∈ mpa.matchTable, m.matched ≠ true := fun m hm => by
    rw [hmpa] at hm; rw [List.eq_of_mem_replicate hm]; decide
  refine flbMpAccessorKeysRemove_outside flbRaGetKvPair realloc tick'
    (keysRemoveCalls_raList flbRaGetKvPair realloc rs mpa tick) (fun m hm hmt kv' hkv' hs => ?_)
    (fun m hm hmt => (hunset m hm hmt).elim)
  rcases keysRemoveCalls_set flbRaGetKvPair realloc rs mpa tick hm with hm | ⟨ra, -, r, hr, s, k, hrk, hst⟩
  · exact (hunset m hm hmt).elim
  · -- A set slot starts at a key of an earlier record, where no key of this record sits.
    obtain ⟨kv, hkv, rfl⟩ := flbRaGetKvPair_start hrk
    exact hfresh r hr kv hkv kv' hkv' (Option.some.inj (hst.symm.trans hs))

/-- `{"y": 2, "q": 3}` at addresses 201 to 204, where nothing of the first record was. -/
def movedSecondRecord : List (Obj Nat × Obj Nat) :=
  [(.scalar 201 (.str [0x79]), .scalar 202 (.positiveInteger 2)),
    (.scalar 203 (.str [0x71]), .scalar 204 (.positiveInteger 3))]

theorem keysRemoveCalls_unrecycled_moved :
    flbMpAccessorCreate some [(⟨[0x78], []⟩ : RaPattern), ⟨[0x79], []⟩] =
        some ⟨[⟨[0x78], []⟩, ⟨[0x79], []⟩], [.zero, .zero], rfl⟩ ∧
      (∀ r ∈ [staleFirstRecord], ∀ kv ∈ r, ∀ kv' ∈ movedSecondRecord, kv.1.ann ≠ kv'.1.ann) ∧
      (flbMpAccessorKeysRemove flbRaGetKvPair (keysRemoveCalls flbRaGetKvPair (fun _ => some 16)
          ⟨[⟨[0x78], []⟩, ⟨[0x79], []⟩], [.zero, .zero], rfl⟩ 0 [staleFirstRecord])
          movedSecondRecord (fun _ => some 16) 5).ret =
        (flbMpAccessorKeysRemove flbRaGetKvPair ⟨[⟨[0x78], []⟩, ⟨[0x79], []⟩], [.zero, .zero], rfl⟩
          movedSecondRecord (fun _ => some 16) 5).ret ∧
      (flbMpAccessorKeysRemove flbRaGetKvPair (keysRemoveCalls flbRaGetKvPair (fun _ => some 16)
          ⟨[⟨[0x78], []⟩, ⟨[0x79], []⟩], [.zero, .zero], rfl⟩ 0 [staleFirstRecord])
          movedSecondRecord (fun _ => some 16) 5).out =
        (flbMpAccessorKeysRemove flbRaGetKvPair ⟨[⟨[0x78], []⟩, ⟨[0x79], []⟩], [.zero, .zero], rfl⟩
          movedSecondRecord (fun _ => some 16) 5).out ∧
      (flbMpAccessorKeysRemove flbRaGetKvPair (keysRemoveCalls flbRaGetKvPair (fun _ => some 16)
          ⟨[⟨[0x78], []⟩, ⟨[0x79], []⟩], [.zero, .zero], rfl⟩ 0 [staleFirstRecord])
          movedSecondRecord (fun _ => some 16) 5).tick =
        (flbMpAccessorKeysRemove flbRaGetKvPair ⟨[⟨[0x78], []⟩, ⟨[0x79], []⟩], [.zero, .zero], rfl⟩
          movedSecondRecord (fun _ => some 16) 5).tick :=
  have hc : flbMpAccessorCreate some [(⟨[0x78], []⟩ : RaPattern), ⟨[0x79], []⟩] =
      some ⟨[⟨[0x78], []⟩, ⟨[0x79], []⟩], [.zero, .zero], rfl⟩ := rfl
  ⟨hc, by decide, keysRemoveCalls_unrecycled hc _ 0 5 _ _ (by decide)⟩

end FluentBit.Mp
