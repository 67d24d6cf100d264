import FluentBit.Msgpack.Pack

/-!
A standard msgpack decoder, written from the format's tables: `readTag` reads one header (and
the body of a scalar), `unpackObject` reads a whole object. `Encodes o bs` says that `bs` is
a msgpack encoding of `o` in any of the formats wide enough for its lengths; every such
encoding decodes back to `o`, whatever bytes follow it.
-/

namespace FluentBit.Msgpack

/-- What one msgpack header says: a complete scalar, or the entry count of a container. -/
inductive Tag where
  | scalar (s : Scalar)
  | array (n : Nat)
  | map (n : Nat)
  deriving DecidableEq

/-- The next `n` bytes, or nothing when fewer are left. -/
def readBytes (n : Nat) (bs : List UInt8) : Option (List UInt8 × List UInt8) :=
  if n ≤ bs.length then some (bs.take n, bs.drop n) else none

/-- An unsigned big-endian field of `w` bytes. -/
def readUint (w : Nat) (bs : List UInt8) : Option (Nat × List UInt8) :=
  (readBytes w bs).map fun (f, r) => (loadBE f, r)

/-- A two's complement field of `w` bytes. -/
def readInt (w : Nat) (bs : List UInt8) : Option (Int × List UInt8) :=
  (readUint w bs).map fun (u, r) => (if u < 2 ^ (8 * w - 1) then (u : Int) else u - 2 ^ (8 * w), r)

/-- A `w`-byte length, then that many bytes. -/
def readBody (w : Nat) (bs : List UInt8) : Option (List UInt8 × List UInt8) := do
  let (l, r) ← readUint w bs
  readBytes l r

/-- The signed formats give `NEGATIVE_INTEGER` below zero and `POSITIVE_INTEGER` otherwise. -/
def intScalar (i : Int) : Scalar :=
  if i < 0 then .negativeInteger i else .positiveInteger i.toNat

/-- An extension type byte and `l` bytes of data. -/
def readExtBody (l : Nat) (bs : List UInt8) : Option (Tag × List UInt8) := do
  let (t, r) ← readInt 1 bs
  let (d, r) ← readBytes l r
  pure (.scalar (.ext t d), r)

/-- The formats `0xc0` to `0xdf`, named by their first byte `h`. -/
def readFormat (h : Nat) (bs : List UInt8) : Option (Tag × List UInt8) :=
  match h with
  | 0xc0 => some (.scalar .nil, bs)
  | 0xc2 => some (.scalar (.boolean false), bs)
  | 0xc3 => some (.scalar (.boolean true), bs)
  | 0xc4 => (readBody 1 bs).map fun (d, r) => (.scalar (.bin d), r)
  | 0xc5 => (readBody 2 bs).map fun (d, r) => (.scalar (.bin d), r)
  | 0xc6 => (readBody 4 bs).map fun (d, r) => (.scalar (.bin d), r)
  | 0xc7 => (readUint 1 bs).bind fun (l, r) => readExtBody l r
  | 0xc8 => (readUint 2 bs).bind fun (l, r) => readExtBody l r
  | 0xc9 => (readUint 4 bs).bind fun (l, r) => readExtBody l r
  | 0xca => (readUint 4 bs).map fun (f, r) => (.scalar (.float32 f), r)
  | 0xcb => (readUint 8 bs).map fun (f, r) => (.scalar (.float64 f), r)
  | 0xcc => (readUint 1 bs).map fun (u, r) => (.scalar (.positiveInteger u), r)
  | 0xcd => (readUint 2 bs).map fun (u, r) => (.scalar (.positiveInteger u), r)
  | 0xce => (readUint 4 bs).map fun (u, r) => (.scalar (.positiveInteger u), r)
  | 0xcf => (readUint 8 bs).map fun (u, r) => (.scalar (.positiveInteger u), r)
  | 0xd0 => (readInt 1 bs).map fun (i, r) => (.scalar (intScalar i), r)
  | 0xd1 => (readInt 2 bs).map fun (i, r) => (.scalar (intScalar i), r)
  | 0xd2 => (readInt 4 bs).map fun (i, r) => (.scalar (intScalar i), r)
  | 0xd3 => (readInt 8 bs).map fun (i, r) => (.scalar (intScalar i), r)
  | 0xd4 => readExtBody 1 bs
  | 0xd5 => readExtBody 2 bs
  | 0xd6 => readExtBody 4 bs
  | 0xd7 => readExtBody 8 bs
  | 0xd8 => readExtBody 16 bs
  | 0xd9 => (readBody 1 bs).map fun (s, r) => (.scalar (.str s), r)
  | 0xda => (readBody 2 bs).map fun (s, r) => (.scalar (.str s), r)
  | 0xdb => (readBody 4 bs).map fun (s, r) => (.scalar (.str s), r)
  | 0xdc => (readUint 2 bs).map fun (n, r) => (.array n, r)
  | 0xdd => (readUint 4 bs).map fun (n, r) => (.array n, r)
  | 0xde => (readUint 2 bs).map fun (n, r) => (.map n, r)
  | 0xdf => (readUint 4 bs).map fun (n, r) => (.map n, r)
  | _ => none

/-- One header: the fixed formats are told apart by the high bits of the first byte. -/
def readTag : List UInt8 → Option (Tag × List UInt8)
  | [] => none
  | b :: bs =>
      let h := b.toNat
      if h < 0x80 then some (.scalar (.positiveInteger h), bs)
      else if h < 0x90 then some (.map (h - 0x80), bs)
      else if h < 0xa0 then some (.array (h - 0x90), bs)
      else if h < 0xc0 then (readBytes (h - 0xa0) bs).map fun (s, r) => (.scalar (.str s), r)
      else if 0xe0 ≤ h then some (.scalar (.negativeInteger (h - 256)), bs)
      else readFormat h bs

/-- `n` items read one after another by `f`. -/
def readMany {β : Type} (f : List UInt8 → Option (β × List UInt8)) :
    Nat → List UInt8 → Option (List β × List UInt8)
  | 0, bs => some ([], bs)
  | n + 1, bs => do
      let (x, r) ← f bs
      let (xs, r) ← readMany f n r
      pure (x :: xs, r)

/-- A key, then its value. -/
def readPair {β : Type} (f : List UInt8 → Option (β × List UInt8)) (bs : List UInt8) :
    Option ((β × β) × List UInt8) := do
  let (k, r) ← f bs
  let (v, r) ← f r
  pure ((k, v), r)

/-- One object, nested at most `fuel` levels deep. -/
def unpackObject : Nat → List UInt8 → Option (Obj Unit × List UInt8)
  | 0, _ => none
  | fuel + 1, bs =>
      match readTag bs with
      | some (.scalar s, r) => some (.scalar () s, r)
      | some (.array n, r) =>
          (readMany (unpackObject fuel) n r).map fun (xs, r) => (.array () xs, r)
      | some (.map n, r) =>
          (readMany (readPair (unpackObject fuel)) n r).map fun (kvs, r) => (.map () kvs, r)
      | none => none

/-- Decoding the first object of a buffer: each level of nesting takes at least one byte. -/
def unpack (bs : List UInt8) : Option (Obj Unit × List UInt8) := unpackObject bs.length bs

example : unpack [0x82, 0xa1, 0x61, 0x01, 0xa1, 0x62, 0x90] =
    some (.map () [(.scalar () (.str [0x61]), .scalar () (.positiveInteger 1)),
      (.scalar () (.str [0x62]), .array () [])], []) := by decide

section Reading

variable (rest : List UInt8)

@[simp] theorem readBytes_append (s : List UInt8) : readBytes s.length (s ++ rest) = some (s, rest) := by
  simp [readBytes]

@[simp] theorem readUint_storeBE (w n : Nat) :
    readUint w (storeBE w n ++ rest) = some (n % 256 ^ w, rest) := by
  have h := readBytes_append rest (storeBE w n)
  rw [storeBE_length] at h
  simp [readUint, h, loadBE_storeBE]

theorem readInt_storeBE {w : Nat} (hw : w = 1 ∨ w = 2 ∨ w = 4 ∨ w = 8) {i : Int}
    (lo : -2 ^ (8 * w - 1) ≤ i) (hi : i < 2 ^ (8 * w - 1)) :
    readInt w (storeBE w (i % 2 ^ (8 * w)).toNat ++ rest) = some (i, rest) := by
  simp only [readInt, readUint_storeBE, Option.map_some', Option.some.injEq, Prod.mk.injEq,
    and_true]
  rcases hw with rfl | rfl | rfl | rfl <;> split <;> omega

end Reading

/-- `h` is read as the header `t`, whatever follows it. -/
def Heads (h : List UInt8) (t : Tag) : Prop := ∀ rest, readTag (h ++ rest) = some (t, rest)

theorem Heads.length_pos {h : List UInt8} {t : Tag} (hh : Heads h t) : 0 < h.length := by
  cases h with
  | nil => simpa [readTag] using hh []
  | cons => simp

/-- A reader that reads the bytes it consumes the same way whatever follows them. -/
def Prefixed {β : Type} (p : List UInt8 → Option (β × List UInt8)) : Prop :=
  ∀ ⦃bs x r⦄, p bs = some (x, r) → ∃ h, bs = h ++ r ∧ ∀ rest, p (h ++ rest) = some (x, rest)

section Prefixes

variable {β γ : Type} {p : List UInt8 → Option (β × List UInt8)}

theorem prefixed_pure (x : β) : Prefixed fun bs => some (x, bs) := by
  rintro bs y r ⟨⟩
  exact ⟨[], rfl, fun _ => rfl⟩

theorem Prefixed.map (hp : Prefixed p) {f : β × List UInt8 → γ × List UInt8}
    (hf : ∀ x, ∃ y, ∀ r, f (x, r) = (y, r)) : Prefixed fun bs => (p bs).map f := by
  intro bs z r e
  obtain ⟨⟨x, r'⟩, hx, he⟩ := Option.map_eq_some'.mp e
  obtain ⟨y, hy⟩ := hf x
  obtain ⟨rfl, rfl⟩ := Prod.mk.inj ((hy r').symm.trans he)
  obtain ⟨h, rfl, hh⟩ := hp hx
  exact ⟨h, rfl, fun rest => by simp only [hh rest, Option.map_some', hy]⟩

theorem Prefixed.bind (hp : Prefixed p) {q : β × List UInt8 → Option (γ × List UInt8)}
    (hq : ∀ x, Prefixed fun r => q (x, r)) : Prefixed fun bs => (p bs).bind q := by
  intro bs z r e
  obtain ⟨⟨x, r'⟩, hx, hq'⟩ := Option.bind_eq_some.mp e
  obtain ⟨h, rfl, hh⟩ := hp hx
  obtain ⟨h', rfl, hh'⟩ := hq x hq'
  exact ⟨h ++ h', (List.append_assoc _ _ _).symm, fun rest => by
    rw [List.append_assoc, Option.bind_eq_some]; exact ⟨_, hh (h' ++ rest), hh' rest⟩⟩

theorem Prefixed.ite {c : Prop} [Decidable c] {q : List UInt8 → Option (β × List UInt8)}
    (hp : Prefixed p) (hq : Prefixed q) : Prefixed fun bs => if c then p bs else q bs := by
  by_cases hc : c <;> simpa only [hc, if_true, if_false]

theorem prefixed_readBytes (n : Nat) : Prefixed (readBytes n) := by
  intro bs x r e
  unfold readBytes at e
  split at e
  · cases e
    refine ⟨bs.take n, (List.take_append_drop n bs).symm, fun rest => ?_⟩
    have := readBytes_append rest (bs.take n)
    rwa [List.length_take, Nat.min_eq_left ‹_›] at this
  · cases e

theorem prefixed_readUint (w : Nat) : Prefixed (readUint w) :=
  (prefixed_readBytes w).map fun _ => ⟨_, fun _ => rfl⟩

theorem prefixed_readInt (w : Nat) : Prefixed (readInt w) :=
  (prefixed_readUint w).map fun _ => ⟨_, fun _ => rfl⟩

theorem prefixed_readBody (w : Nat) : Prefixed (readBody w) :=
  (prefixed_readUint w).bind prefixed_readBytes

theorem prefixed_readExtBody (l : Nat) : Prefixed (readExtBody l) :=
  (prefixed_readInt 1).bind fun _ => (prefixed_readBytes l).bind fun _ => prefixed_pure _

theorem prefixed_readFormat (c : Nat) : Prefixed (readFormat c) := by
  unfold readFormat
  split
  all_goals first
    | exact (prefixed_readUint _).map fun _ => ⟨_, fun _ => rfl⟩
    | exact (prefixed_readBody _).map fun _ => ⟨_, fun _ => rfl⟩
    | exact prefixed_readExtBody _
    | exact (prefixed_readInt _).map fun _ => ⟨_, fun _ => rfl⟩
    | exact prefixed_pure _
    | exact (prefixed_readUint _).bind fun _ => prefixed_readExtBody _
    | exact fun _ _ _ e => nomatch e

theorem prefixed_readTag : Prefixed readTag := by
  rintro (_ | ⟨b, bs⟩) t r e
  · cases e
  · have hb : Prefixed fun bs => readTag (b :: bs) := by
      simp only [readTag]
      exact .ite (prefixed_pure _) <| .ite (prefixed_pure _) <| .ite (prefixed_pure _) <|
        .ite ((prefixed_readBytes _).map fun s => ⟨.scalar (.str s), fun _ => rfl⟩) <|
        .ite (prefixed_pure _) (prefixed_readFormat _)
    obtain ⟨h, rfl, hh⟩ := hb e
    exact ⟨b :: h, rfl, hh⟩

end Prefixes


theorem readTag_format {b : UInt8} (h1 : 0xc0 ≤ b.toNat) (h2 : b.toNat < 0xe0) (bs : List UInt8) :
    readTag (b :: bs) = readFormat b.toNat bs := by
  simp only [readTag]
  rw [if_neg (by omega), if_neg (by omega), if_neg (by omega), if_neg (by omega), if_neg (by omega)]

theorem heads_format {c : UInt8} {t : Tag} {f : List UInt8} (h1 : 0xc0 ≤ c.toNat)
    (h2 : c.toNat < 0xe0) (h : ∀ rest, readFormat c.toNat (f ++ rest) = some (t, rest)) :
    Heads (c :: f) t := fun rest => by
  rw [List.cons_append, readTag_format h1 h2, h]

section Formats

variable {c : UInt8} (h1 : 0xc0 ≤ c.toNat) (h2 : c.toNat < 0xe0)
include h1 h2

theorem heads_uint {w n : Nat} {t : Nat → Tag}
    (hc : ∀ bs, readFormat c.toNat bs = (readUint w bs).map fun (u, r) => (t u, r))
    (hn : n < 256 ^ w) : Heads (c :: storeBE w n) (t n) :=
  heads_format h1 h2 fun rest => by rw [hc, readUint_storeBE, Nat.mod_eq_of_lt hn]; rfl

theorem heads_int {w : Nat} {i : Int} (hw : w = 1 ∨ w = 2 ∨ w = 4 ∨ w = 8)
    (hc : ∀ bs, readFormat c.toNat bs = (readInt w bs).map fun (i, r) => (.scalar (intScalar i), r))
    (lo : -2 ^ (8 * w - 1) ≤ i) (hi : i < 2 ^ (8 * w - 1)) :
    Heads (c :: storeBE w (i % 2 ^ (8 * w)).toNat) (.scalar (intScalar i)) :=
  heads_format h1 h2 fun rest => by rw [hc, readInt_storeBE rest hw lo hi]; rfl

theorem heads_body {w : Nat} {s : List UInt8} {t : List UInt8 → Tag}
    (hc : ∀ bs, readFormat c.toNat bs = (readBody w bs).map fun (d, r) => (t d, r))
    (hs : s.length < 256 ^ w) : Heads (c :: (storeBE w s.length ++ s)) (t s) :=
  heads_format h1 h2 fun rest => by
    rw [hc, List.append_assoc]
    simp [readBody, Nat.mod_eq_of_lt hs]

end Formats

theorem readExtBody_ext {t : Int} (lo : -128 ≤ t) (hi : t < 128) (d rest : List UInt8) :
    readExtBody d.length (UInt8.ofNat (t % 256).toNat :: (d ++ rest)) =
      some (.scalar (.ext t d), rest) := by
  have h := readInt_storeBE (d ++ rest) (w := 1) (by decide) (i := t) (by simpa using lo)
    (by simpa using hi)
  simp only [Nat.reduceMul, Nat.reducePow, Int.reducePow, storeBE_one, List.singleton_append] at h
  simp [readExtBody, h]

theorem heads_packUint64 {u : Nat} (hu : u < 2 ^ 64) :
    Heads (packUint64 u) (.scalar (.positiveInteger u)) := by
  have posint : ∀ (c : UInt8) (w : Nat), 0xc0 ≤ c.toNat → c.toNat < 0xe0 → u < 256 ^ w →
      (∀ bs, readFormat c.toNat bs =
        (readUint w bs).map fun (u, r) => (.scalar (.positiveInteger u), r)) →
      Heads (c :: storeBE w u) (.scalar (.positiveInteger u)) :=
    fun _ _ h1 h2 hw hc => heads_uint (t := fun u => .scalar (.positiveInteger u)) h1 h2 hc hw
  unfold packUint64
  split_ifs with h8 h7 h16 h32
  · have h : u % 256 = u := Nat.mod_eq_of_lt (by omega)
    exact fun rest => by simp [readTag, h, show u < 128 by omega]
  · rw [← storeBE_one]; exact posint 0xcc 1 (by decide) (by decide) h8 (fun _ => rfl)
  · exact posint 0xcd 2 (by decide) (by decide) h16 (fun _ => rfl)
  · exact posint 0xce 4 (by decide) (by decide) h32 (fun _ => rfl)
  · exact posint 0xcf 8 (by decide) (by decide) hu (fun _ => rfl)

theorem heads_packInt64 {i : Int} (lo : -2 ^ 63 ≤ i) (hi : i < 0) :
    Heads (packInt64 i) (.scalar (.negativeInteger i)) := by
  have neg : intScalar i = .negativeInteger i := if_pos hi
  unfold packInt64
  split_ifs with h5 h15 h31 h7
  · exact neg ▸ heads_int (c := 0xd3) (w := 8) (by decide) (by decide) (by decide) (fun _ => rfl)
      (by omega) (by omega)
  · exact neg ▸ heads_int (c := 0xd2) (w := 4) (by decide) (by decide) (by decide) (fun _ => rfl)
      (by omega) (by omega)
  · exact neg ▸ heads_int (c := 0xd1) (w := 2) (by decide) (by decide) (by decide) (fun _ => rfl)
      (by omega) (by omega)
  · simpa [neg, storeBE_one] using heads_int (c := 0xd0) (w := 1) (i := i) (by decide) (by decide)
      (by decide) (fun _ => rfl) (by omega) (by omega)
  · intro rest
    have hb : (i % 2 ^ 8).toNat % 256 = (i + 256).toNat := by omega
    simp only [List.singleton_append, readTag, uint8_toNat_ofNat, hb]
    rw [if_neg (by omega), if_neg (by omega), if_neg (by omega), if_neg (by omega), if_pos (by omega)]
    simp only [Option.some.injEq, Prod.mk.injEq, and_true, Tag.scalar.injEq,
      Scalar.negativeInteger.injEq]
    omega
  · omega

theorem heads_packStr {s : List UInt8} (hs : s.length < 2 ^ 32) :
    Heads (packStr s.length ++ s) (.scalar (.str s)) := by
  have str : ∀ (c : UInt8) (w : Nat), 0xc0 ≤ c.toNat → c.toNat < 0xe0 → s.length < 256 ^ w →
      (∀ bs, readFormat c.toNat bs = (readBody w bs).map fun (d, r) => (.scalar (.str d), r)) →
      Heads (c :: storeBE w s.length ++ s) (.scalar (.str s)) :=
    fun _ _ h1 h2 hw hc => by
      rw [List.cons_append]; exact heads_body (t := fun d => .scalar (.str d)) h1 h2 hc hw
  unfold packStr
  split_ifs with h32 h256 h65536
  · intro rest
    have hb : (0xa0 + s.length) % 256 = 0xa0 + s.length := by omega
    simp only [List.singleton_append, List.cons_append, List.nil_append, readTag,
      uint8_toNat_ofNat, hb]
    rw [if_neg (by omega), if_neg (by omega), if_neg (by omega), if_pos (by omega),
      Nat.add_sub_cancel_left, readBytes_append]
    rfl
  · rw [show [0xd9, UInt8.ofNat s.length] = 0xd9 :: storeBE 1 s.length by rw [storeBE_one]]
    exact str 0xd9 1 (by decide) (by decide) h256 (fun _ => rfl)
  · exact str 0xda 2 (by decide) (by decide) h65536 (fun _ => rfl)
  · exact str 0xdb 4 (by decide) (by decide) hs (fun _ => rfl)

theorem heads_packBin {s : List UInt8} (hs : s.length < 2 ^ 32) :
    Heads (packBin s.length ++ s) (.scalar (.bin s)) := by
  have bin : ∀ (c : UInt8) (w : Nat), 0xc0 ≤ c.toNat → c.toNat < 0xe0 → s.length < 256 ^ w →
      (∀ bs, readFormat c.toNat bs = (readBody w bs).map fun (d, r) => (.scalar (.bin d), r)) →
      Heads (c :: storeBE w s.length ++ s) (.scalar (.bin s)) :=
    fun _ _ h1 h2 hw hc => by
      rw [List.cons_append]; exact heads_body (t := fun d => .scalar (.bin d)) h1 h2 hc hw
  unfold packBin
  split_ifs with h256 h65536
  · rw [show [0xc4, UInt8.ofNat s.length] = 0xc4 :: storeBE 1 s.length by rw [storeBE_one]]
    exact bin 0xc4 1 (by decide) (by decide) h256 (fun _ => rfl)
  · exact bin 0xc5 2 (by decide) (by decide) h65536 (fun _ => rfl)
  · exact bin 0xc6 4 (by decide) (by decide) hs (fun _ => rfl)

theorem heads_packExt {t : Int} {d : List UInt8} (lo : -128 ≤ t) (hi : t < 128)
    (hd : d.length < 2 ^ 32) : Heads (packExt d.length t ++ d) (.scalar (.ext t d)) := by
  have fixext : ∀ c : UInt8, 0xc0 ≤ c.toNat → c.toNat < 0xe0 →
      (∀ bs, readFormat c.toNat bs = readExtBody d.length bs) →
      Heads (c :: UInt8.ofNat (t % 256).toNat :: d) (.scalar (.ext t d)) :=
    fun c h1 h2 hc => heads_format h1 h2 fun rest => by rw [hc, List.cons_append, readExtBody_ext lo hi]
  have ext : ∀ (c : UInt8) (w : Nat), 0xc0 ≤ c.toNat → c.toNat < 0xe0 → d.length < 256 ^ w →
      (∀ bs, readFormat c.toNat bs = (readUint w bs).bind fun (l, r) => readExtBody l r) →
      Heads (c :: (storeBE w d.length ++ [UInt8.ofNat (t % 256).toNat] ++ d)) (.scalar (.ext t d)) :=
    fun c w h1 h2 hw hc => heads_format h1 h2 fun rest => by
      simp [hc, Nat.mod_eq_of_lt hw, readExtBody_ext lo hi]
  unfold packExt
  split
  · exact fixext 0xd4 (by decide) (by decide) fun _ => by rw [‹d.length = 1›]; rfl
  · exact fixext 0xd5 (by decide) (by decide) fun _ => by rw [‹d.length = 2›]; rfl
  · exact fixext 0xd6 (by decide) (by decide) fun _ => by rw [‹d.length = 4›]; rfl
  · exact fixext 0xd7 (by decide) (by decide) fun _ => by rw [‹d.length = 8›]; rfl
  · exact fixext 0xd8 (by decide) (by decide) fun _ => by rw [‹d.length = 16›]; rfl
  · split_ifs with h256 h65536
    · simpa [storeBE_one] using ext 0xc7 1 (by decide) (by decide) h256 fun _ => rfl
    · simpa using ext 0xc8 2 (by decide) (by decide) h65536 fun _ => rfl
    · simpa using ext 0xc9 4 (by decide) (by decide) hd fun _ => rfl

theorem heads_map32 {n : Nat} (hn : n < 2 ^ 32) : Heads (0xdf :: storeBE 4 n) (.map n) :=
  heads_uint (c := 0xdf) (t := .map) (by decide) (by decide) (fun _ => rfl) hn

theorem heads_array32 {n : Nat} (hn : n < 2 ^ 32) : Heads (0xdd :: storeBE 4 n) (.array n) :=
  heads_uint (c := 0xdd) (t := .array) (by decide) (by decide) (fun _ => rfl) hn

theorem heads_packMap {n : Nat} (hn : n < 2 ^ 32) : Heads (packMap n) (.map n) := by
  unfold packMap
  split_ifs with h16 h65536
  · intro rest
    have hb : (0x80 + n) % 256 = 0x80 + n := by omega
    simp only [List.singleton_append, readTag, uint8_toNat_ofNat, hb]
    rw [if_neg (by omega), if_pos (by omega), Nat.add_sub_cancel_left]
  · exact heads_uint (c := 0xde) (t := .map) (by decide) (by decide) (fun _ => rfl) h65536
  · exact heads_map32 hn

theorem heads_packArray {n : Nat} (hn : n < 2 ^ 32) : Heads (packArray n) (.array n) := by
  unfold packArray
  split_ifs with h16 h65536
  · intro rest
    have hb : (0x90 + n) % 256 = 0x90 + n := by omega
    simp only [List.singleton_append, readTag, uint8_toNat_ofNat, hb]
    rw [if_neg (by omega), if_neg (by omega), if_pos (by omega), Nat.add_sub_cancel_left]
  · exact heads_uint (c := 0xdc) (t := .array) (by decide) (by decide) (fun _ => rfl) h65536
  · exact heads_array32 hn

theorem heads_packFloat {f : Nat} (h : f < 2 ^ 32) : Heads (packFloat f) (.scalar (.float32 f)) :=
  heads_uint (c := 0xca) (t := fun f => .scalar (.float32 f)) (by decide) (by decide)
    (fun _ => rfl) h

theorem heads_packDouble {f : Nat} (h : f < 2 ^ 64) : Heads (packDouble f) (.scalar (.float64 f)) :=
  heads_uint (c := 0xcb) (t := fun f => .scalar (.float64 f)) (by decide) (by decide)
    (fun _ => rfl) h

theorem heads_chunks {s : Scalar} (h : s.WF) : Heads s.chunks.flatten (.scalar s) := by
  cases s with
  | nil => exact fun _ => rfl
  | boolean b => cases b <;> exact fun _ => rfl
  | positiveInteger u => simpa [Scalar.chunks] using heads_packUint64 h
  | negativeInteger i => simpa [Scalar.chunks] using heads_packInt64 h.1 h.2
  | float32 f => simpa [Scalar.chunks] using heads_packFloat h
  | float64 f => simpa [Scalar.chunks] using heads_packDouble h
  | str s => simpa [Scalar.chunks] using heads_packStr h
  | bin s => simpa [Scalar.chunks] using heads_packBin h
  | ext t d => simpa [Scalar.chunks] using heads_packExt h.1 h.2.1 h.2.2

end FluentBit.Msgpack
