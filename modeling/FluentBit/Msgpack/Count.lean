import FluentBit.Msgpack.RoundTrip

/-!
`flb_mp_count` counts the objects of a buffer with mpack's reader: while bytes remain, it
counts one more and discards an object. `mpack_discard` reads a tag and skips what the tag
heads; on a truncated or invalid object the reader enters its error state, where no bytes
remain. Each discard therefore ends the loop or shortens the input, which is the loop's
termination argument. The object whose discard fails has already been counted, so a buffer that
ends in a broken object counts it as one more.
-/

namespace FluentBit.Msgpack

theorem readTag_length {bs r : List UInt8} {t : Tag} (e : readTag bs = some (t, r)) :
    r.length < bs.length := by
  obtain ⟨h, rfl, hh⟩ := prefixed_readTag e
  have := Heads.length_pos hh
  simp only [List.length_append]; omega

/-- `n` objects skipped one after another by `f`. -/
def skipMany (f : List UInt8 → Option (List UInt8)) : Nat → List UInt8 → Option (List UInt8)
  | 0, bs => some bs
  | n + 1, bs => (f bs).bind (skipMany f n)

/-- `mpack_discard`, nested at most `fuel` levels deep: the bytes the reader has left, or
`none` once it is in its error state. A map is discarded a key and a value at a time. -/
def mpackDiscard : Nat → List UInt8 → Option (List UInt8)
  | 0, _ => none
  | fuel + 1, bs =>
      match readTag bs with
      | some (.scalar _, r) => some r
      | some (.array n, r) => skipMany (mpackDiscard fuel) n r
      | some (.map n, r) =>
          skipMany (fun r => (mpackDiscard fuel r).bind (mpackDiscard fuel)) n r
      | none => none

theorem skipMany_length {f : List UInt8 → Option (List UInt8)}
    (hf : ∀ b r, f b = some r → r.length ≤ b.length) :
    ∀ (n : Nat) {bs r : List UInt8}, skipMany f n bs = some r → r.length ≤ bs.length
  | 0, _, _, e => by cases e; exact Nat.le_refl _
  | n + 1, bs, _, e => by
      obtain ⟨r', h, h'⟩ := Option.bind_eq_some.mp e
      exact Nat.le_trans (skipMany_length hf n h') (hf bs r' h)

theorem mpackDiscard_length : ∀ {fuel : Nat} {bs r : List UInt8},
    mpackDiscard fuel bs = some r → r.length < bs.length
  | fuel + 1, bs, r, e => by
      have step : ∀ b r, mpackDiscard fuel b = some r → r.length ≤ b.length :=
        fun _ _ h => Nat.le_of_lt (mpackDiscard_length h)
      simp only [mpackDiscard] at e
      split at e
      · cases e; exact readTag_length ‹_›
      · exact Nat.lt_of_le_of_lt (skipMany_length step _ e) (readTag_length ‹_›)
      · refine Nat.lt_of_le_of_lt (skipMany_length (fun b r h => ?_) _ e) (readTag_length ‹_›)
        obtain ⟨r', h1, h2⟩ := Option.bind_eq_some.mp h
        exact Nat.le_trans (step _ _ h2) (step _ _ h1)
      · cases e

theorem skipMany_readMany {β : Type} {f : List UInt8 → Option (List UInt8)}
    {g : List UInt8 → Option (β × List UInt8)} (hf : ∀ b, f b = (g b).map Prod.snd) :
    ∀ (n : Nat) (bs : List UInt8), skipMany f n bs = (readMany g n bs).map Prod.snd
  | 0, _ => rfl
  | n + 1, bs => by
      simp only [skipMany, readMany, hf, skipMany_readMany hf n]
      cases g bs with
      | none => rfl
      | some p =>
          show Option.map Prod.snd (readMany g n p.2) =
            Option.map Prod.snd ((readMany g n p.2).bind fun q => some (p.1 :: q.1, q.2))
          cases readMany g n p.2 <;> rfl

theorem mpackDiscard_eq_unpackObject : ∀ (fuel : Nat) (bs : List UInt8),
    mpackDiscard fuel bs = (unpackObject fuel bs).map Prod.snd
  | 0, _ => rfl
  | fuel + 1, bs => by
      have pair : ∀ b, (mpackDiscard fuel b).bind (mpackDiscard fuel) =
          (readPair (unpackObject fuel) b).map Prod.snd := fun b => by
        simp only [mpackDiscard_eq_unpackObject fuel, readPair]
        cases unpackObject fuel b with
        | none => rfl
        | some p =>
            show Option.map Prod.snd (unpackObject fuel p.2) =
              Option.map Prod.snd ((unpackObject fuel p.2).bind fun q => some ((p.1, q.1), q.2))
            cases unpackObject fuel p.2 <;> rfl
      simp only [mpackDiscard, unpackObject]
      rcases readTag bs with _ | ⟨_ | n | n, r⟩ <;> dsimp only
      · rfl
      · rfl
      · rw [skipMany_readMany (mpackDiscard_eq_unpackObject fuel)]
        cases readMany _ _ _ <;> rfl
      · rw [skipMany_readMany pair]
        cases readMany _ _ _ <;> rfl

theorem mpackDiscard_encodes {o : Obj Unit} {bs : List UInt8} (h : Encodes o bs)
    {fuel : Nat} (hd : o.depth ≤ fuel) (rest : List UInt8) :
    mpackDiscard fuel (bs ++ rest) = some rest := by
  rw [mpackDiscard_eq_unpackObject, unpackObject_encodes o rest h hd]; rfl

/-- The value of an `int` counter after `n` increments from zero, wrapping at 32 bits. -/
def cInt (n : Nat) : Int :=
  if n % 2 ^ 32 < 2 ^ 31 then (n % 2 ^ 32 : Nat) else (n % 2 ^ 32 : Nat) - 2 ^ 32

/-- The `while` loop of `flb_mp_count`. `mpack_reader_remaining` is the input length, or
zero in the error state; no object nests deeper than the bytes that are left. -/
def flbMpCountLoop (count : Nat) (bs : List UInt8) : Nat :=
  if 0 < bs.length then
    match h : mpackDiscard bs.length bs with
    | none => count + 1
    | some r => flbMpCountLoop (count + 1) r
  else count
termination_by bs.length
decreasing_by exact mpackDiscard_length h

/-- `flb_mp_count`. -/
def flbMpCount (bs : List UInt8) : Int := cInt (flbMpCountLoop 0 bs)

theorem flbMpCountLoop_le (count : Nat) (bs : List UInt8) :
    flbMpCountLoop count bs ≤ count + bs.length := by
  induction count, bs using flbMpCountLoop.induct with
  | case1 count bs hpos h =>
      rw [flbMpCountLoop, if_pos hpos]; split <;> simp_all; omega
  | case2 count bs hpos r h ih =>
      have := mpackDiscard_length h
      rw [flbMpCountLoop, if_pos hpos]; split <;> simp_all; omega
  | case3 count bs hpos => rw [flbMpCountLoop, if_neg hpos]; omega

@[simp] theorem flbMpCountLoop_nil (count : Nat) : flbMpCountLoop count [] = count := by
  rw [flbMpCountLoop, if_neg (by simp)]

theorem flbMpCountLoop_append (count : Nat) :
    ∀ {os : List (Obj Unit)} {bs : List UInt8}, EncodesList os bs →
      ∀ t, flbMpCountLoop count (bs ++ t) = flbMpCountLoop (count + os.length) t
  | [], _, rfl, _ => rfl
  | o :: os, _, ⟨b, r, rfl, ho, hr⟩, t => by
      have hb := depth_le_of_encodes o ho
      have hd := mpackDiscard_encodes ho
        (show o.depth ≤ (b ++ (r ++ t)).length by simp only [List.length_append]; omega) (r ++ t)
      have hpos : 0 < (b ++ (r ++ t)).length := by
        have := o.depth_pos; simp only [List.length_append]; omega
      rw [List.append_assoc, flbMpCountLoop, if_pos hpos]
      split <;> rename_i h <;> rw [hd] at h <;> cases h
      rw [flbMpCountLoop_append (count + 1) hr t, List.length_cons, Nat.add_assoc, Nat.add_comm 1]

theorem flbMpCountLoop_encodes (count : Nat) :
    ∀ {os : List (Obj Unit)} {bs : List UInt8}, EncodesList os bs →
      flbMpCountLoop count bs = count + os.length := fun h => by
  simpa using flbMpCountLoop_append count h []

theorem flbMpCountLoop_stuck (count : Nat) {t : List UInt8} (ht : t ≠ []) (hbad : unpack t = none) :
    flbMpCountLoop count t = count + 1 := by
  have hnone : mpackDiscard t.length t = none := by
    rw [mpackDiscard_eq_unpackObject, show unpackObject t.length t = none from hbad]; rfl
  rw [flbMpCountLoop, if_pos (List.length_pos.mpr ht)]
  split
  · rfl
  · rename_i h; rw [hnone] at h; cases h

theorem cInt_of_lt {n : Nat} (h : n < 2 ^ 31) : cInt n = n := by
  simp only [cInt]; split <;> omega

theorem cInt_le (n : Nat) : cInt n ≤ n := by
  simp only [cInt]; split <;> omega

/-- On the concatenated encodings of `n ≤ 2³¹ - 1` objects, `flb_mp_count` returns `n`; on any
bytes at all the loop ends with at most one count per byte. -/
theorem flbMpCount_counts_objects :
    (∀ (os : List (Obj Unit)) (bs : List UInt8), EncodesList os bs → os.length ≤ 2 ^ 31 - 1 →
      flbMpCount bs = os.length) ∧
    ∀ bs : List UInt8, flbMpCount bs ≤ bs.length :=
  ⟨fun _ _ h hn => by
      rw [flbMpCount, flbMpCountLoop_encodes 0 h, Nat.zero_add, cInt_of_lt (by omega)],
    fun bs => by
      have := flbMpCountLoop_le 0 bs
      have := cInt_le (flbMpCountLoop 0 bs)
      rw [flbMpCount]; omega⟩

/-- On the encodings of `n < 2³¹ - 1` objects followed by bytes that start no complete object, an
object cut short or a byte that heads no type, `flb_mp_count` returns `n + 1`: the loop counts
before it discards, so the broken tail is counted as one more object. -/
theorem flbMpCount_truncated {os : List (Obj Unit)} {bs t : List UInt8} (hbs : EncodesList os bs)
    (ht : t ≠ []) (hbad : unpack t = none) (hn : os.length < 2 ^ 31 - 1) :
    flbMpCount (bs ++ t) = os.length + 1 := by
  rw [flbMpCount, flbMpCountLoop_append 0 hbs t, flbMpCountLoop_stuck _ ht hbad,
    cInt_of_lt (by omega)]
  omega

/-- `1`, then an array of two elements cut short after its first. -/
theorem flbMpCount_truncated_array :
    EncodesList [.scalar () (.positiveInteger 1)] [0x01] ∧ [0x92, 0x01] ≠ ([] : List UInt8) ∧
      unpack [0x92, 0x01] = none ∧ [Obj.scalar () (.positiveInteger 1)].length < 2 ^ 31 - 1 ∧
      flbMpCount ([0x01] ++ [0x92, 0x01]) = [Obj.scalar () (.positiveInteger 1)].length + 1 :=
  have h : EncodesList [.scalar () (.positiveInteger 1)] [0x01] :=
    encodesList_singleton.mpr fun _ => rfl
  ⟨h, by decide, by decide, by decide, flbMpCount_truncated h (by decide) (by decide) (by decide)⟩

end FluentBit.Msgpack
