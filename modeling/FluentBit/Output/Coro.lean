import Mathlib.Data.List.Nodup

/-!
The flush coroutines of `flb_output.h`. A libco entry point takes no arguments, so
`flb_output_thread` leaves them in the one thread-local `flb_libco_params` slot and switches into
the new coroutine, whose `output_pre_cb_flush` copies them into its own locals before it switches
back. A later creation overwrites the slot, and a coroutine resumed afterwards still flushes with
its own copy. A run of the thread is any interleaving of creations and resumptions.
-/

namespace FluentBit.Output

/-- The arguments of `flb_output_thread` that reach the flush callback; the output instance
contributes its plugin `o_ins->p` and its `o_ins->context`. Pointers are addresses. -/
structure FlbOutputThreadArgs where
  iIns : Nat
  oInsP : Nat
  oInsContext : Nat
  config : Nat
  buf : Nat
  size : Nat
  tag : Nat
  tagLen : Int
  deriving DecidableEq, Repr

/-- `struct flb_libco_out_params`. -/
structure FlbLibcoOutParams where
  data : Nat
  bytes : Nat
  tag : Nat
  tagLen : Int
  iIns : Nat
  outContext : Nat
  config : Nat
  outPlugin : Nat
  th : Nat
  deriving DecidableEq, Repr

/-- A call `out_p->cb_flush(data, bytes, tag, tag_len, i_ins, out_context, config)`, with the
plugin `out_p` it goes through. -/
structure CbFlush where
  outPlugin : Nat
  data : Nat
  bytes : Nat
  tag : Nat
  tagLen : Int
  iIns : Nat
  outContext : Nat
  config : Nat
  deriving DecidableEq, Repr

/-- Where a flush coroutine stands. -/
inductive CoroPc where
  /-- Created, `output_pre_cb_flush` not entered yet. -/
  | entry
  /-- Its parameters copied into its locals, switched back to its caller. -/
  | parked (locals : FlbLibcoOutParams)
  /-- Resumed into the plugin's `cb_flush`. -/
  | flushing
  /-- `output_pre_cb_flush` found no parameters and returned. -/
  | failed
  deriving DecidableEq, Repr

/-- A coroutine, with the arguments it was created with, which only the proofs read. -/
structure Frame where
  args : FlbOutputThreadArgs
  pc : CoroPc
  deriving DecidableEq, Repr

/-- The thread: what `FLB_TLS_GET(flb_libco_params)` points at, if anything; the coroutines in
creation order, coroutine `i` being the `th` numbered `i`; and the flush calls made so far, each
with the coroutine that made it. -/
structure Engine where
  slot : Option FlbLibcoOutParams
  frames : List Frame
  flushed : List (Nat × CbFlush)
  deriving DecidableEq, Repr

/-- The thread before its first coroutine: no params slot yet. -/
def Engine.init : Engine := ⟨none, [], []⟩

/-- `output_params_set` for coroutine `th`: the params it stores in the thread's slot, or `none`
when the slot must be allocated and `flb_malloc` fails (`mallocOk` false); the coroutine is then
not entered. -/
def outputParamsSet (mallocOk : Bool) (slot : Option FlbLibcoOutParams) (th : Nat)
    (a : FlbOutputThreadArgs) : Option FlbLibcoOutParams :=
  if slot.isNone && !mallocOk then none
  else some ⟨a.buf, a.size, a.tag, a.tagLen, a.iIns, a.oInsContext, a.config, a.oInsP, th⟩

/-- `output_pre_cb_flush` up to its switch back to the caller: it copies what the slot holds. -/
def outputPreCbFlush : Option FlbLibcoOutParams → CoroPc
  | some p => .parked p
  | none => .failed

/-- The call the rest of `output_pre_cb_flush` makes with the params it copied. -/
def cbFlushOf (p : FlbLibcoOutParams) : CbFlush :=
  ⟨p.outPlugin, p.data, p.bytes, p.tag, p.tagLen, p.iIns, p.outContext, p.config⟩

/-- `flb_output_thread`: a new coroutine, entered through `output_params_set` when that could
store its params. -/
def flbOutputThread (mallocOk : Bool) (a : FlbOutputThreadArgs) (e : Engine) : Engine :=
  match outputParamsSet mallocOk e.slot e.frames.length a with
  | some p => ⟨some p, e.frames ++ [⟨a, outputPreCbFlush (some p)⟩], e.flushed⟩
  | none => ⟨e.slot, e.frames ++ [⟨a, .entry⟩], e.flushed⟩

/-- Switching into coroutine `i`: a parked coroutine calls `cb_flush` with the params it copied,
and one never entered starts `output_pre_cb_flush` on whatever the slot holds now. -/
def coroResume (i : Nat) (e : Engine) : Engine :=
  match e.frames[i]? with
  | some ⟨a, .parked p⟩ =>
      ⟨e.slot, e.frames.set i ⟨a, .flushing⟩, e.flushed ++ [(i, cbFlushOf p)]⟩
  | some ⟨a, .entry⟩ => ⟨e.slot, e.frames.set i ⟨a, outputPreCbFlush e.slot⟩, e.flushed⟩
  | _ => e

/-- What the thread does next: create a coroutine, or resume one. -/
inductive Action where
  | create (mallocOk : Bool) (a : FlbOutputThreadArgs)
  | resume (i : Nat)
  deriving DecidableEq, Repr

def step : Action → Engine → Engine
  | .create ok a, e => flbOutputThread ok a e
  | .resume i, e => coroResume i e

def run : List Action → Engine → Engine
  | [], e => e
  | act :: acts, e => run acts (step act e)

/-- The arguments of a run's creations, in order: the `i`-th is the one coroutine `i` was created
with. -/
def creationArgs : List Action → List FlbOutputThreadArgs
  | [] => []
  | .create _ a :: acts => a :: creationArgs acts
  | .resume _ :: acts => creationArgs acts

/-- Every creation of the run that has to allocate the params slot can. -/
def SlotAllocates : List Action → Engine → Prop
  | [], _ => True
  | .create ok a :: acts, e =>
      (e.slot.isSome ∨ ok = true) ∧ SlotAllocates acts (step (.create ok a) e)
  | .resume i :: acts, e => SlotAllocates acts (step (.resume i) e)

/-- The params coroutine `i`, created with `a`, stores. -/
def paramsOf (i : Nat) (a : FlbOutputThreadArgs) : FlbLibcoOutParams :=
  ⟨a.buf, a.size, a.tag, a.tagLen, a.iIns, a.oInsContext, a.config, a.oInsP, i⟩

/-- The flush of a coroutine created with `a`: through the instance's plugin, with the buffer,
size, tag, tag length, input instance, the instance's context and config. -/
def ownFlush (a : FlbOutputThreadArgs) : CbFlush :=
  ⟨a.oInsP, a.buf, a.size, a.tag, a.tagLen, a.iIns, a.oInsContext, a.config⟩

@[simp] theorem cbFlushOf_paramsOf (i : Nat) (a : FlbOutputThreadArgs) :
    cbFlushOf (paramsOf i a) = ownFlush a := rfl

@[simp] theorem outputPreCbFlush_ne_flushing (s : Option FlbLibcoOutParams) :
    outputPreCbFlush s ≠ .flushing := by
  cases s <;> simp [outputPreCbFlush]

@[simp] theorem outputPreCbFlush_ne_entry (s : Option FlbLibcoOutParams) :
    outputPreCbFlush s ≠ .entry := by
  cases s <;> simp [outputPreCbFlush]

theorem outputParamsSet_allocates {ok : Bool} {slot : Option FlbLibcoOutParams} (th : Nat)
    (a : FlbOutputThreadArgs) (h : slot.isSome ∨ ok = true) :
    outputParamsSet ok slot th a = some (paramsOf th a) := by
  cases slot <;> cases ok <;> simp_all [outputParamsSet, paramsOf]

theorem outputParamsSet_some {ok : Bool} {slot : Option FlbLibcoOutParams} {th : Nat}
    {a : FlbOutputThreadArgs} {p : FlbLibcoOutParams} (h : outputParamsSet ok slot th a = some p) :
    p = paramsOf th a := by
  unfold outputParamsSet at h
  split at h
  · cases h
  · exact (Option.some.inj h).symm

theorem outputParamsSet_none {ok : Bool} {slot : Option FlbLibcoOutParams} {th : Nat}
    {a : FlbOutputThreadArgs} (h : outputParamsSet ok slot th a = none) : slot = none := by
  unfold outputParamsSet at h
  split at h
  · next hc => simpa using (Bool.and_eq_true _ _).mp hc |>.1
  · cases h

theorem coroResume_cases (i : Nat) (e : Engine) :
    (∃ a p, e.frames[i]? = some ⟨a, .parked p⟩ ∧ coroResume i e =
      ⟨e.slot, e.frames.set i ⟨a, .flushing⟩, e.flushed ++ [(i, cbFlushOf p)]⟩) ∨
    (∃ a, e.frames[i]? = some ⟨a, .entry⟩ ∧
      coroResume i e = ⟨e.slot, e.frames.set i ⟨a, outputPreCbFlush e.slot⟩, e.flushed⟩) ∨
    coroResume i e = e := by
  unfold coroResume
  split
  · exact .inl ⟨_, _, ‹_›, rfl⟩
  · exact .inr (.inl ⟨_, ‹_›, rfl⟩)
  · exact .inr (.inr rfl)

theorem flbOutputThread_new (ok : Bool) (a : FlbOutputThreadArgs) (e : Engine) :
    ∃ pc, pc ≠ .flushing ∧ (flbOutputThread ok a e).frames = e.frames ++ [⟨a, pc⟩] ∧
      (flbOutputThread ok a e).flushed = e.flushed := by
  unfold flbOutputThread
  split
  · exact ⟨_, outputPreCbFlush_ne_flushing _, rfl, rfl⟩
  · exact ⟨_, by simp, rfl, rfl⟩

theorem flbOutputThread_length (ok : Bool) (a : FlbOutputThreadArgs) (e : Engine) :
    (flbOutputThread ok a e).frames.length = e.frames.length + 1 := by
  obtain ⟨_, -, hfr, -⟩ := flbOutputThread_new ok a e
  simp [hfr]

theorem flbOutputThread_getElem? (ok : Bool) (a : FlbOutputThreadArgs) (e : Engine) {j : Nat}
    (hj : j < e.frames.length) : (flbOutputThread ok a e).frames[j]? = e.frames[j]? := by
  obtain ⟨_, -, hfr, -⟩ := flbOutputThread_new ok a e
  rw [hfr, List.getElem?_append_left hj]

theorem coroResume_args (i : Nat) (e : Engine) :
    (coroResume i e).frames.map Frame.args = e.frames.map Frame.args := by
  rcases coroResume_cases i e with ⟨a, p, hp, h⟩ | ⟨a, hp, h⟩ | h <;> rw [h]
  all_goals first
    | rfl
    | rw [List.map_set]
      refine List.ext_getElem? fun j => ?_
      by_cases hij : i = j
      · subst hij
        rw [List.getElem?_set_self', List.getElem?_map, hp]
        rfl
      · rw [List.getElem?_set_ne hij]

theorem coroResume_frames (i : Nat) (e : Engine) :
    (coroResume i e).frames.length = e.frames.length ∧
      ∀ (j : Nat) (a : FlbOutputThreadArgs), e.frames[j]? = some ⟨a, .flushing⟩ →
        (coroResume i e).frames[j]? = some ⟨a, .flushing⟩ := by
  rcases coroResume_cases i e with ⟨b, p, hp, h⟩ | ⟨b, hp, h⟩ | h <;> rw [h]
  all_goals first
    | exact ⟨rfl, fun _ _ h => h⟩
    | -- The coroutine that changes was outside its `cb_flush`.
      refine ⟨List.length_set .., fun j a hj => ?_⟩
      have hij : i ≠ j := by rintro rfl; rw [hp] at hj; cases hj
      rw [List.getElem?_set_ne hij, hj]

theorem coroResume_entry {i j : Nat} {e : Engine}
    (h : (coroResume i e).frames[j]?.map Frame.pc = some .entry) :
    e.frames[j]?.map Frame.pc = some .entry := by
  rcases coroResume_cases i e with ⟨a, p, hp, h'⟩ | ⟨a, hp, h'⟩ | h' <;> rw [h'] at h
  all_goals first
    | exact h
    | by_cases hij : i = j
      · subst hij
        simp [List.getElem?_set_self (List.getElem?_eq_some_iff.mp hp).1] at h
      · rwa [List.getElem?_set_ne hij] at h

theorem coroResume_slot (i : Nat) (e : Engine) : (coroResume i e).slot = e.slot := by
  rcases coroResume_cases i e with ⟨_, _, -, h⟩ | ⟨_, -, h⟩ | h <;> rw [h]

theorem step_args : ∀ (act : Action) (e : Engine),
    (step act e).frames.map Frame.args = e.frames.map Frame.args ++ creationArgs [act]
  | .create ok a, e => by
      obtain ⟨_, -, hfr, -⟩ := flbOutputThread_new ok a e
      simp [step, hfr, creationArgs]
  | .resume i, e => by simp [step, coroResume_args, creationArgs]

theorem run_frames_args : ∀ (acts : List Action) (e : Engine),
    (run acts e).frames.map Frame.args = e.frames.map Frame.args ++ creationArgs acts
  | [], _ => (List.append_nil _).symm
  | act :: acts, e => by
      rw [run, run_frames_args acts, step_args, List.append_assoc]
      cases act <;> rfl

theorem run_init_args (acts : List Action) :
    (run acts .init).frames.map Frame.args = creationArgs acts :=
  (run_frames_args acts Engine.init).trans (List.nil_append _)

theorem creationArgs_of_frame (acts : List Action) {i : Nat} {fr : Frame}
    (h : (run acts .init).frames[i]? = some fr) : (creationArgs acts)[i]? = some fr.args := by
  rw [← run_init_args, List.getElem?_map, h]
  rfl

/-- What holds of every state the thread reaches while the params slot can be allocated. -/
structure Engine.Inv (e : Engine) : Prop where
  frames_own : ∀ (i : Nat) (fr : Frame), e.frames[i]? = some fr →
    fr.pc = .flushing ∨ fr.pc = .parked (paramsOf i fr.args)
  flushed_own : ∀ (i : Nat) (c : CbFlush), (i, c) ∈ e.flushed →
    ∃ fr : Frame, e.frames[i]? = some fr ∧ c = ownFlush fr.args

theorem Engine.inv_init : Engine.init.Inv :=
  ⟨fun _ _ h => by simp [Engine.init] at h, fun _ _ h => by simp [Engine.init] at h⟩

theorem Engine.Inv.create {e : Engine} (hi : e.Inv) {ok : Bool} (a : FlbOutputThreadArgs)
    (h : e.slot.isSome ∨ ok = true) : (flbOutputThread ok a e).Inv := by
  have hget : ∀ i, i < e.frames.length →
      (e.frames ++ [⟨a, .parked (paramsOf e.frames.length a)⟩])[i]? = e.frames[i]? :=
    fun i hi => List.getElem?_append_left hi
  simp only [flbOutputThread, outputParamsSet_allocates _ a h, outputPreCbFlush]
  refine ⟨fun i fr hfr => ?_, fun i c hc => ?_⟩
  · rcases Nat.lt_or_ge i e.frames.length with hlt | hge
    · exact hi.frames_own i fr (by rwa [hget i hlt] at hfr)
    · have hlt := (List.getElem?_eq_some_iff.mp hfr).1
      simp only [List.length_append, List.length_singleton] at hlt
      obtain rfl : i = e.frames.length := by omega
      simp only [List.getElem?_append_right (Nat.le_refl _), Nat.sub_self, List.getElem?_cons_zero,
        Option.some.injEq] at hfr
      exact .inr (hfr ▸ rfl)
  · obtain ⟨fr, hfr, rfl⟩ := hi.flushed_own i c hc
    have hlt : i < e.frames.length := (List.getElem?_eq_some_iff.mp hfr).1
    exact ⟨fr, by rw [hget i hlt, hfr], rfl⟩

theorem Engine.Inv.resume {e : Engine} (hi : e.Inv) (i : Nat) : (coroResume i e).Inv := by
  rcases coroResume_cases i e with ⟨a, p, hp, h⟩ | ⟨a, hp, -⟩ | h
  · -- A parked coroutine flushes; its locals are the params of its own creation.
    have hlt := (List.getElem?_eq_some_iff.mp hp).1
    have hpa : p = paramsOf i a := by
      rcases hi.frames_own i _ hp with h | h
      · cases h
      · exact CoroPc.parked.inj h
    rw [h]
    refine ⟨fun j fr hfr => ?_, fun j c hc => ?_⟩
    · by_cases hij : i = j
      · subst hij; rw [List.getElem?_set_self hlt] at hfr
        cases hfr; left; rfl
      · rw [List.getElem?_set_ne hij] at hfr; exact hi.frames_own j fr hfr
    · rcases List.mem_append.mp hc with hc | hc
      · obtain ⟨fr, hfr, rfl⟩ := hi.flushed_own j c hc
        by_cases hij : i = j
        · subst hij; rw [hp] at hfr; cases hfr
          exact ⟨_, List.getElem?_set_self hlt, rfl⟩
        · exact ⟨fr, by rw [List.getElem?_set_ne hij, hfr], rfl⟩
      · simp only [List.mem_singleton, Prod.mk.injEq] at hc
        obtain ⟨rfl, rfl⟩ := hc
        exact ⟨_, List.getElem?_set_self hlt, by rw [hpa]; rfl⟩
  · -- No coroutine is left unentered.
    rcases hi.frames_own i _ hp with h | h <;> cases h
  · rw [h]; exact hi

theorem Engine.Inv.run {e : Engine} (hi : e.Inv) :
    ∀ acts : List Action, SlotAllocates acts e → (run acts e).Inv
  | [], _ => hi
  | .create _ a :: acts, ⟨h, hs⟩ => (hi.create a h).run acts hs
  | .resume i :: acts, hs => (hi.resume i).run acts hs

/-- Every coroutine inside its `cb_flush` got there through a resumption that made its flush. -/
def Engine.Flushed (e : Engine) : Prop :=
  ∀ (i : Nat) (a : FlbOutputThreadArgs), e.frames[i]? = some ⟨a, .flushing⟩ →
    ∃ c, (i, c) ∈ e.flushed

theorem Engine.Flushed.act {e : Engine} (hf : e.Flushed) : ∀ act : Action, (step act e).Flushed
  | .create ok a => fun i b h => by
      obtain ⟨pc, hpc, hfr, hfl⟩ := flbOutputThread_new ok a e
      simp only [step, hfr, hfl] at h ⊢
      rcases Nat.lt_or_ge i e.frames.length with hlt | hge
      · exact hf i b (by rwa [List.getElem?_append_left hlt] at h)
      · rw [List.getElem?_append_right hge] at h
        cases List.mem_singleton.mp (List.getElem?_mem h)
        exact absurd rfl hpc
  | .resume j => fun i b h => by
      simp only [step] at h ⊢
      rcases coroResume_cases j e with ⟨a, p, hp, h'⟩ | ⟨a, hp, h'⟩ | h' <;> rw [h'] at h ⊢
      · by_cases hij : j = i
        · exact ⟨cbFlushOf p, List.mem_append_right _ (by rw [hij]; exact List.mem_singleton_self _)⟩
        · rw [List.getElem?_set_ne hij] at h
          exact (hf i b h).imp fun _ hc => List.mem_append_left _ hc
      · by_cases hij : j = i
        · subst hij
          simp [List.getElem?_set_self (List.getElem?_eq_some_iff.mp hp).1] at h
        · rw [List.getElem?_set_ne hij] at h
          exact hf i b h
      · exact hf i b h

theorem Engine.Flushed.run {e : Engine} (hf : e.Flushed) : ∀ acts : List Action, (run acts e).Flushed
  | [] => hf
  | act :: acts => (hf.act act).run acts

theorem Engine.flushed_init : Engine.init.Flushed := fun _ _ h => by simp [Engine.init] at h

theorem run_flushed_creationArgs (acts : List Action) (h : SlotAllocates acts Engine.init)
    {i : Nat} {c : CbFlush} (hc : (i, c) ∈ (run acts .init).flushed) :
    ∃ a, (creationArgs acts)[i]? = some a ∧ c = ownFlush a := by
  obtain ⟨fr, hfr, rfl⟩ := (Engine.inv_init.run acts h).flushed_own i c hc
  exact ⟨fr.args, creationArgs_of_frame acts hfr, rfl⟩

/-- Over every interleaving of creations and resumptions in which the params slot can be
allocated, every flush of coroutine `i` is made with the arguments of the run's `i`-th creation,
and resuming a coroutine that has not flushed yet makes that flush. -/
theorem run_flushes_own (acts : List Action) (h : SlotAllocates acts Engine.init) :
    (∀ i c, (i, c) ∈ (run acts .init).flushed →
      ∃ a, (creationArgs acts)[i]? = some a ∧ c = ownFlush a) ∧
    ∀ i a, (creationArgs acts)[i]? = some a → i ∉ (run acts .init).flushed.map Prod.fst →
      (coroResume i (run acts .init)).flushed = (run acts .init).flushed ++ [(i, ownFlush a)] := by
  refine ⟨fun _ _ => run_flushed_creationArgs acts h, fun i a ha hnot => ?_⟩
  rw [← run_init_args, List.getElem?_map] at ha
  obtain ⟨⟨b, pc⟩, hfr, rfl⟩ := Option.map_eq_some'.mp ha
  rcases (Engine.inv_init.run acts h).frames_own i _ hfr with hpc | hpc <;> simp only at hpc <;>
    subst hpc
  · -- A coroutine inside its `cb_flush` has made its flush.
    obtain ⟨c, hc⟩ := Engine.flushed_init.run acts i b hfr
    exact absurd (List.mem_map.mpr ⟨(i, c), hc, rfl⟩) hnot
  · simp [coroResume, hfr]

/-- Two coroutines whose params are stored, the first one resumed. -/
def twoCreations : List Action :=
  [.create true ⟨1, 2, 3, 4, 5, 6, 7, 8⟩, .create true ⟨9, 10, 11, 12, 13, 14, 15, 16⟩, .resume 0]

theorem run_flushes_own_two :
    SlotAllocates twoCreations Engine.init ∧
    (∀ i c, (i, c) ∈ (run twoCreations .init).flushed →
      ∃ a, (creationArgs twoCreations)[i]? = some a ∧ c = ownFlush a) ∧
    ∀ i a, (creationArgs twoCreations)[i]? = some a →
      i ∉ (run twoCreations .init).flushed.map Prod.fst →
      (coroResume i (run twoCreations .init)).flushed =
        (run twoCreations .init).flushed ++ [(i, ownFlush a)] :=
  have h : SlotAllocates twoCreations Engine.init := ⟨.inr rfl, .inr rfl, trivial⟩
  ⟨h, run_flushes_own _ h⟩

/-- What holds of every state the thread reaches, the params slot allocated or not: no coroutine
has flushed twice, and one that has flushed stays in its `cb_flush`. -/
structure Engine.FlushOnce (e : Engine) : Prop where
  nodup : (e.flushed.map Prod.fst).Nodup
  flushing : ∀ (i : Nat) (c : CbFlush), (i, c) ∈ e.flushed →
    ∃ a, e.frames[i]? = some ⟨a, .flushing⟩

theorem Engine.flushOnce_init : Engine.init.FlushOnce :=
  ⟨List.nodup_nil, fun _ _ h => by simp [Engine.init] at h⟩

theorem Engine.FlushOnce.create {e : Engine} (hi : e.FlushOnce) (ok : Bool)
    (a : FlbOutputThreadArgs) : (flbOutputThread ok a e).FlushOnce := by
  obtain ⟨_, -, hfr, hfl⟩ := flbOutputThread_new ok a e
  refine ⟨hfl ▸ hi.nodup, fun i c hc => ?_⟩
  obtain ⟨b, hb⟩ := hi.flushing i c (hfl ▸ hc)
  exact ⟨b, by rw [hfr, List.getElem?_append_left (List.getElem?_eq_some_iff.mp hb).1, hb]⟩

theorem Engine.FlushOnce.resume {e : Engine} (hi : e.FlushOnce) (i : Nat) :
    (coroResume i e).FlushOnce := by
  -- A coroutine that has not reached `cb_flush` has made no flush.
  have fresh : ∀ {fr : Frame}, e.frames[i]? = some fr → fr.pc ≠ .flushing →
      ∀ j c, (j, c) ∈ e.flushed → j ≠ i := by
    rintro fr hfr hpc j c hc rfl
    obtain ⟨b, hb⟩ := hi.flushing j c hc
    rw [hfr] at hb; cases hb; exact hpc rfl
  have kept : ∀ {fr : Frame} (fr' : Frame), e.frames[i]? = some fr → fr.pc ≠ .flushing →
      ∀ j c, (j, c) ∈ e.flushed → ∃ a, (e.frames.set i fr')[j]? = some ⟨a, .flushing⟩ :=
    fun fr' hfr hpc j c hc => by
      obtain ⟨b, hb⟩ := hi.flushing j c hc
      exact ⟨b, by rw [List.getElem?_set_ne (fresh hfr hpc j c hc).symm, hb]⟩
  rcases coroResume_cases i e with ⟨a, p, hp, h⟩ | ⟨a, hp, h⟩ | h <;> rw [h]
  · refine ⟨?_, fun j c hc => ?_⟩
    · rw [List.map_append, List.nodup_append]
      refine ⟨hi.nodup, List.nodup_singleton _, ?_⟩
      simp only [List.map_singleton, List.disjoint_singleton, List.mem_map, not_exists, not_and]
      exact fun ⟨j, c⟩ hc hj => fresh hp (by simp) j c hc hj
    · rcases List.mem_append.mp hc with hc | hc
      · exact kept _ hp (by simp) j c hc
      · obtain ⟨rfl, -⟩ := Prod.mk.inj (List.mem_singleton.mp hc)
        exact ⟨a, List.getElem?_set_self (List.getElem?_eq_some_iff.mp hp).1⟩
  · exact ⟨hi.nodup, kept _ hp (by simp)⟩
  · exact hi

theorem Engine.FlushOnce.run {e : Engine} (hi : e.FlushOnce) :
    ∀ acts : List Action, (run acts e).FlushOnce
  | [] => hi
  | .create ok a :: acts => (hi.create ok a).run acts
  | .resume i :: acts => (hi.resume i).run acts

/-- Over every interleaving of creations and resumptions, whether or not the params slot could be
allocated, no coroutine flushes twice. -/
theorem run_flushes_once (acts : List Action) : ((run acts .init).flushed.map Prod.fst).Nodup :=
  (Engine.flushOnce_init.run acts).nodup

/-- What holds of every state the thread reaches, the params slot allocated or not: the slot holds
the params stored for coroutine `p.th`, with that coroutine's arguments, and every coroutine not
entered yet was created before it. -/
structure Engine.SlotLater (e : Engine) : Prop where
  stored : ∀ p, e.slot = some p →
    ∃ a, (e.frames.map Frame.args)[p.th]? = some a ∧ p = paramsOf p.th a
  later : ∀ i p, e.frames[i]?.map Frame.pc = some .entry → e.slot = some p → i < p.th

theorem Engine.slotLater_create (ok : Bool) (a : FlbOutputThreadArgs) (e : Engine) :
    (flbOutputThread ok a e).SlotLater := by
  unfold flbOutputThread
  split
  · next p hp =>
    -- The new coroutine stores its params and is entered at once.
    obtain rfl := outputParamsSet_some hp
    refine ⟨fun q hq => ?_, fun i q hi hq => ?_⟩ <;> obtain rfl := Option.some.inj hq
    · exact ⟨a, by simp [paramsOf], rfl⟩
    · rcases Nat.lt_or_ge i e.frames.length with hlt | hge
      · exact hlt
      · simp [List.getElem?_append_right hge, List.getElem?_cons] at hi
  · next hp =>
    -- Nothing was stored: the slot was, and stays, unallocated.
    have hnone := outputParamsSet_none hp
    exact ⟨fun q hq => by simp [hnone] at hq, fun _ q _ hq => by simp [hnone] at hq⟩

theorem Engine.SlotLater.resume {e : Engine} (hs : e.SlotLater) (i : Nat) :
    (coroResume i e).SlotLater :=
  ⟨fun p hp => coroResume_args i e ▸ hs.stored p (coroResume_slot i e ▸ hp),
    fun j p hj hp => hs.later j p (coroResume_entry hj) (coroResume_slot i e ▸ hp)⟩

theorem Engine.SlotLater.run {e : Engine} (hs : e.SlotLater) :
    ∀ acts : List Action, (run acts e).SlotLater
  | [] => hs
  | .create ok a :: acts => (Engine.slotLater_create ok a e).run acts
  | .resume i :: acts => (hs.resume i).run acts

/-- Why `run_flushes_own` needs the slot: when the first creation cannot allocate it, whatever the
two creations' arguments, the second buffer is flushed twice and the first never. -/
theorem run_unallocated_flushes_later (a b : FlbOutputThreadArgs) :
    (run [.create false a, .create true b, .resume 0, .resume 0, .resume 1] .init).flushed =
      [(0, ownFlush b), (1, ownFlush b)] :=
  rfl

/-- The creations of a run whose first one, if any, can allocate the params slot. -/
def FirstAllocates : List Action → Prop
  | [] => True
  | .create ok _ :: _ => ok = true
  | .resume _ :: acts => FirstAllocates acts

theorem flbOutputThread_slot {ok : Bool} {e : Engine} (a : FlbOutputThreadArgs)
    (h : e.slot.isSome ∨ ok = true) : (flbOutputThread ok a e).slot.isSome := by
  simp [flbOutputThread, outputParamsSet_allocates _ a h]

theorem slotAllocates_of_first : ∀ (acts : List Action) {e : Engine},
    e.slot.isSome ∨ FirstAllocates acts → SlotAllocates acts e
  | [], _, _ => trivial
  | .create ok a :: acts, e, h => by
      have hok : e.slot.isSome ∨ ok = true := h.imp_right id
      exact ⟨hok, slotAllocates_of_first acts (.inl (flbOutputThread_slot a hok))⟩
  | .resume i :: acts, e, h => by
      refine slotAllocates_of_first acts ?_
      rw [step, coroResume_slot]
      exact h

/-- The params slot of a thread is allocated once and then reused by every creation, so as soon as
the first creation of a run can allocate it, in every interleaving of creations and resumptions
every creation stores its params, and every flush of coroutine `i` is made with the arguments of
the run's `i`-th creation. -/
theorem run_flushes_own_of_first (acts : List Action) (h : FirstAllocates acts) :
    SlotAllocates acts Engine.init ∧
      ∀ i c, (i, c) ∈ (run acts .init).flushed →
        ∃ a, (creationArgs acts)[i]? = some a ∧ c = ownFlush a :=
  have hs := slotAllocates_of_first acts (.inr h)
  ⟨hs, fun _ _ => run_flushed_creationArgs acts hs⟩

/-- A second creation whose `flb_malloc` would fail, resumed: the slot is allocated by then. -/
def lateFailure : List Action :=
  [.create true ⟨1, 2, 3, 4, 5, 6, 7, 8⟩, .create false ⟨9, 10, 11, 12, 13, 14, 15, 16⟩, .resume 1]

theorem run_flushes_own_of_first_three :
    FirstAllocates lateFailure ∧ SlotAllocates lateFailure Engine.init ∧
      ∀ i c, (i, c) ∈ (run lateFailure .init).flushed →
        ∃ a, (creationArgs lateFailure)[i]? = some a ∧ c = ownFlush a :=
  ⟨rfl, run_flushes_own_of_first _ rfl⟩

end FluentBit.Output
