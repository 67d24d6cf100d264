import FluentBit.Output.Coro
import FluentBit.Output.Completion

/-!
The life of the flush coroutines of one task dispatched to one output instance, on the engine
thread: `flb_output_thread` creates a coroutine and queues it on the instance, resumptions take it
into its plugin's `cb_flush`, `FLB_OUTPUT_RETURN` inside that callback writes its completion word
and credits the metrics through `flb_output_return` and ends it with
`flb_coro_yield(co, FLB_TRUE)`, and the event loop destroys it when it reads the word. The
coroutine steps are those of `FluentBit.Output.Coro`, the return path and the intake those of
`FluentBit.Output.Completion`. The dispatcher's linking of a new coroutine into its task is not part
of these sources and is modelled from the spec.

Projected on the task and the instance, a return and an intake are steps of the completion bus
(`Flight.ret_bus`), and projected on the coroutines the run is a run of the thread
(`flightRun_eng`), so the invariants of both carry over. What the composition adds is that no
coroutine returns twice and that one returns only from its `cb_flush`, which the bus alone has to
assume; and that the task's linked coroutines are exactly those not yet accounted for by a word
taken in, so that it has no user left exactly when every coroutine's word was written and read;
and that the instance's queue never keeps a coroutine the task has let go.
-/

namespace FluentBit.Output

/-- Modelled from the spec: the dispatcher links a new coroutine into its task and takes one task
user. -/
def flbTaskAddCoro (oc : FlbOutputCoro) (task : FlbTask) : FlbTask :=
  { task with coros := task.coros ++ [oc], users := task.users + 1 }

/-- The `struct flb_output_coro` of the `i`-th coroutine created for the task: its id is the
task's coroutine counter and its `parent` is its `flb_coro`, the `th` numbered `i`. -/
def outCoro (i : Nat) : FlbOutputCoro := ⟨i, i⟩

/-- How a coroutine left its `cb_flush`: the value it passed to `FLB_OUTPUT_RETURN`, and whether
`flb_pipe_w` wrote its word. -/
structure Ending where
  id : Nat
  ret : Int
  delivered : Bool
  deriving DecidableEq, Repr, Inhabited

/-- The engine thread with one task and one output instance: the coroutines and the params slot,
the task and the instance with what each intake's `flb_output_coro_destroy_id` returned, and the
coroutines that have returned, in the order they did. -/
structure Flight where
  eng : Engine
  bus : Bus
  ended : List Ending
  deriving DecidableEq, Repr

/-- A task with no coroutine yet, dispatched to an instance whose event pipe and coroutine queue
are empty and whose metrics are `m`. -/
def Flight.init (task : FlbTask) (m : Option FlbMetrics) : Flight :=
  ⟨.init, ⟨{ task with coros := [], users := 0 }, ⟨[], [], m⟩, []⟩, []⟩

/-- `flb_output_thread`, which queues the new coroutine on the instance
(`mk_list_add(&out_coro->_head_output, &o_ins->th_queue)`) before it enters it, then the
dispatcher's link into the task. -/
def Flight.create (ok : Bool) (a : FlbOutputThreadArgs) (f : Flight) : Flight :=
  ⟨flbOutputThread ok a f.eng,
    ⟨flbTaskAddCoro (outCoro f.eng.frames.length) f.bus.task,
      { f.bus.ins with thQueue := f.bus.ins.thQueue ++ [outCoro f.eng.frames.length] },
      f.bus.destroyed⟩,
    f.ended⟩

/-- `FLB_OUTPUT_RETURN(x)` in coroutine `i`, which only runs inside its `cb_flush` and only until it
has returned: `flb_output_return` on the coroutine's own `flb_output_coro` and its task, then
`flb_coro_yield(co, FLB_TRUE)`, after which the coroutine never runs again. -/
def Flight.ret (i : Nat) (x : Int) (ok : Bool) (f : Flight) : Flight :=
  if f.eng.frames[i]?.map Frame.pc = some .flushing ∧ i ∉ f.ended.map Ending.id then
    { f with
      bus := { f.bus with ins := flbOutputReturn x (outCoro i) f.bus.task ok f.bus.ins }
      ended := f.ended ++ [⟨i, x, ok⟩] }
  else f

/-- What the engine thread does next: create a coroutine, resume one, let coroutine `i` return `x`
from its `cb_flush` (its pipe write succeeding or not), or take in a completion. -/
inductive Move where
  | create (mallocOk : Bool) (a : FlbOutputThreadArgs)
  | resume (i : Nat)
  | ret (i : Nat) (x : Int) (pipeOk : Bool)
  | intake
  deriving DecidableEq, Repr

def Move.step : Move → Flight → Flight
  | .create ok a, f => f.create ok a
  | .resume i, f => { f with eng := coroResume i f.eng }
  | .ret i x ok, f => f.ret i x ok
  | .intake, f => { f with bus := BusEvent.intake.step f.bus }

def flightRun : List Move → Flight → Flight
  | [], f => f
  | m :: ms, f => flightRun ms (m.step f)

/-- The number of coroutines a run creates. -/
def creations : List Move → Nat
  | [] => 0
  | .create _ _ :: ms => creations ms + 1
  | _ :: ms => creations ms

/-- The thread's own action, for a creation or a resumption. -/
def Move.engine : Move → Option Action
  | .create ok a => some (.create ok a)
  | .resume i => some (.resume i)
  | _ => none

/-! ### The two projections -/

theorem flightRun_eng : ∀ (ms : List Move) (f : Flight),
    (flightRun ms f).eng = run (ms.filterMap Move.engine) f.eng
  | [], _ => rfl
  | .create _ _ :: ms, f => flightRun_eng ms _
  | .resume _ :: ms, f => flightRun_eng ms _
  | .ret i x ok :: ms, f => by
      rw [flightRun, flightRun_eng ms, List.filterMap_cons_none rfl]
      simp only [Move.step, Flight.ret]
      split <;> rfl
  | .intake :: ms, f => flightRun_eng ms _

theorem flbOutputCoroGet_of_mem {task : FlbTask} {oc : FlbOutputCoro}
    (hids : (task.coros.map FlbOutputCoro.id).Nodup) (h : oc ∈ task.coros) :
    flbOutputCoroGet oc.id task = some oc := by
  obtain ⟨oc', hget⟩ := flbOutputCoroGet_isSome (List.mem_map_of_mem _ h)
  obtain ⟨hmem, hid⟩ := flbOutputCoroGet_some hget
  rwa [List.inj_on_of_nodup_map hids hmem h hid] at hget

theorem Flight.ret_bus {f : Flight} {i : Nat} (x : Int) (ok : Bool)
    (hids : (f.bus.task.coros.map FlbOutputCoro.id).Nodup) (hi : outCoro i ∈ f.bus.task.coros)
    (hg : f.eng.frames[i]?.map Frame.pc = some .flushing ∧ i ∉ f.ended.map Ending.id) :
    (f.ret i x ok).bus = (BusEvent.ret i x ok).step f.bus := by
  have hget : flbOutputCoroGet i f.bus.task = some (outCoro i) := flbOutputCoroGet_of_mem hids hi
  rw [Flight.ret, if_pos hg]
  simp only [BusEvent.step, hget]

theorem intake_step_frame (b : Bus) :
    (BusEvent.intake.step b).ins.metrics = b.ins.metrics ∧
      (BusEvent.intake.step b).task.records = b.task.records ∧
      (BusEvent.intake.step b).task.size = b.task.size := by
  rcases intake_step_cases b with ⟨hev, h⟩ | ⟨w, ws, hev, ⟨-, h⟩ | ⟨oc, -, h⟩⟩ <;>
    simp [h, hev]

theorem Bus.Inv.link {n : Nat} {b : Bus} (hi : b.Inv n []) {oc : FlbOutputCoro}
    (hnew : oc.id ∉ b.task.coros.map FlbOutputCoro.id) (hs : oc.id < 2 ^ 15) :
    Bus.Inv (n + 1) []
      ⟨flbTaskAddCoro oc b.task, { b.ins with thQueue := b.ins.thQueue ++ [oc] }, b.destroyed⟩ := by
  have hcount := hi.count
  refine ⟨?_, ?_, fun c hc => ?_, fun c hc => ?_, fun w hw => ?_, hi.pending_nodup,
    fun _ _ => List.not_mem_nil _, hi.found, ?_⟩ <;> simp only [flbTaskAddCoro] at *
  · simp [hi.users]
  · rw [List.map_append, List.nodup_append]
    exact ⟨hi.ids, List.nodup_singleton _, List.disjoint_singleton.mpr hnew⟩
  · rcases List.mem_append.mp hc with hc | hc
    · exact hi.small c hc
    · rwa [List.mem_singleton.mp hc]
  · rcases List.mem_append.mp hc with hc | hc
    · exact List.mem_append_left _ (hi.queued c hc)
    · exact List.mem_append_right _ hc
  · exact List.map_append _ _ _ ▸ List.mem_append_left _ (hi.pending w hw)
  · simp only [List.length_append, List.length_singleton]; omega

/-! ### The coroutines, and which of them have returned -/

@[simp] theorem Flight.create_eng (ok : Bool) (a : FlbOutputThreadArgs) (f : Flight) :
    (f.create ok a).eng = flbOutputThread ok a f.eng := rfl

@[simp] theorem Flight.ret_eng (i : Nat) (x : Int) (ok : Bool) (f : Flight) :
    (f.ret i x ok).eng = f.eng := by
  unfold Flight.ret; split <;> rfl

/-- What holds of every state the engine thread reaches, whatever allocations fail: every
coroutine that returned did so from its `cb_flush`, where it stays, and none returned twice. -/
structure Flight.Returned (f : Flight) : Prop where
  ended : ∀ e ∈ f.ended, ∃ a, f.eng.frames[e.id]? = some ⟨a, .flushing⟩
  ended_nodup : (f.ended.map Ending.id).Nodup

section Returned

variable {f : Flight}

theorem Flight.returned_init (task : FlbTask) (m : Option FlbMetrics) :
    (Flight.init task m).Returned :=
  ⟨fun _ h => (List.not_mem_nil _ h).elim, List.nodup_nil⟩

theorem Flight.Returned.step (hr : f.Returned) : ∀ mv : Move, (mv.step f).Returned
  | .create ok a => ⟨fun e he => (hr.ended e he).imp fun _ h => by
      rw [Move.step, Flight.create_eng,
        flbOutputThread_getElem? _ _ _ (List.getElem?_eq_some_iff.mp h).1, h], hr.ended_nodup⟩
  | .resume i => ⟨fun e he => (hr.ended e he).imp fun a h => (coroResume_frames i f.eng).2 _ a h,
      hr.ended_nodup⟩
  | .ret i x ok => by
      simp only [Move.step, Flight.ret]
      split
      · next hg =>
        obtain ⟨fr, hfr, hpc⟩ := Option.map_eq_some'.mp hg.1
        refine ⟨fun e he => ?_, ?_⟩
        · rcases List.mem_append.mp he with he | he
          · exact hr.ended e he
          · rw [List.mem_singleton.mp he]; exact ⟨fr.args, by rw [hfr, ← hpc]⟩
        · rw [List.map_append, List.nodup_append]
          exact ⟨hr.ended_nodup, List.nodup_singleton _, List.disjoint_singleton.mpr hg.2⟩
      · exact hr
  | .intake => ⟨hr.ended, hr.ended_nodup⟩

theorem Flight.Returned.run : ∀ (ms : List Move) {f : Flight}, f.Returned → (flightRun ms f).Returned
  | [], _, hr => hr
  | mv :: ms, _, hr => (hr.step mv).run ms

end Returned

/-! ### Accounting along every run -/

/-- What holds of every state the engine thread reaches while the coroutine ids fit their field:
the bus invariant over the coroutines created so far; every coroutine that has not returned is
still linked; every linked coroutine is one created so far; every pending word was written by a
return; a coroutine whose word was lost is still linked; and one whose word was written and that is
still linked has its word pending. -/
structure Flight.Inv (f : Flight) : Prop where
  bus : f.bus.Inv f.eng.frames.length []
  linked : ∀ i < f.eng.frames.length, i ∉ f.ended.map Ending.id → outCoro i ∈ f.bus.task.coros
  own : ∀ oc ∈ f.bus.task.coros, ∃ i < f.eng.frames.length, oc = outCoro i
  delivered : ∀ w ∈ f.bus.ins.chEvents, ∃ e ∈ f.ended, e.id = pendingId w ∧ e.delivered = true
  lost : ∀ e ∈ f.ended, e.delivered = false → outCoro e.id ∈ f.bus.task.coros
  pending : ∀ e ∈ f.ended, e.delivered = true → outCoro e.id ∈ f.bus.task.coros →
    ∃ w ∈ f.bus.ins.chEvents, pendingId w = e.id

theorem Flight.inv_init (task : FlbTask) (m : Option FlbMetrics) : (Flight.init task m).Inv := by
  refine ⟨⟨?_, ?_, ?_, ?_, ?_, ?_, ?_, ?_, ?_⟩, ?_, ?_, ?_, ?_, ?_⟩ <;>
    simp [Flight.init, Engine.init]

section Steps

variable {f : Flight}

theorem Flight.Inv.create (hi : f.Inv) (hr : f.Returned) (hs : f.eng.frames.length < 2 ^ 15)
    (ok : Bool) (a : FlbOutputThreadArgs) : (f.create ok a).Inv := by
  have hlen := flbOutputThread_length ok a f.eng
  have hnew : (outCoro f.eng.frames.length).id ∉ f.bus.task.coros.map FlbOutputCoro.id := by
    intro h
    obtain ⟨oc, hoc, hid⟩ := List.mem_map.mp h
    obtain ⟨j, hj, rfl⟩ := hi.own oc hoc
    exact absurd hid (by simp only [outCoro]; omega)
  refine ⟨?_, fun j hj hje => ?_, fun oc hoc => ?_, hi.delivered, fun e he hd => ?_,
    fun e he hd hl => ?_⟩ <;> simp only [Flight.create, flbTaskAddCoro, hlen] at *
  · exact hi.bus.link hnew hs
  · rcases Nat.lt_succ_iff_lt_or_eq.mp hj with hj | rfl
    · exact List.mem_append_left _ (hi.linked j hj hje)
    · exact List.mem_append_right _ (List.mem_singleton_self _)
  · rcases List.mem_append.mp hoc with hoc | hoc
    · obtain ⟨j, hj, rfl⟩ := hi.own oc hoc
      exact ⟨j, by omega, rfl⟩
    · exact ⟨_, Nat.lt_succ_self _, List.mem_singleton.mp hoc⟩
  · exact List.mem_append_left _ (hi.lost e he hd)
  · rcases List.mem_append.mp hl with hl | hl
    · exact hi.pending e he hd hl
    · -- A coroutine that has returned was created before this one.
      have hlt := (List.getElem?_eq_some_iff.mp (hr.ended e he).choose_spec).1
      have hid : e.id = f.eng.frames.length := congrArg FlbOutputCoro.id (List.mem_singleton.mp hl)
      omega

theorem Flight.Inv.resume (hi : f.Inv) (i : Nat) :
    ({ f with eng := coroResume i f.eng } : Flight).Inv := by
  obtain ⟨hlen, -⟩ := coroResume_frames i f.eng
  exact ⟨hlen ▸ hi.bus, hlen ▸ hi.linked, hlen ▸ hi.own, hi.delivered, hi.lost, hi.pending⟩

theorem Flight.Inv.ret (hi : f.Inv) (i : Nat) (x : Int) (ok : Bool) :
    (f.ret i x ok).Inv := by
  by_cases hg : f.eng.frames[i]?.map Frame.pc = some .flushing ∧ i ∉ f.ended.map Ending.id
  · obtain ⟨fr, hfr, -⟩ := Option.map_eq_some'.mp hg.1
    have hlink := hi.linked i (List.getElem?_eq_some_iff.mp hfr).1 hg.2
    have hw : pendingId (flbBitsU64Set 2 (flbTaskSet x f.bus.task.id (outCoro i).id)) = i :=
      pendingId_flbBitsU64Set x _ (hi.bus.small _ hlink)
    -- No pending word names the coroutine: every pending word was written by a return.
    have hfresh : ∀ w ∈ f.bus.ins.chEvents, pendingId w ∉ [i] := fun w hw' hmem => by
      obtain ⟨e, he, hid, -⟩ := hi.delivered w hw'
      exact hg.2 (List.mem_map.mpr ⟨e, he, by rw [hid, List.mem_singleton.mp hmem]⟩)
    have hbus := Bus.Inv.ret { hi.bus with fresh := hfresh } (List.not_mem_nil i) x ok
    rw [← Flight.ret_bus x ok hi.bus.ids hlink hg] at hbus
    rw [Flight.ret, if_pos hg] at hbus ⊢
    refine ⟨hbus, fun j hj hje => hi.linked j hj fun h => hje (List.map_append _ _ _ ▸
      List.mem_append_left _ h), hi.own, fun w hw' => ?_,
      fun e he hd => ?_, fun e he hd hl => ?_⟩
    · rcases mem_flbOutputReturn_chEvents.mp hw' with hw' | ⟨rfl, rfl⟩
      · obtain ⟨e, he, h⟩ := hi.delivered w hw'
        exact ⟨e, List.mem_append_left _ he, h⟩
      · exact ⟨⟨i, x, true⟩, List.mem_append_right _ (List.mem_singleton_self _), hw.symm, rfl⟩
    · rcases List.mem_append.mp he with he | he
      · exact hi.lost e he hd
      · rw [List.mem_singleton.mp he]; exact hlink
    · rcases List.mem_append.mp he with he | he
      · obtain ⟨w, hw', hid⟩ := hi.pending e he hd hl
        exact ⟨w, mem_flbOutputReturn_chEvents.mpr (.inl hw'), hid⟩
      · obtain rfl := List.mem_singleton.mp he
        exact ⟨_, mem_flbOutputReturn_chEvents.mpr (.inr ⟨hd, rfl⟩), hw⟩
  · rw [Flight.ret, if_neg hg]; exact hi

theorem Flight.Inv.intake (hi : f.Inv) (hr : f.Returned) :
    ({ f with bus := BusEvent.intake.step f.bus } : Flight).Inv := by
  have hbus := hi.bus.intake
  rcases intake_step_cases f.bus with ⟨-, h⟩ | ⟨w, ws, hev, ⟨hnone, -⟩ | ⟨oc, hget, h⟩⟩
  · rw [h]; exact hi
  · obtain ⟨oc, hoc⟩ := flbOutputCoroGet_isSome (hi.bus.pending w (by simp [hev]))
    rw [hoc] at hnone; cases hnone
  · obtain ⟨hmem, hid⟩ := flbOutputCoroGet_some hget
    obtain ⟨e', he', heid, hdel⟩ := hi.delivered w (by simp [hev])
    have hkeep : ∀ j, j ≠ pendingId w → outCoro j ∈ f.bus.task.coros →
        outCoro j ∈ f.bus.task.coros.erase oc := fun j hj hm =>
      (List.mem_erase_of_ne fun he => hj (by rw [← hid, ← he]; rfl)).mpr hm
    rw [h] at hbus ⊢
    refine ⟨hbus, fun j hj hje => hkeep j ?_ (hi.linked j hj hje),
      fun c hc => hi.own c (List.mem_of_mem_erase hc),
      fun w' hw' => hi.delivered w' (by simp [hev, hw']),
      fun e he hd => hkeep e.id ?_ (hi.lost e he hd), fun e he hd hl => ?_⟩
    · rintro rfl; exact hje (List.mem_map.mpr ⟨e', he', heid⟩)
    · -- The word names a coroutine whose word was delivered, so not this one.
      intro hj
      have := List.inj_on_of_nodup_map hr.ended_nodup he he' (hj.trans heid.symm)
      rw [this, hdel] at hd; cases hd
    · obtain ⟨w', hw', hid'⟩ := hi.pending e he hd (List.mem_of_mem_erase hl)
      rcases List.mem_cons.mp (hev ▸ hw') with rfl | hw'
      · -- The word taken in names this coroutine, which the intake destroys.
        have hoc : oc = outCoro e.id :=
          List.inj_on_of_nodup_map hi.bus.ids hmem (List.mem_of_mem_erase hl) (hid.trans hid')
        exact absurd hl (hoc ▸ (List.Nodup.of_map _ hi.bus.ids).not_mem_erase)
      · exact ⟨w', hw', hid'⟩

end Steps

theorem Flight.Inv.run : ∀ (ms : List Move) {f : Flight}, f.Inv → f.Returned →
    f.eng.frames.length + creations ms ≤ 2 ^ 15 → (flightRun ms f).Inv
  | [], _, hi, _, _ => hi
  | .create ok a :: ms, f, hi, hr, hn => by
      have hlen := flbOutputThread_length ok a f.eng
      simp only [creations] at hn
      exact (hi.create hr (by omega) ok a).run ms (hr.step (.create ok a))
        (by simp only [Flight.create_eng, hlen]; omega)
  | .resume i :: ms, f, hi, hr, hn =>
      (hi.resume i).run ms (hr.step (.resume i)) (by rw [(coroResume_frames i f.eng).1]; exact hn)
  | .ret i x ok :: ms, f, hi, hr, hn =>
      (hi.ret i x ok).run ms (hr.step (.ret i x ok)) (by rw [Flight.ret_eng]; exact hn)
  | .intake :: ms, _, hi, hr, hn => (hi.intake hr).run ms (hr.step .intake) hn

theorem Flight.Inv.linked_iff {f : Flight} (hi : f.Inv) (i : Nat) :
    outCoro i ∈ f.bus.task.coros ↔ i < f.eng.frames.length ∧
      ∀ e ∈ f.ended, e.id = i → e.delivered = false ∨ ∃ w ∈ f.bus.ins.chEvents, pendingId w = i := by
  constructor
  · intro hl
    obtain ⟨j, hj, hij⟩ := hi.own _ hl
    obtain rfl : i = j := congrArg FlbOutputCoro.id hij
    refine ⟨hj, fun e he hid => ?_⟩
    subst hid
    cases hd : e.delivered
    · exact .inl rfl
    · exact .inr (hi.pending e he hd hl)
  · rintro ⟨hlt, hret⟩
    by_cases hmem : i ∈ f.ended.map Ending.id
    · obtain ⟨e, he, rfl⟩ := List.mem_map.mp hmem
      rcases hret e he rfl with hd | ⟨w, hw, hid⟩
      · exact hi.lost e he hd
      · -- A pending word names a linked coroutine, which is one created so far.
        obtain ⟨oc, hoc, hocid⟩ := List.mem_map.mp (hi.bus.pending w hw)
        obtain ⟨j, -, rfl⟩ := hi.own oc hoc
        rwa [show j = e.id from hocid.trans hid] at hoc
    · exact hi.linked i hlt hmem

/-! ### Metrics -/

/-- What the returns of a task's coroutines credit to the metrics `m`, by the values they
returned: the task's records and bytes once per `FLB_OK`, one error per `FLB_ERROR`, and nothing
for any other value. -/
def credited (task : FlbTask) (rets : List Int) (m : FlbMetrics) : FlbMetrics :=
  ⟨m.outOkRecords + task.records * rets.count flbOk, m.outOkBytes + task.size * rets.count flbOk,
    m.outError + rets.count flbError⟩

@[simp] theorem credited_nil (task : FlbTask) : credited task [] = id :=
  funext fun _ => rfl

theorem metricsReturn_credited {task task' : FlbTask} (hr : task.records = task'.records)
    (hs : task.size = task'.size) (rets : List Int) (x : Int) (m : FlbMetrics) :
    metricsReturn x task (credited task' rets m) = credited task' (rets ++ [x]) m := by
  unfold metricsReturn credited
  split_ifs with hok herr
  · simp [hr, hs, hok, flbOk, flbError, Nat.mul_succ, Nat.add_assoc]
  · simp [herr, flbOk, flbError, Nat.add_assoc]
  · simp [List.count_singleton', Ne.symm hok, Ne.symm herr]

/-- What holds of every state the engine thread reaches from a task `t` and metrics `m`: the task
keeps its records and size, and the metrics are `m` credited with every return so far. -/
structure Flight.Credits (t : FlbTask) (m : Option FlbMetrics) (f : Flight) : Prop where
  records : f.bus.task.records = t.records
  size : f.bus.task.size = t.size
  metrics : f.bus.ins.metrics = m.map (credited t (f.ended.map Ending.ret))

theorem Flight.Credits.step {t : FlbTask} {m : Option FlbMetrics} {f : Flight}
    (hc : f.Credits t m) : ∀ mv : Move, (mv.step f).Credits t m
  | .create _ _ | .resume _ => ⟨hc.records, hc.size, hc.metrics⟩
  | .ret i x ok => by
      simp only [Move.step, Flight.ret]
      split
      · refine ⟨hc.records, hc.size, ?_⟩
        simp only [flbOutputReturn, hc.metrics, Option.map_map, List.map_append, List.map_singleton]
        congr 1; funext m'
        exact metricsReturn_credited hc.records hc.size _ x m'
      · exact hc
  | .intake => by
      obtain ⟨hm, hr, hs⟩ := intake_step_frame f.bus
      exact ⟨hr.trans hc.records, hs.trans hc.size, hm.trans hc.metrics⟩

theorem Flight.Credits.run {t : FlbTask} {m : Option FlbMetrics} :
    ∀ (ms : List Move) {f : Flight}, f.Credits t m → (flightRun ms f).Credits t m
  | [], _, hc => hc
  | mv :: ms, _, hc => (hc.step mv).run ms

/-! ### The instance's coroutine queue -/

theorem Flight.queue_step {f : Flight} (h : f.bus.ins.thQueue = f.bus.task.coros) :
    ∀ mv : Move, (mv.step f).bus.ins.thQueue = (mv.step f).bus.task.coros
  | .create _ _ => by simp only [Move.step, Flight.create, flbTaskAddCoro, h]
  | .resume _ => h
  | .ret i x ok => by
      simp only [Move.step, Flight.ret]
      split <;> exact h
  | .intake => by
      rcases intake_step_cases f.bus with ⟨-, h'⟩ | ⟨w, ws, -, ⟨-, h'⟩ | ⟨oc, -, h'⟩⟩ <;>
        simp only [Move.step, h', h]

theorem Flight.queue_run : ∀ (ms : List Move) {f : Flight}, f.bus.ins.thQueue = f.bus.task.coros →
    (flightRun ms f).bus.ins.thQueue = (flightRun ms f).bus.task.coros
  | [], _, h => h
  | mv :: ms, _, h => Flight.queue_run ms (Flight.queue_step h mv)

/-! ### Along every run from a fresh task -/

theorem flightRun_inv (task : FlbTask) (m : Option FlbMetrics) (ms : List Move)
    (hn : creations ms ≤ 2 ^ 15) : (flightRun ms (.init task m)).Inv :=
  (Flight.inv_init task m).run ms (Flight.returned_init task m) (by simpa [Flight.init, Engine.init])

/-- Every flush coroutine of a task, in every interleaving on the engine thread of creations,
resumptions, returns through `FLB_OUTPUT_RETURN` (each pipe write succeeding or failing) and
intakes of completion words, with at most `2^15` coroutines so that their ids fit the word: every
intake finds and destroys the coroutine its word names, the task's users are the coroutines still
linked, which all sit in the instance's queue, each coroutine created is either linked or has been
destroyed by exactly one intake, and one that is no longer linked called its `cb_flush` and
returned from it with its word delivered. -/
theorem flightRun_accounts (task : FlbTask) (m : Option FlbMetrics) (ms : List Move)
    (hn : creations ms ≤ 2 ^ 15) :
    let f := flightRun ms (.init task m)
    (∀ r ∈ f.bus.destroyed, r = 0) ∧
      f.bus.task.users = f.bus.task.coros.length ∧
      (∀ oc ∈ f.bus.task.coros, oc ∈ f.bus.ins.thQueue) ∧
      f.bus.destroyed.length + f.bus.task.coros.length = f.eng.frames.length ∧
      ∀ i < f.eng.frames.length, outCoro i ∉ f.bus.task.coros →
        (∃ c, (i, c) ∈ f.eng.flushed) ∧ ∃ e ∈ f.ended, e.id = i ∧ e.delivered = true := by
  intro f
  have hi : f.Inv := flightRun_inv task m ms hn
  have hr : f.Returned := (Flight.returned_init task m).run ms
  have hfl : f.eng.Flushed := by
    show (flightRun ms _).eng.Flushed
    rw [flightRun_eng]; exact Engine.flushed_init.run _
  refine ⟨hi.bus.found, hi.bus.users, hi.bus.queued, hi.bus.count, fun i hlt hun => ?_⟩
  -- A coroutine no longer linked has returned, and not with a lost word.
  have hended : i ∈ f.ended.map Ending.id := by
    by_contra h; exact hun (hi.linked i hlt h)
  obtain ⟨e, he, rfl⟩ := List.mem_map.mp hended
  have hdel : e.delivered = true := by
    by_contra h; exact hun (hi.lost e he (by simpa using h))
  obtain ⟨a, ha⟩ := hr.ended e he
  exact ⟨hfl e.id a ha, e, he, rfl, hdel⟩

/-- A task of 3 records and 120 bytes whose one coroutine flushes, returns `FLB_OK` and is taken
in. -/
def oneFlushMoves : List Move :=
  [.create true ⟨1, 2, 3, 4, 5, 6, 7, 8⟩, .resume 0, .ret 0 flbOk true, .intake]

theorem flightRun_accounts_oneFlush :
    creations oneFlushMoves ≤ 2 ^ 15 ∧
      let f := flightRun oneFlushMoves (.init ⟨7, 3, 120, [], 0⟩ (some ⟨0, 0, 0⟩))
      (∀ r ∈ f.bus.destroyed, r = 0) ∧
        f.bus.task.users = f.bus.task.coros.length ∧
        (∀ oc ∈ f.bus.task.coros, oc ∈ f.bus.ins.thQueue) ∧
        f.bus.destroyed.length + f.bus.task.coros.length = f.eng.frames.length ∧
        ∀ i < f.eng.frames.length, outCoro i ∉ f.bus.task.coros →
          (∃ c, (i, c) ∈ f.eng.flushed) ∧ ∃ e ∈ f.ended, e.id = i ∧ e.delivered = true :=
  ⟨by decide, flightRun_accounts _ _ _ (by decide)⟩

-- The run retires the task: no user is left and the metrics hold its records and bytes.
example : (flightRun oneFlushMoves (.init ⟨7, 3, 120, [], 0⟩ (some ⟨0, 0, 0⟩))).bus.task.users = 0 ∧
    (flightRun oneFlushMoves (.init ⟨7, 3, 120, [], 0⟩ (some ⟨0, 0, 0⟩))).bus.ins.metrics =
      some ⟨3, 120, 0⟩ := by
  decide

/-- In every run from a fresh task, whatever allocations and pipe writes fail, the instance's
metrics are those it started with credited once for every return, delivered or lost: the task's
records and bytes per `FLB_OK`, one error per `FLB_ERROR`, and nothing for any other value.
Intakes never touch them. That no coroutine returns twice is not derived here: it is the guard of
`Flight.ret`, which models `flb_coro_yield(co, FLB_TRUE)` ending the coroutine after
`flb_output_return`. -/
theorem flightRun_credits (task : FlbTask) (m : Option FlbMetrics) (ms : List Move) :
    ((flightRun ms (.init task m)).ended.map Ending.id).Nodup ∧
      (flightRun ms (.init task m)).bus.ins.metrics =
        m.map (credited task ((flightRun ms (.init task m)).ended.map Ending.ret)) :=
  ⟨((Flight.returned_init task m).run ms).ended_nodup,
    (Flight.Credits.run (t := task) ms (f := .init task m) ⟨rfl, rfl, by simp [Flight.init]⟩).metrics⟩

/-- A coroutine whose completion word `flb_pipe_w` failed to write is never destroyed by the event
loop: in every state reached after its return it is still linked, and the task keeps a user, so
the task is never retired through the completion path. -/
theorem flightRun_lost_pinned (task : FlbTask) (m : Option FlbMetrics) (ms : List Move)
    (hn : creations ms ≤ 2 ^ 15) :
    ∀ e ∈ (flightRun ms (.init task m)).ended, e.delivered = false →
      outCoro e.id ∈ (flightRun ms (.init task m)).bus.task.coros ∧
        0 < (flightRun ms (.init task m)).bus.task.users := by
  intro e he hd
  have hi := flightRun_inv task m ms hn
  have hl := hi.lost e he hd
  refine ⟨hl, ?_⟩
  rw [hi.bus.users]
  exact Int.ofNat_pos.mpr (List.length_pos_of_mem hl)

/-- In every run from a fresh task on an instance with an empty coroutine queue, whatever
allocations and pipe writes fail, the instance's queue is the task's list of linked coroutines: a
coroutine destroyed at an intake, and so freed, never stays queued on the instance, and every
linked one is queued. -/
theorem flightRun_thQueue (task : FlbTask) (m : Option FlbMetrics) (ms : List Move) :
    (flightRun ms (.init task m)).bus.ins.thQueue = (flightRun ms (.init task m)).bus.task.coros :=
  Flight.queue_run ms rfl

/-- Two coroutines: the first returns `FLB_OK` but its word is lost, the second returns
`FLB_ERROR` and its word is taken in. -/
def lostWordMoves : List Move :=
  [.create true ⟨1, 2, 3, 4, 5, 6, 7, 8⟩, .create true ⟨9, 10, 11, 12, 13, 14, 15, 16⟩,
    .resume 0, .resume 1, .ret 0 flbOk false, .ret 1 flbError true, .intake, .intake]

theorem flightRun_lost_pinned_two :
    creations lostWordMoves ≤ 2 ^ 15 ∧
      ∀ e ∈ (flightRun lostWordMoves (.init ⟨7, 3, 120, [], 0⟩ none)).ended, e.delivered = false →
        outCoro e.id ∈ (flightRun lostWordMoves (.init ⟨7, 3, 120, [], 0⟩ none)).bus.task.coros ∧
          0 < (flightRun lostWordMoves (.init ⟨7, 3, 120, [], 0⟩ none)).bus.task.users :=
  ⟨by decide, flightRun_lost_pinned _ _ _ (by decide)⟩

/-- In every run from a fresh task with at most `2^15` coroutines, a coroutine is linked into the
task exactly when it has been created and has not been accounted for: it has not returned, or its
word was lost, or its word is still in the event pipe. -/
theorem flightRun_linked_iff (task : FlbTask) (m : Option FlbMetrics) (ms : List Move)
    (hn : creations ms ≤ 2 ^ 15) (i : Nat) :
    let f := flightRun ms (.init task m)
    outCoro i ∈ f.bus.task.coros ↔ i < f.eng.frames.length ∧
      ∀ e ∈ f.ended, e.id = i → e.delivered = false ∨ ∃ w ∈ f.bus.ins.chEvents, pendingId w = i :=
  (flightRun_inv task m ms hn).linked_iff i

theorem flightRun_linked_iff_lostWord :
    creations lostWordMoves ≤ 2 ^ 15 ∧
      let f := flightRun lostWordMoves (.init ⟨7, 3, 120, [], 0⟩ none)
      (outCoro 0 ∈ f.bus.task.coros ↔ 0 < f.eng.frames.length ∧
        ∀ e ∈ f.ended, e.id = 0 → e.delivered = false ∨ ∃ w ∈ f.bus.ins.chEvents, pendingId w = 0) :=
  ⟨by decide, flightRun_linked_iff _ _ _ (by decide) 0⟩

-- Before the intake, the coroutine that returned is linked through its pending word.
example : let f := flightRun (oneFlushMoves.take 3) (.init ⟨7, 3, 120, [], 0⟩ none)
    f.bus.task.coros = [outCoro 0] ∧ (f.bus.ins.chEvents.map pendingId) = [0] := by
  decide

/-- In every run from a fresh task with at most `2^15` coroutines, the task has no user left
exactly when every coroutine created has returned with its word written and the event loop has
taken in every word: only then can it be released through the completion path. -/
theorem flightRun_released (task : FlbTask) (m : Option FlbMetrics) (ms : List Move)
    (hn : creations ms ≤ 2 ^ 15) :
    let f := flightRun ms (.init task m)
    f.bus.task.users = 0 ↔ f.bus.ins.chEvents = [] ∧
      ∀ i < f.eng.frames.length, ∃ e ∈ f.ended, e.id = i ∧ e.delivered = true := by
  intro f
  have hi : f.Inv := flightRun_inv task m ms hn
  rw [hi.bus.users, Int.natCast_eq_zero, List.length_eq_zero]
  constructor
  · intro hnil
    refine ⟨List.eq_nil_iff_forall_not_mem.mpr fun w hw => ?_, fun i hlt => ?_⟩
    · -- A pending word names a linked coroutine.
      simpa [hnil] using hi.bus.pending w hw
    · -- A coroutine no longer linked has been accounted for by a delivered word.
      by_contra hno
      push_neg at hno
      have hl := (hi.linked_iff i).mpr
        ⟨hlt, fun e he hid => .inl (Bool.eq_false_iff.mpr (hno e he hid))⟩
      simp [hnil] at hl
  · rintro ⟨hev, hall⟩
    refine List.eq_nil_iff_forall_not_mem.mpr fun oc hoc => ?_
    obtain ⟨j, hj, rfl⟩ := hi.own oc hoc
    obtain ⟨e, he, hid, hd⟩ := hall j hj
    rcases ((hi.linked_iff j).mp hoc).2 e he hid with hd' | ⟨w, hw, -⟩
    · rw [hd] at hd'; cases hd'
    · rw [hev] at hw; exact List.not_mem_nil _ hw

theorem flightRun_released_oneFlush :
    creations oneFlushMoves ≤ 2 ^ 15 ∧
      let f := flightRun oneFlushMoves (.init ⟨7, 3, 120, [], 0⟩ (some ⟨0, 0, 0⟩))
      (f.bus.task.users = 0 ↔ f.bus.ins.chEvents = [] ∧
        ∀ i < f.eng.frames.length, ∃ e ∈ f.ended, e.id = i ∧ e.delivered = true) :=
  ⟨by decide, flightRun_released _ _ _ (by decide)⟩

theorem filter_fst_eq_singleton {i : Nat} {c : CbFlush} :
    ∀ {l : List (Nat × CbFlush)}, (l.map Prod.fst).Nodup → (i, c) ∈ l →
      l.filter (fun p => p.1 == i) = [(i, c)]
  | [], _, h => absurd h (List.not_mem_nil _)
  | (j, d) :: l, hnd, h => by
      rw [List.map_cons, List.nodup_cons] at hnd
      rcases List.mem_cons.mp h with h | h
      · obtain ⟨rfl, rfl⟩ := Prod.mk.inj h
        rw [List.filter_cons_of_pos (by simp), List.filter_eq_nil_iff.mpr]
        exact fun p hp he => hnd.1 (List.mem_map.mpr ⟨p, hp, beq_iff_eq.mp he⟩)
      · have hij : j ≠ i := fun he => hnd.1 (List.mem_map.mpr ⟨_, h, he.symm⟩)
        rw [List.filter_cons_of_neg (by simpa using hij), filter_fst_eq_singleton hnd.2 h]

/-- In every run from a fresh task in which the params slot can be allocated, every coroutine that
returned through `FLB_OUTPUT_RETURN` did so from the one `cb_flush` call it made, and that call
had the arguments of its own creation, the run's creation with its number. -/
theorem flightRun_returned_own (task : FlbTask) (m : Option FlbMetrics) (ms : List Move)
    (hs : SlotAllocates (ms.filterMap Move.engine) Engine.init) :
    ∀ e ∈ (flightRun ms (.init task m)).ended, ∃ a,
      (creationArgs (ms.filterMap Move.engine))[e.id]? = some a ∧
        (flightRun ms (.init task m)).eng.flushed.filter (fun p => p.1 == e.id) =
          [(e.id, ownFlush a)] := by
  intro e he
  obtain ⟨b, hb⟩ := ((Flight.returned_init task m).run ms).ended e he
  rw [flightRun_eng] at hb ⊢
  obtain ⟨c, hc⟩ := Engine.flushed_init.run _ e.id b hb
  obtain ⟨a, ha, rfl⟩ := run_flushed_creationArgs _ hs hc
  exact ⟨a, ha, filter_fst_eq_singleton (Engine.flushOnce_init.run _).nodup hc⟩

theorem flightRun_returned_own_oneFlush :
    SlotAllocates (oneFlushMoves.filterMap Move.engine) Engine.init ∧
      ∀ e ∈ (flightRun oneFlushMoves (.init ⟨7, 3, 120, [], 0⟩ none)).ended, ∃ a,
        (creationArgs (oneFlushMoves.filterMap Move.engine))[e.id]? = some a ∧
          (flightRun oneFlushMoves (.init ⟨7, 3, 120, [], 0⟩ none)).eng.flushed.filter
            (fun p => p.1 == e.id) = [(e.id, ownFlush a)] :=
  ⟨⟨.inr rfl, trivial⟩, flightRun_returned_own _ _ _ ⟨.inr rfl, trivial⟩⟩

end FluentBit.Output
