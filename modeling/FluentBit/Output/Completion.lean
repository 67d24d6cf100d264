import Mathlib

/-!
The return path of a flush coroutine in `flb_output.h`, and the bookkeeping of the event loop when
it takes in a completion. `flb_output_return` writes one 64-bit word naming the return value, the
task and the coroutine to the output instance's event pipe, then credits the instance's metrics.
The event loop reads the word and destroys that coroutine through `flb_output_coro_destroy_id`,
which unlinks it from the task and the instance and drops one task user. The word's layout and the
event loop itself are not part of these sources, so both are modelled from the spec.
-/

namespace FluentBit.Output

/-- Modelled from the spec: `FLB_OK`. -/
def flbOk : Int := 0

/-- Modelled from the spec: `FLB_ERROR`. -/
def flbError : Int := 1

/-- Modelled from the spec: `FLB_TASK_SET`, the low 32 bits of a completion word: the return value
in the top two bits, then the task id and the coroutine id in fifteen bits each. -/
def flbTaskSet (ret : Int) (taskId outId : Nat) : Nat :=
  ret.toNat * 2 ^ 30 + taskId * 2 ^ 15 + outId

/-- Modelled from the spec: `FLB_BITS_U64_SET`, the event kind in the high 32 bits of a word. -/
def flbBitsU64Set (kind set : Nat) : Nat := kind * 2 ^ 32 + set

/-- Modelled from the spec: the event loop reads a word back by mask and shift, as its event kind,
return value, task id and coroutine id. -/
def decodeCompletion (w : Nat) : Nat × Nat × Nat × Nat :=
  (w / 2 ^ 32, w % 2 ^ 32 / 2 ^ 30, w % 2 ^ 30 / 2 ^ 15, w % 2 ^ 15)

/-- Modelled from the spec: the coroutine a completion word names. -/
def pendingId (w : Nat) : Nat := (decodeCompletion w).2.2.2

theorem pendingId_flbBitsU64Set (ret : Int) (taskId : Nat) {outId : Nat} (ho : outId < 2 ^ 15) :
    pendingId (flbBitsU64Set 2 (flbTaskSet ret taskId outId)) = outId := by
  simp only [pendingId, decodeCompletion, flbBitsU64Set, flbTaskSet]
  omega

/-- The counters of `o_ins->metrics` that `flb_output_return` credits. -/
structure FlbMetrics where
  outOkRecords : Nat
  outOkBytes : Nat
  outError : Nat
  deriving DecidableEq, Repr

/-- `struct flb_output_coro`, with its id and the address of its `flb_coro`, which tells two
coroutines apart. -/
structure FlbOutputCoro where
  id : Nat
  parent : Nat
  deriving DecidableEq, Repr

/-- The fields of the task a coroutine flushes that the return path reads and writes: its id,
record count and size, the coroutines linked into it (`task->coros`) and `users`. -/
structure FlbTask where
  id : Nat
  records : Nat
  size : Nat
  coros : List FlbOutputCoro
  users : Int
  deriving DecidableEq, Repr

/-- The fields of `struct flb_output_instance` the return path reads and writes: the words written
to its event pipe `ch_events`, oldest first; its coroutine queue `th_queue`; and its metrics,
`none` when `o_ins->metrics` is `NULL`. -/
structure FlbOutputInstance where
  chEvents : List Nat
  thQueue : List FlbOutputCoro
  metrics : Option FlbMetrics
  deriving DecidableEq, Repr

/-- The metrics block of `flb_output_return`: records and bytes for `FLB_OK`, one error for
`FLB_ERROR`, nothing for `FLB_RETRY` or any other value; `flb_metrics_sum` adds to a counter. -/
def metricsReturn (ret : Int) (task : FlbTask) (m : FlbMetrics) : FlbMetrics :=
  if ret = flbOk then
    { m with outOkRecords := m.outOkRecords + task.records, outOkBytes := m.outOkBytes + task.size }
  else if ret = flbError then { m with outError := m.outError + 1 }
  else m

/-- `flb_output_return`: the word `FLB_BITS_U64_SET(2, FLB_TASK_SET(ret, task->id, out_coro->id))`
goes to the event pipe when `flb_pipe_w` writes it (`pipeOk`); a failed write is only reported
through `flb_errno`. The metrics are credited either way. -/
def flbOutputReturn (ret : Int) (oc : FlbOutputCoro) (task : FlbTask) (pipeOk : Bool)
    (ins : FlbOutputInstance) : FlbOutputInstance :=
  { ins with
    chEvents := if pipeOk then ins.chEvents ++ [flbBitsU64Set 2 (flbTaskSet ret task.id oc.id)]
      else ins.chEvents
    metrics := ins.metrics.map (metricsReturn ret task) }

/-- `flb_output_coro_get`: the first coroutine of the task with id `id`. -/
def flbOutputCoroGet (id : Nat) (task : FlbTask) : Option FlbOutputCoro :=
  task.coros.find? fun oc => oc.id == id

/-- `flb_output_coro_destroy_id`: `-1` when the task has no coroutine `id`; otherwise `0`, the
coroutine unlinked from the instance's queue and from the task, and one task user less.
`flb_coro_destroy` frees the coroutine, which nothing here reads again. -/
def flbOutputCoroDestroyId (id : Nat) (task : FlbTask) (ins : FlbOutputInstance) :
    Int × FlbTask × FlbOutputInstance :=
  match flbOutputCoroGet id task with
  | none => (-1, task, ins)
  | some oc =>
      (0, { task with coros := task.coros.erase oc, users := task.users - 1 },
        { ins with thQueue := ins.thQueue.erase oc })

/-- `cb_output_coro_destroy`, the callback a coroutine is created with: one task user less, and
the coroutine unlinked from the task and the instance's queue. -/
def cbOutputCoroDestroy (oc : FlbOutputCoro) (task : FlbTask) (ins : FlbOutputInstance) :
    FlbTask × FlbOutputInstance :=
  ({ task with users := task.users - 1, coros := task.coros.erase oc },
    { ins with thQueue := ins.thQueue.erase oc })

theorem flbOutputCoroGet_some {id : Nat} {task : FlbTask} {oc : FlbOutputCoro}
    (h : flbOutputCoroGet id task = some oc) : oc ∈ task.coros ∧ oc.id = id :=
  ⟨List.mem_of_find?_eq_some h, by simpa using List.find?_some h⟩

theorem flbOutputCoroGet_isSome {id : Nat} {task : FlbTask}
    (h : id ∈ task.coros.map FlbOutputCoro.id) : ∃ oc, flbOutputCoroGet id task = some oc := by
  obtain ⟨oc, hoc, rfl⟩ := List.mem_map.mp h
  exact Option.isSome_iff_exists.mp (List.find?_isSome.mpr ⟨oc, hoc, by simp⟩)

theorem flbOutputCoroDestroyId_found {id : Nat} {task : FlbTask} {oc : FlbOutputCoro}
    (ins : FlbOutputInstance) (h : flbOutputCoroGet id task = some oc) :
    flbOutputCoroDestroyId id task ins = (0, cbOutputCoroDestroy oc task ins) := by
  simp [flbOutputCoroDestroyId, h, cbOutputCoroDestroy]

/-- Modelled from the spec: the event loop reads the oldest word of the instance's event pipe and
destroys the coroutine it names through `flb_output_coro_destroy_id`; `none` when the pipe is
empty. -/
def takeCompletion (task : FlbTask) (ins : FlbOutputInstance) :
    Option (Int × FlbTask × FlbOutputInstance) :=
  match ins.chEvents with
  | [] => none
  | w :: ws => some (flbOutputCoroDestroyId (pendingId w) task { ins with chEvents := ws })

/-- One task flushed through one output instance, with what each intake's
`flb_output_coro_destroy_id` returned. -/
structure Bus where
  task : FlbTask
  ins : FlbOutputInstance
  destroyed : List Int
  deriving DecidableEq, Repr

/-- What happens next: a coroutine of the task, named by its id, returns `x` through
`FLB_OUTPUT_RETURN`, its pipe write succeeding or not; or the event loop takes in a completion. -/
inductive BusEvent where
  | ret (id : Nat) (x : Int) (pipeOk : Bool)
  | intake
  deriving DecidableEq, Repr

def BusEvent.step : BusEvent → Bus → Bus
  | .ret id x ok, b =>
      match flbOutputCoroGet id b.task with
      | some oc => { b with ins := flbOutputReturn x oc b.task ok b.ins }
      | none => b
  | .intake, b =>
      match takeCompletion b.task b.ins with
      | some (r, task, ins) => ⟨task, ins, b.destroyed ++ [r]⟩
      | none => b

def busRun : List BusEvent → Bus → Bus
  | [], b => b
  | ev :: evs, b => busRun evs (ev.step b)

theorem mem_flbOutputReturn_chEvents {x : Int} {oc : FlbOutputCoro} {task : FlbTask} {ok : Bool}
    {ins : FlbOutputInstance} {w : Nat} :
    w ∈ (flbOutputReturn x oc task ok ins).chEvents ↔
      w ∈ ins.chEvents ∨ ok = true ∧ w = flbBitsU64Set 2 (flbTaskSet x task.id oc.id) := by
  cases ok <;> simp [flbOutputReturn]

theorem intake_step_cases (b : Bus) :
    b.ins.chEvents = [] ∧ BusEvent.intake.step b = b ∨
      ∃ w ws, b.ins.chEvents = w :: ws ∧
        ((flbOutputCoroGet (pendingId w) b.task = none ∧
            BusEvent.intake.step b = ⟨b.task, { b.ins with chEvents := ws }, b.destroyed ++ [-1]⟩) ∨
          ∃ oc, flbOutputCoroGet (pendingId w) b.task = some oc ∧
            BusEvent.intake.step b =
              ⟨{ b.task with coros := b.task.coros.erase oc, users := b.task.users - 1 },
                { b.ins with chEvents := ws, thQueue := b.ins.thQueue.erase oc },
                b.destroyed ++ [0]⟩) := by
  simp only [BusEvent.step, takeCompletion]
  rcases hev : b.ins.chEvents with _ | ⟨w, ws⟩
  · exact .inl ⟨rfl, rfl⟩
  · refine .inr ⟨w, ws, rfl, ?_⟩
    cases hget : flbOutputCoroGet (pendingId w) b.task with
    | none => exact .inl ⟨rfl, by simp [flbOutputCoroDestroyId, hget]⟩
    | some oc =>
        exact .inr ⟨oc, rfl, by simp [flbOutputCoroDestroyId_found _ hget, cbOutputCoroDestroy]⟩

/-- The ids of the coroutines that return in a run, in order. -/
def returns : List BusEvent → List Nat
  | [] => []
  | .ret id _ _ :: evs => id :: returns evs
  | .intake :: evs => returns evs

theorem mem_returns {id : Nat} {x : Int} {ok : Bool} {evs : List BusEvent}
    (h : BusEvent.ret id x ok ∈ evs) : id ∈ returns evs := by
  induction evs with
  | nil => cases h
  | cons ev evs ih =>
      cases ev with
      | ret =>
          rcases List.mem_cons.mp h with h | h
          · cases h; exact List.mem_cons_self _ _
          · exact List.mem_cons_of_mem _ (ih h)
      | intake => exact ih (by simpa using h)

theorem returns_lost {id : Nat} {x : Int} {evs : List BusEvent} (hnd : (returns evs).Nodup)
    (h : BusEvent.ret id x false ∈ evs) (x' : Int) : BusEvent.ret id x' true ∉ evs := by
  induction evs with
  | nil => exact List.not_mem_nil _
  | cons ev evs ih =>
      intro h'
      cases ev with
      | ret j y ok =>
          rw [returns, List.nodup_cons] at hnd
          rcases List.mem_cons.mp h with he | ht <;> rcases List.mem_cons.mp h' with he' | ht'
          · cases he.trans he'.symm
          · cases he; exact hnd.1 (mem_returns ht')
          · cases he'; exact hnd.1 (mem_returns ht)
          · exact ih hnd.2 ht ht'
      | intake => exact ih hnd (by simpa using h) (by simpa using h')

/-- What holds along a run from a task with `n` coroutines, given the coroutines `later` that will
still return: every user is a linked coroutine; the linked coroutines have distinct ids that fit
their field and sit in the instance's queue; every pending word names a linked coroutine, at most
one word per coroutine and none for a coroutine that will still return; every intake so far found
its coroutine; and each of the `n` coroutines is linked or has been destroyed. -/
structure Bus.Inv (n : Nat) (later : List Nat) (b : Bus) : Prop where
  users : b.task.users = b.task.coros.length
  ids : (b.task.coros.map FlbOutputCoro.id).Nodup
  small : ∀ oc ∈ b.task.coros, oc.id < 2 ^ 15
  queued : ∀ oc ∈ b.task.coros, oc ∈ b.ins.thQueue
  pending : ∀ w ∈ b.ins.chEvents, pendingId w ∈ b.task.coros.map FlbOutputCoro.id
  pending_nodup : (b.ins.chEvents.map pendingId).Nodup
  fresh : ∀ w ∈ b.ins.chEvents, pendingId w ∉ later
  found : ∀ r ∈ b.destroyed, r = 0
  count : b.destroyed.length + b.task.coros.length = n

section Steps

variable {n : Nat} {later : List Nat} {b : Bus}

theorem Bus.Inv.ret {id : Nat} (hi : b.Inv n (id :: later)) (hid : id ∉ later) (x : Int)
    (ok : Bool) : ((BusEvent.ret id x ok).step b).Inv n later := by
  have hfresh : ∀ w ∈ b.ins.chEvents, pendingId w ∉ later := fun w hw hl =>
    hi.fresh w hw (List.mem_cons_of_mem _ hl)
  simp only [BusEvent.step]
  cases hget : flbOutputCoroGet id b.task with
  | none => exact { hi with fresh := hfresh }
  | some oc =>
      obtain ⟨hoc, rfl⟩ := flbOutputCoroGet_some hget
      have hw : pendingId (flbBitsU64Set 2 (flbTaskSet x b.task.id oc.id)) = oc.id :=
        pendingId_flbBitsU64Set x b.task.id (hi.small oc hoc)
      dsimp only
      cases ok
      · exact { hi with fresh := hfresh }
      · refine { hi with pending := fun w hw' => ?_, pending_nodup := ?_, fresh := fun w hw' => ?_ }
        · rcases List.mem_append.mp hw' with hw' | hw'
          · exact hi.pending w hw'
          · rw [List.mem_singleton.mp hw', hw]; exact List.mem_map_of_mem _ hoc
        · simp only [flbOutputReturn, if_true, List.map_append, List.map_singleton, hw]
          refine List.nodup_append.mpr ⟨hi.pending_nodup, List.nodup_singleton _, ?_⟩
          simp only [List.disjoint_singleton, List.mem_map, not_exists, not_and]
          exact fun w hw' he => hi.fresh w hw' (he ▸ List.mem_cons_self _ _)
        · rcases List.mem_append.mp hw' with hw' | hw'
          · exact hfresh w hw'
          · rw [List.mem_singleton.mp hw', hw]; exact hid

theorem Bus.Inv.intake (hi : b.Inv n later) : (BusEvent.intake.step b).Inv n later := by
  rcases intake_step_cases b with ⟨-, h⟩ | ⟨w, ws, hev, ⟨hget, -⟩ | ⟨oc, hget, h⟩⟩
  · rw [h]; exact hi
  · -- Every pending word names a linked coroutine, which the intake finds.
    obtain ⟨oc, hoc⟩ := flbOutputCoroGet_isSome (hi.pending w (by simp [hev]))
    cases hget.symm.trans hoc
  rw [h]
  obtain ⟨hoc, hid⟩ := flbOutputCoroGet_some hget
  have hnd : ((w :: ws).map pendingId).Nodup := hev ▸ hi.pending_nodup
  rw [List.map_cons, List.nodup_cons] at hnd
  have hlen := List.length_erase_of_mem hoc
  have hpos := List.length_pos_of_mem hoc
  have hcount := hi.count
  have hmem : ∀ c, c ∈ b.task.coros.erase oc ↔ c ≠ oc ∧ c ∈ b.task.coros := fun _ =>
    (List.Nodup.of_map _ hi.ids).mem_erase_iff
  refine ⟨?_, hi.ids.sublist ((List.erase_sublist _ _).map _),
    fun oc' h => hi.small oc' (List.mem_of_mem_erase h),
    fun oc' h => (List.mem_erase_of_ne ((hmem oc').mp h).1).mpr (hi.queued oc' ((hmem oc').mp h).2),
    fun w' hw' => ?_, hnd.2, fun w' hw' => hi.fresh w' (by simp [hev, hw']), ?_, ?_⟩
  · simp only [hi.users, hlen]
    omega
  · -- The other pending words name other coroutines, which stay linked.
    obtain ⟨c, hc, hcid⟩ := List.mem_map.mp (hi.pending w' (by simp [hev, hw']))
    have hne : c ≠ oc := fun he => hnd.1 (List.mem_map.mpr ⟨w', hw', by rw [← hcid, he, hid]⟩)
    exact List.mem_map.mpr ⟨c, (List.mem_erase_of_ne hne).mpr hc, hcid⟩
  · intro r hr
    rcases List.mem_append.mp hr with hr | hr
    · exact hi.found r hr
    · exact List.mem_singleton.mp hr
  · simp only [List.length_append, List.length_singleton, hlen]
    omega

theorem Bus.Inv.event (ev : BusEvent) {evs : List BusEvent} (hi : b.Inv n (returns (ev :: evs)))
    (hnd : (returns (ev :: evs)).Nodup) : (ev.step b).Inv n (returns evs) ∧ (returns evs).Nodup :=
  match ev with
  | .ret _ x ok => ⟨hi.ret (List.nodup_cons.mp hnd).1 x ok, (List.nodup_cons.mp hnd).2⟩
  | .intake => ⟨hi.intake, hnd⟩

theorem Bus.Inv.run : ∀ (evs : List BusEvent) {b : Bus}, b.Inv n (returns evs) →
    (returns evs).Nodup → (busRun evs b).Inv n []
  | [], _, hi, _ => hi
  | ev :: evs, _, hi, hnd => (hi.event ev hnd).1.run evs (hi.event ev hnd).2

theorem Bus.keeps_step {id : Nat} (hi : b.Inv n later) (hq : id ∈ b.task.coros.map FlbOutputCoro.id)
    (hw : ∀ w ∈ b.ins.chEvents, pendingId w ≠ id) :
    ∀ ev : BusEvent, (∀ x, ev ≠ .ret id x true) →
      id ∈ (ev.step b).task.coros.map FlbOutputCoro.id ∧
        ∀ w ∈ (ev.step b).ins.chEvents, pendingId w ≠ id
  | .ret id' x ok, hne => by
      simp only [BusEvent.step]
      cases hget : flbOutputCoroGet id' b.task with
      | none => exact ⟨hq, hw⟩
      | some oc =>
          obtain ⟨hoc, rfl⟩ := flbOutputCoroGet_some hget
          refine ⟨hq, fun w hw' => ?_⟩
          rcases mem_flbOutputReturn_chEvents.mp hw' with hw' | ⟨rfl, rfl⟩
          · exact hw w hw'
          · rw [pendingId_flbBitsU64Set x _ (hi.small oc hoc)]
            rintro rfl
            exact hne x rfl
  | .intake, _ => by
      rcases intake_step_cases b with ⟨-, h⟩ | ⟨w, ws, hev, ⟨-, h⟩ | ⟨oc, hget, h⟩⟩ <;> rw [h]
      · exact ⟨hq, hw⟩
      · exact ⟨hq, fun w' hw' => hw w' (by simp [hev, hw'])⟩
      · -- The destroyed coroutine is the one the word names, not this one.
        obtain ⟨-, hid⟩ := flbOutputCoroGet_some hget
        obtain ⟨c, hc, rfl⟩ := List.mem_map.mp hq
        refine ⟨List.mem_map.mpr ⟨c, (List.mem_erase_of_ne fun he => ?_).mpr hc, rfl⟩,
          fun w' hw' => hw w' (by simp [hev, hw'])⟩
        exact hw w (by simp [hev]) (by rw [← hid, he])

theorem Bus.keeps_run {id : Nat} : ∀ (evs : List BusEvent) {b : Bus}, b.Inv n (returns evs) →
    (returns evs).Nodup → (∀ x, BusEvent.ret id x true ∉ evs) →
    id ∈ b.task.coros.map FlbOutputCoro.id → (∀ w ∈ b.ins.chEvents, pendingId w ≠ id) →
    id ∈ (busRun evs b).task.coros.map FlbOutputCoro.id
  | [], _, _, _, _, hq, _ => hq
  | ev :: evs, b, hi, hnd, hno, hq, hw => by
      obtain ⟨hq', hw'⟩ :=
        Bus.keeps_step hi hq hw ev fun x he => hno x (he ▸ List.mem_cons_self _ _)
      obtain ⟨hi', hnd'⟩ := hi.event ev hnd
      exact Bus.keeps_run evs hi' hnd' (fun x h => hno x (List.mem_cons_of_mem _ h)) hq' hw'

end Steps

/-- Over every interleaving of returns and intakes on a task whose coroutines have distinct ids
that fit their field, in which no coroutine returns twice: every intake destroys the coroutine
its word names, the task's users are always the coroutines still linked into it, and each
coroutine is either still linked, and then in the instance's queue, or has been destroyed by
exactly one intake. A linked coroutine whose word was lost stays linked and keeps its user. -/
theorem busRun_accounts (evs : List BusEvent) (b : Bus) (hpipe : b.ins.chEvents = [])
    (hdes : b.destroyed = []) (hu : b.task.users = b.task.coros.length)
    (hids : (b.task.coros.map FlbOutputCoro.id).Nodup)
    (hsmall : ∀ oc ∈ b.task.coros, oc.id < 2 ^ 15) (hq : ∀ oc ∈ b.task.coros, oc ∈ b.ins.thQueue)
    (hret : (returns evs).Nodup) :
    (busRun evs b).task.users = (busRun evs b).task.coros.length ∧
      (∀ oc ∈ (busRun evs b).task.coros, oc ∈ (busRun evs b).ins.thQueue) ∧
      (∀ r ∈ (busRun evs b).destroyed, r = 0) ∧
      (busRun evs b).destroyed.length + (busRun evs b).task.coros.length = b.task.coros.length ∧
      ∀ id x, BusEvent.ret id x false ∈ evs → id ∈ b.task.coros.map FlbOutputCoro.id →
        id ∈ (busRun evs b).task.coros.map FlbOutputCoro.id ∧ 0 < (busRun evs b).task.users := by
  have hi : b.Inv b.task.coros.length (returns evs) :=
    ⟨hu, hids, hsmall, hq, by simp [hpipe], by simp [hpipe], by simp [hpipe], by simp [hdes],
      by simp [hdes]⟩
  have hr := hi.run evs hret
  refine ⟨hr.users, hr.queued, hr.found, hr.count, fun id x hlost hid => ?_⟩
  have hl := Bus.keeps_run evs hi hret (returns_lost hret hlost) hid (by simp [hpipe])
  obtain ⟨oc, hoc, -⟩ := List.mem_map.mp hl
  rw [hr.users]
  exact ⟨hl, Int.ofNat_pos.mpr (List.length_pos_of_mem hoc)⟩

/-- A task of 3 records and 120 bytes, flushed by one coroutine through one output instance whose
metrics are on. -/
def oneFlushBus : Bus :=
  ⟨⟨7, 3, 120, [⟨0, 100⟩], 1⟩, ⟨[], [⟨0, 100⟩], some ⟨0, 0, 0⟩⟩, []⟩

theorem busRun_accounts_oneFlush :
    oneFlushBus.ins.chEvents = [] ∧ oneFlushBus.destroyed = [] ∧
      oneFlushBus.task.users = oneFlushBus.task.coros.length ∧
      (oneFlushBus.task.coros.map FlbOutputCoro.id).Nodup ∧
      (∀ oc ∈ oneFlushBus.task.coros, oc.id < 2 ^ 15) ∧
      (∀ oc ∈ oneFlushBus.task.coros, oc ∈ oneFlushBus.ins.thQueue) ∧
      (returns [.ret 0 flbOk true, .intake]).Nodup ∧
      (busRun [.ret 0 flbOk true, .intake] oneFlushBus).task.users =
        (busRun [.ret 0 flbOk true, .intake] oneFlushBus).task.coros.length ∧
      (∀ oc ∈ (busRun [.ret 0 flbOk true, .intake] oneFlushBus).task.coros,
        oc ∈ (busRun [.ret 0 flbOk true, .intake] oneFlushBus).ins.thQueue) ∧
      (∀ r ∈ (busRun [.ret 0 flbOk true, .intake] oneFlushBus).destroyed, r = 0) ∧
      (busRun [.ret 0 flbOk true, .intake] oneFlushBus).destroyed.length +
        (busRun [.ret 0 flbOk true, .intake] oneFlushBus).task.coros.length =
        oneFlushBus.task.coros.length ∧
      ∀ id x, BusEvent.ret id x false ∈ [BusEvent.ret 0 flbOk true, .intake] →
        id ∈ oneFlushBus.task.coros.map FlbOutputCoro.id →
        id ∈ (busRun [.ret 0 flbOk true, .intake] oneFlushBus).task.coros.map FlbOutputCoro.id ∧
          0 < (busRun [.ret 0 flbOk true, .intake] oneFlushBus).task.users :=
  ⟨rfl, rfl, rfl, by decide, by decide, by decide, by decide,
    busRun_accounts _ _ rfl rfl rfl (by decide) (by decide) (by decide) (by decide)⟩

-- The flush returns `FLB_OK` and its word is read: the records and bytes are credited and the
-- task has no user left.
example : (busRun [.ret 0 flbOk true, .intake] oneFlushBus).ins.metrics = some ⟨3, 120, 0⟩ ∧
    (busRun [.ret 0 flbOk true, .intake] oneFlushBus).task.users = 0 := by
  decide

-- The same flush whose word is lost: the records and bytes are still credited, but the
-- coroutine stays linked and the task keeps its user.
example : (busRun [.ret 0 flbOk false, .intake] oneFlushBus).ins.metrics = some ⟨3, 120, 0⟩ ∧
    (busRun [.ret 0 flbOk false, .intake] oneFlushBus).task.users = 1 := by
  decide

end FluentBit.Output
