import Mathlib.Data.List.Nodup
import Mathlib.Order.Basic
import AnimateServer.Model.ThreadPool

/-!
# Start-up and shutdown join the threads that exist

`threadpool_init` reaps the threads it created when one of them cannot be created, and
`main` goes to the common teardown, which joins `TPOOL_SIZE` threads through
`tpool_threads` all the same. The two agree if the whole array was filled, or if there is
no pool size at all. A start-up that fails in between leaves a null pointer or a freed
array behind.
-/

namespace AnimateServer

open CLib

namespace PoolState

variable {s s' : PoolState} {e : StartUp} {n : Int} {room k : Nat}

/-- Every thread created is joined once, only such threads are joined, and the array is
freed at most once. -/
structure JoinsExact (s : PoolState) : Prop where
  once : ∀ t, .create t ∈ s.calls → s.calls.count (.join (.thread t)) = 1
  known : ∀ id, .join id ∈ s.calls → ∃ t, id = .thread t ∧ .create t ∈ s.calls
  free : s.calls.count .free ≤ 1

/-- The pool size that the arguments of the program ask for. -/
def poolSize : List CStr → Int
  | [arg] => (strtol arg).1
  | _ => 0

/-- The start-up gets through `threadpool_init`, with room for `n` threads in the array. -/
structure FillsPool (n : Int) (e : StartUp) : Prop where
  pipes : e.serverSetupPipes = .SUCCESS
  malloc : e.malloc = true
  create : ∀ i < n.toNat, e.pthreadCreate i = true
  room : sizeofPthread * n ≤ SIZE_MAX

/-! ### Joining -/

/-- The joins of a loop are appended to the calls. -/
theorem joinLoop_eq (left j : Nat) (s : PoolState) :
    joinLoop left j s =
      { s with calls := s.calls ++ (List.range' j left).map fun i => .join (s.threadAt i) } := by
  induction left generalizing j s with
  | zero => simp [joinLoop]
  | succ left ih =>
    rw [joinLoop, ih]
    rw [List.range'_succ, List.map_cons, List.append_cons]
    rfl

/-- The teardown: `TPOOL_SIZE` joins and the end of the array. -/
theorem calls_threadpoolDestroy (h : s.RUNNING = false) :
    s.threadpoolDestroy.calls =
      s.calls ++ (List.range s.size.toNat).map (fun i => .join (s.threadAt i)) ++
        (if s.threads = none then [] else [.free]) := by
  unfold threadpoolDestroy
  rw [if_neg (by simp [h]), joinLoop_eq, ← List.range_eq_range']
  unfold freeThreads
  cases hthreads : s.threads with
  | none => simp
  | some a => simp

/-- The teardown joins whatever the slots below `TPOOL_SIZE` hold. -/
theorem join_threadpoolDestroy (h : s.RUNNING = false) {i : Nat} (hi : i < s.size.toNat) :
    .join (s.threadAt i) ∈ s.threadpoolDestroy.calls := by
  rw [calls_threadpoolDestroy h]
  apply List.mem_append_left
  apply List.mem_append_right
  exact List.mem_map.mpr ⟨i, List.mem_range.mpr hi, rfl⟩

/-- A slot that holds no thread spoils the teardown. -/
theorem not_joinsExact (h : s.RUNNING = false) {i : Nat} (hi : i < s.size.toNat)
    (hslot : ∀ t, s.threadAt i ≠ .thread t) : ¬ JoinsExact s.threadpoolDestroy := by
  intro hexact
  rcases hexact.known _ (join_threadpoolDestroy h hi) with ⟨t, ht, -⟩
  exact hslot t ht

/-! ### Creating -/

/-- `k` of `n` threads are created so far: thread `i` stands in slot `i`, as far as there
is room, and the other slots are unset. -/
structure Creating (n : Int) (room k : Nat) (s : PoolState) : Prop where
  size : s.size = n
  created : s.created = k
  calls : s.calls = (List.range k).map .create
  threads : ∃ a, s.threads = some a ∧ a.room = room ∧ a.freed = false ∧
    ∀ i < room, a.slot i = if i < k then some i else none

/-- One more thread has been asked for. -/
theorem Creating.pthreadCreate (h : Creating n room k s) :
    Creating n room (k + 1) (s.pthreadCreate k) where
  size := h.size
  created := by
    show s.created + 1 = k + 1
    rw [h.created]
  calls := by
    show s.calls ++ [.create s.created] = _
    rw [h.calls, h.created, List.range_succ, List.map_append]
    rfl
  threads := by
    rcases h.threads with ⟨a, ha, hroom, hfreed, hslot⟩
    refine ⟨a.write k s.created, ?_, ?_, ?_, ?_⟩
    · show s.threads.map (ThreadArray.write k s.created) = _
      rw [ha, Option.map_some]
    · rw [ThreadArray.room_write, hroom]
    · rw [ThreadArray.freed_write, hfreed]
    · intro i hi
      by_cases hik : i = k
      · -- the new slot
        rw [hik, ThreadArray.slot_write_self (by omega), if_pos (by omega), h.created]
      · rw [ThreadArray.slot_write_ne hik, hslot i hi]
        by_cases hlt : i < k
        · rw [if_pos hlt, if_pos (by omega)]
        · rw [if_neg hlt, if_neg (by omega)]

/-- What a slot holds after `k` threads. -/
theorem Creating.threadAt (h : Creating n room k s) {i : Nat} (hi : i < k) :
    s.threadAt i = if i < room then .thread i else .outside := by
  rcases h.threads with ⟨a, ha, hroom, hfreed, hslot⟩
  unfold PoolState.threadAt ThreadArray.read
  rw [ha]
  simp only [hfreed, hroom, Bool.false_eq_true, if_false]
  split
  · next hlt => simp only [hslot i hlt, if_pos hi]
  · rfl

/-- The loop creates all the threads, or it stops at one that cannot be created and reaps
those before it. -/
theorem createLoop_cases (succeeds : Nat → Bool) (left : Nat) (h : Creating n room k s) :
    (∃ s', createLoop succeeds left k k s = (.SUCCESS, s') ∧ Creating n room (k + left) s' ∧
        ∀ i, k ≤ i → i < k + left → succeeds i = true) ∨
      ∃ m s', createLoop succeeds left k k s = (.POOL_FAIL, s'.reap m) ∧
        Creating n room m s' ∧ m < k + left ∧ succeeds m = false := by
  induction left generalizing k s with
  | zero =>
    refine Or.inl ⟨s, rfl, h, ?_⟩
    intro i hki hi
    omega
  | succ left ih =>
    by_cases hk : succeeds k = true
    · -- thread `k` is created
      have hloop : createLoop succeeds (left + 1) k k s =
          createLoop succeeds left (k + 1) (k + 1) (s.pthreadCreate k) := by
        rw [createLoop, if_pos hk]
      rw [hloop]
      have hsum : k + (left + 1) = k + 1 + left := by omega
      rw [hsum]
      rcases ih h.pthreadCreate with ⟨s', heq, hall, hsucc⟩ | hfail
      · refine Or.inl ⟨s', heq, hall, ?_⟩
        intro i hki hi
        by_cases hik : i = k
        · rw [hik]
          exact hk
        · exact hsucc i (by omega) hi
      · exact Or.inr hfail
    · -- thread `k` is not
      refine Or.inr ⟨k, s, ?_, h, by omega, by simpa using hk⟩
      rw [createLoop, if_neg hk]

/-! ### The start procedure -/

/-- A size that is not negative is kept by the conversion. -/
theorem toSizeT_of_nonneg {v : Int} (h₁ : 0 ≤ v) (h₂ : v ≤ SIZE_MAX) : toSizeT v = v.toNat := by
  unfold toSizeT
  rw [Int.emod_eq_of_lt h₁ (by omega)]

/-- The size of the pool is a `long`. -/
theorem poolSize_le (args : List CStr) : poolSize args ≤ LONG_MAX := by
  unfold poolSize
  split
  · apply strtol_le
  · decide

/-- Reaping frees the array and leaves the pointer to it. -/
theorem threadAt_reap (h : Creating n room k s) (m i : Nat) :
    (s.reap m).threadAt i = .freed := by
  rcases h.threads with ⟨a, ha, -⟩
  unfold reap
  rw [joinLoop_eq]
  simp only [freeThreads, ha]
  rfl

theorem size_reap (m : Nat) (s : PoolState) : (s.reap m).size = s.size := by
  unfold reap freeThreads
  rw [joinLoop_eq]
  split <;> rfl

/-- The first failure ends the procedure. -/
theorem orTeardown_failed {r : ErrType × PoolState} (h : r.1 ≠ .SUCCESS)
    (rest : PoolState → ErrType × PoolState) : orTeardown r rest = r :=
  if_pos h

theorem orTeardown_success (s : PoolState) (rest : PoolState → ErrType × PoolState) :
    orTeardown (.SUCCESS, s) rest = rest s :=
  if_neg (by simp)

/-- Without a pool size the start procedure ends at once. -/
theorem startProcedure_unsized (e : StartUp) {args : List CStr} (h : poolSize args ≤ 0) :
    ∃ err, (init.startProcedure args e).2 =
      { init with size := poolSize args, retval := err } := by
  have hget : ∃ err, err ≠ .SUCCESS ∧ init.getThreadpoolSize args =
      (err, { init with size := poolSize args, retval := err }) := by
    rcases args with _ | ⟨arg, _ | ⟨arg', rest⟩⟩
    · exact ⟨.TOO_FEW, by decide, rfl⟩
    · exact ⟨.POOL_FAIL, by decide, if_pos h⟩
    · exact ⟨.TOO_MANY, by decide, rfl⟩
  rcases hget with ⟨err, herr, hget⟩
  refine ⟨err, ?_⟩
  unfold startProcedure
  rw [hget, orTeardown_failed herr]

/-- With a pool size it goes on to the pipes. -/
theorem startProcedure_sized (e : StartUp) {args : List CStr} (h : 0 < poolSize args) :
    init.startProcedure args e =
      orTeardown (setUp e.serverSetupPipes { init with size := poolSize args }) fun s =>
        orTeardown (s.threadpoolInit e) fun s => s.setUp e.serverSetupSignals := by
  have hget : init.getThreadpoolSize args = (.SUCCESS, { init with size := poolSize args }) := by
    rcases args with _ | ⟨arg, _ | ⟨arg', rest⟩⟩
    · cases h
    · have hneg : ¬ poolSize [arg] ≤ 0 := not_le.mpr h
      exact (if_neg hneg).trans (if_pos h)
    · cases h
  unfold startProcedure
  rw [hget, orTeardown_success]

theorem setUp_success (s : PoolState) : s.setUp .SUCCESS = (.SUCCESS, s) := if_pos rfl

/-- The set-up functions leave the pool alone. -/
theorem setUp_snd (err : ErrType) (s : PoolState) :
    ∃ rv, (s.setUp err).2 = { s with retval := rv } := by
  unfold setUp
  split
  · exact ⟨s.retval, rfl⟩
  · exact ⟨err, rfl⟩

theorem Creating.retval (h : Creating n room k s) (rv : ErrType) :
    Creating n room k { s with retval := rv } where
  size := h.size
  created := h.created
  calls := h.calls
  threads := h.threads

/-- The slots for which `threadpool_init` asks. -/
def roomFor (n : Int) : Nat := (ThreadArray.malloc (toSizeT (sizeofPthread * n))).room

/-- What the start procedure leaves for the teardown. -/
inductive Started (n : Int) (e : StartUp) : PoolState → Prop where
  | noArray {s : PoolState} (hfail : e.serverSetupPipes = .SUCCESS → e.malloc = false)
      (hsize : s.size = n) (hthreads : s.threads = none) : Started n e s
  | reaped {m : Nat} {s : PoolState} (hm : m < n.toNat) (hfail : e.pthreadCreate m = false)
      (hs : Creating n (roomFor n) m s) : Started n e (s.reap m)
  | filled {s : PoolState} (hpipes : e.serverSetupPipes = .SUCCESS) (hmalloc : e.malloc = true)
      (hcreate : ∀ i < n.toNat, e.pthreadCreate i = true)
      (hs : Creating n (roomFor n) n.toNat s) : Started n e s

/-- `threadpool_init` on the pool as it is before, and what follows it. -/
theorem started_threadpoolInit (h₁ : 0 < n) (h₂ : n ≤ LONG_MAX)
    (hpipes : e.serverSetupPipes = .SUCCESS) :
    Started n e (orTeardown (threadpoolInit e { init with size := n }) fun s =>
      s.setUp e.serverSetupSignals).2 := by
  unfold threadpoolInit
  by_cases hmalloc : e.malloc = true
  · rw [if_pos hmalloc]
    have hcount : toSizeT n = n.toNat := by
      apply toSizeT_of_nonneg (by omega)
      unfold LONG_MAX at h₂
      unfold SIZE_MAX
      omega
    -- before the first `pthread_create` no slot of the array holds a thread
    have hempty : Creating n (roomFor n) 0
        { init with
          size := n
          threads := some (.malloc (toSizeT (sizeofPthread * n))) } := by
      refine ⟨rfl, rfl, rfl, _, rfl, rfl, rfl, ?_⟩
      intro i hi
      rw [if_neg (by omega)]
      rfl
    show Started n e (orTeardown (createLoop e.pthreadCreate (toSizeT n) 0 0 _) _).2
    rw [hcount]
    rcases createLoop_cases e.pthreadCreate n.toNat hempty with
      ⟨s', heq, hs', hall⟩ | ⟨m, s', heq, hs', hm, hfail⟩
    · rw [heq, orTeardown_success]
      rcases setUp_snd e.serverSetupSignals s' with ⟨rv, hrv⟩
      rw [hrv]
      rw [Nat.zero_add] at hs'
      exact .filled hpipes hmalloc (fun i hi => hall i (by omega) (by omega)) (hs'.retval rv)
    · rw [heq, orTeardown_failed (by simp)]
      exact .reaped (by omega) hfail hs'
  · rw [if_neg hmalloc, orTeardown_failed (by simp)]
    exact .noArray (fun _ => by simpa using hmalloc) rfl rfl

/-- A pool that has started has as many threads as could be created. -/
theorem started (e : StartUp) {args : List CStr} (h : 0 < poolSize args) :
    Started (poolSize args) e (init.startProcedure args e).2 := by
  rw [startProcedure_sized e h]
  by_cases hpipes : e.serverSetupPipes = .SUCCESS
  · rw [hpipes, setUp_success, orTeardown_success]
    exact started_threadpoolInit h (poolSize_le args) hpipes
  · rcases setUp_snd e.serverSetupPipes { init with size := poolSize args } with ⟨rv, hrv⟩
    rw [orTeardown_failed, hrv]
    · exact .noArray (fun hp => absurd hp hpipes) rfl rfl
    · unfold setUp
      rw [if_neg hpipes]
      exact hpipes

/-! ### The room -/

/-- With a size that does not overflow the array has a place for each thread. -/
theorem roomFor_of_le (h₁ : 0 < n) (h₂ : sizeofPthread * n ≤ SIZE_MAX) : roomFor n = n.toNat := by
  unfold roomFor ThreadArray.malloc
  rw [toSizeT_of_nonneg (by unfold sizeofPthread; omega) h₂]
  show (8 * n).toNat / 8 = n.toNat
  omega

/-- If the size of the array wraps around, the last slot is outside. -/
theorem roomFor_lt (h : SIZE_MAX < sizeofPthread * n) : roomFor n < n.toNat := by
  show (8 * n % 18446744073709551616).toNat / 8 < n.toNat
  unfold sizeofPthread SIZE_MAX at h
  omega

/-! ### The teardown -/

/-- The calls of a run that fills the array and joins its threads. -/
theorem joinsExact_of_calls {n : Nat} (h : s.calls =
    (List.range n).map .create ++ (List.range n).map (fun i => .join (.thread i)) ++ [.free]) :
    JoinsExact s where
  once := by
    intro t ht
    rw [h] at ht ⊢
    have hlt : t < n := by simpa using ht
    have hnodup : ((List.range n).map fun i => PoolCall.join (.thread i)).Nodup := by
      apply List.nodup_range.map
      intro i j hij
      simpa using hij
    have hcreate : ((List.range n).map PoolCall.create).count (.join (.thread t)) = 0 := by
      apply List.count_eq_zero.mpr
      simp
    -- each thread is joined once, in the order of creation
    have hjoin : ((List.range n).map fun i => PoolCall.join (.thread i)).count
        (.join (.thread t)) = 1 := by
      apply List.count_eq_one_of_mem hnodup
      exact List.mem_map.mpr ⟨t, List.mem_range.mpr hlt, rfl⟩
    rw [List.count_append, List.count_append, hcreate, hjoin]
    rfl
  known := by
    intro id hid
    rw [h] at hid ⊢
    have hjoin : ∃ t < n, ThreadId.thread t = id := by simpa using hid
    rcases hjoin with ⟨t, ht, rfl⟩
    exact ⟨t, rfl, by simpa using ht⟩
  free := by
    have hcreate : ((List.range n).map PoolCall.create).count .free = 0 := by
      apply List.count_eq_zero.mpr
      simp
    have hjoin : ((List.range n).map fun i => PoolCall.join (.thread i)).count .free = 0 := by
      apply List.count_eq_zero.mpr
      simp
    rw [h, List.count_append, List.count_append, hcreate, hjoin]
    decide

/-- Without threads there is nothing to join. -/
theorem joinsExact_of_no_calls (h : s.calls = []) : JoinsExact s where
  once := by
    intro t ht
    rw [h] at ht
    cases ht
  known := by
    intro id hid
    rw [h] at hid
    cases hid
  free := by
    rw [h]
    decide

/-- If every slot holds its thread, the teardown joins each once. -/
theorem Creating.joinsExact (h : Creating n room n.toNat s) (hroom : n.toNat ≤ room) :
    JoinsExact (threadpoolDestroy { s with RUNNING := false }) := by
  apply joinsExact_of_calls (n := n.toNat)
  rw [calls_threadpoolDestroy rfl]
  show s.calls ++ (List.range s.size.toNat).map (fun i => .join (s.threadAt i)) ++ _ = _
  -- every slot was filled by its own pthread_create
  have hslots : (List.range n.toNat).map (fun i => PoolCall.join (s.threadAt i)) =
      (List.range n.toNat).map fun i => .join (.thread i) := by
    apply List.map_congr_left
    intro i hi
    have hlt : i < n.toNat := List.mem_range.mp hi
    rw [h.threadAt hlt, if_pos (by omega)]
  rcases h.threads with ⟨a, ha, -⟩
  rw [h.size, h.calls, hslots, if_neg]
  show ¬ s.threads = none
  rw [ha]
  exact Option.some_ne_none a

/-- Where the teardown is right, the array was filled: in the other cases it joins a
slot that holds no thread. -/
theorem Started.fillsPool (h : Started n e s) (hpos : 0 < n)
    (hexact : JoinsExact (threadpoolDestroy { s with RUNNING := false })) : FillsPool n e := by
  have hfirst : 0 < n.toNat := by omega
  cases h with
  | noArray hfail hsize hthreads =>
    refine absurd hexact (not_joinsExact (i := 0) rfl (by rw [hsize]; exact hfirst) ?_)
    intro t ht
    unfold threadAt at ht
    rw [hthreads] at ht
    cases ht
  | @reaped m s hm hfail hs =>
    refine absurd hexact (not_joinsExact (i := 0) rfl ?_ ?_)
    · rw [size_reap, hs.size]
      exact hfirst
    · intro t ht
      have hfreed := threadAt_reap hs m 0
      exact absurd (hfreed.symm.trans ht) (by simp)
  | filled hpipes hmalloc hcreate hs =>
    refine ⟨hpipes, hmalloc, hcreate, ?_⟩
    by_contra hwrap
    -- the array wrapped around, so its first slot outside is joined too
    have hshort := roomFor_lt (not_le.mp hwrap)
    refine absurd hexact (not_joinsExact (i := roomFor n) rfl ?_ ?_)
    · rw [hs.size]
      exact hshort
    · intro t ht
      have houtside := hs.threadAt hshort
      rw [if_neg (Nat.lt_irrefl _)] at houtside
      exact absurd (houtside.symm.trans ht) (by simp)

/-- Every thread that was created is joined, if all were. -/
theorem Started.joinsExact (h : Started n e s) (hpos : 0 < n) (hfills : FillsPool n e) :
    JoinsExact (threadpoolDestroy { s with RUNNING := false }) := by
  cases h with
  | noArray hfail hsize hthreads =>
    exact absurd hfills.malloc (by simp [hfail hfills.pipes])
  | reaped hm hfail hs =>
    rw [hfills.create _ hm] at hfail
    cases hfail
  | filled hpipes hmalloc hcreate hs =>
    apply hs.joinsExact
    rw [roomFor_of_le hpos hfills.room]

/-- Start-up and shutdown join exactly the threads that exist if the program was started
without a pool size, or if `threadpool_init` filled an array of the right size. -/
theorem joinsExact_iff (args : List CStr) (e : StartUp) :
    JoinsExact (main args e) ↔ poolSize args ≤ 0 ∨ FillsPool (poolSize args) e := by
  unfold main
  by_cases hneg : poolSize args ≤ 0
  · -- nothing was created, and nothing is joined
    have hexact : JoinsExact
        (threadpoolDestroy { (init.startProcedure args e).2 with RUNNING := false }) := by
      rcases startProcedure_unsized e hneg with ⟨err, hs⟩
      apply joinsExact_of_no_calls
      rw [hs, calls_threadpoolDestroy rfl]
      show [] ++ (List.range (poolSize args).toNat).map _ ++ _ = _
      rw [Int.toNat_of_nonpos hneg]
      rfl
    exact ⟨fun _ => Or.inl hneg, fun _ => hexact⟩
  · have hpos : 0 < poolSize args := not_le.mp hneg
    have hstarted := started e hpos
    constructor
    · intro hexact
      exact Or.inr (hstarted.fillsPool hpos hexact)
    · intro hcond
      apply hstarted.joinsExact hpos
      exact hcond.resolve_left hneg

/-- Two threads are asked for and the second cannot be created. -/
def secondFails : StartUp where
  serverSetupPipes := .SUCCESS
  malloc := true
  pthreadCreate := fun i => i = 0
  serverSetupSignals := .SUCCESS

/-- The first thread is reaped, and the teardown joins two threads of the freed array and
frees it again. -/
theorem freed_array_joined :
    ¬ ∀ args e, 1 ≤ poolSize args → JoinsExact (main args e) := by
  intro hall
  have hcalls : (main ["2".toList] secondFails).calls =
      [.create 0, .join (.thread 0), .free, .join .freed, .join .freed, .free] := by decide
  have hexact := hall ["2".toList] secondFails (by decide)
  have hfree := hexact.free
  rw [hcalls] at hfree
  exact absurd hfree (by decide)

end PoolState

end AnimateServer
