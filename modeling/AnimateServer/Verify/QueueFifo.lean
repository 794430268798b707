import AnimateServer.Lib.Transition
import AnimateServer.Model.TaskQueue

/-!
# The task queue is a FIFO

`Shape q l` says that the three summaries head, tail and count of the pointer
queue all describe the list `l`. The locked sections keep it, and `Inv` adds what
the calls under way contribute: the blocks they hold are apart, and the two logs
differ by what is still linked.
-/

namespace AnimateServer.QueueFifo

open CLib Links TaskQueue Transition

/-! ## The shape of the pointer queue -/

/-- Head, tail and count describe the list `l`. -/
structure Shape (q : TaskQueue) (l : List TaskRef) : Prop where
  chain : Chain (fun a => (q.mem a).next) q.head l
  nodup : l.Nodup
  tail : q.tail = l.getLast?
  count : q.count = l.length

/-- The linked list is the list that it is the shape of. -/
theorem Shape.linked_eq {q : TaskQueue} {l : List TaskRef} (h : Shape q l) : q.linked = l := by
  unfold TaskQueue.linked
  rw [h.count]
  exact h.chain.walk_eq

/-- The queue starts empty. -/
theorem shape_taskInit : Shape taskInit [] where
  chain := rfl
  nodup := List.nodup_nil
  tail := rfl
  count := rfl

/-- The empty queue, read off any of the three summaries. -/
theorem Shape.empty_iff {q : TaskQueue} {l : List TaskRef} (h : Shape q l) :
    (q.head = none ↔ l = []) ∧ (q.tail = none ↔ l = []) ∧ (q.count = 0 ↔ l = []) := by
  refine ⟨h.chain.head_eq_none, ?_, ?_⟩
  · rw [h.tail]
    exact List.getLast?_eq_none_iff
  · rw [h.count]
    exact List.length_eq_zero_iff

/-- The tail is the end of the chain. -/
theorem Shape.next_tail {q : TaskQueue} {l : List TaskRef} (h : Shape q l) {a : TaskRef}
    (ha : q.tail = some a) : (q.mem a).next = none := by
  have hlast : l.getLast? = some a := h.tail ▸ ha
  exact (h.chain.next_eq_none a (List.mem_of_getLast? hlast) h.nodup).mpr hlast

/-- Filling a task that is not linked. -/
theorem Shape.fill {q : TaskQueue} {l : List TaskRef} (h : Shape q l) {a : TaskRef}
    (ha : a ∉ l) (task : Task) : Shape (q.fill a task) l where
  chain := by
    refine h.chain.congr fun b hb => ?_
    have hne : b ≠ a := fun hba => ha (hba ▸ hb)
    simp [TaskQueue.fill, hne]
  nodup := h.nodup
  tail := h.tail
  count := h.count

/-! ## The locked sections -/

/-- Filling a block changes that block only. -/
@[simp] theorem fill_self (q : TaskQueue) (a : TaskRef) (task : Task) :
    (q.fill a task).mem a = ⟨task, none⟩ := by
  simp [fill]

theorem fill_of_ne (q : TaskQueue) {a b : TaskRef} (task : Task) (h : b ≠ a) :
    (q.fill a task).mem b = q.mem b := by
  simp [fill, h]

/-- Filling a block leaves the tasks in other blocks alone. -/
theorem map_taskAt_fill (q : TaskQueue) {a : TaskRef} (task : Task) {bs : List TaskRef}
    (h : a ∉ bs) : bs.map (q.fill a task).taskAt = bs.map q.taskAt := by
  refine List.map_congr_left fun b hb => ?_
  have hne : b ≠ a := fun hba => h (hba ▸ hb)
  simp [taskAt, fill_of_ne q task hne]

/-- Linking changes no task, only a link. -/
@[simp] theorem taskAt_linkSection (q : TaskQueue) (a : TaskRef) :
    (q.linkSection a).taskAt = q.taskAt := by
  funext b
  unfold linkSection taskAt
  cases q.tail with
  | none => rfl
  | some t =>
    by_cases hbt : b = t
    · subst hbt
      simp
    · simp [hbt]

/-- Linking changes the link of a linked task. -/
theorem next_linkSection {q : TaskQueue} {l : List TaskRef} (h : Shape q l) (a : TaskRef)
    {b : TaskRef} (hb : b ∉ l) : ((q.linkSection a).mem b).next = (q.mem b).next := by
  unfold linkSection
  cases ht : q.tail with
  | none => rfl
  | some t =>
    have hne : b ≠ t := by
      intro hbt
      refine hb (List.mem_of_getLast? ?_)
      rw [← h.tail, ht, hbt]
    simp [hne]

/-- Linking a filled task appends it. -/
theorem Shape.linkSection {q : TaskQueue} {l : List TaskRef} (h : Shape q l) {a : TaskRef}
    (ha : a ∉ l) (hnull : (q.mem a).next = none) : Shape (q.linkSection a) (l ++ [a]) := by
  have hnd : (l ++ [a]).Nodup := by
    rw [List.nodup_append]
    refine ⟨h.nodup, List.nodup_singleton a, fun b hb c hc hbc => ha ?_⟩
    rw [List.mem_singleton] at hc
    exact hc ▸ hbc ▸ hb
  cases ht : q.tail with
  | none =>
    -- empty queue: both ends become the new task
    obtain rfl : l = [] := h.empty_iff.2.1.mp ht
    have hcount : q.count = 0 := h.count
    refine ⟨?_, hnd, ?_, ?_⟩
    · simpa [TaskQueue.linkSection, ht] using hnull
    · simp [TaskQueue.linkSection, ht]
    · simp [TaskQueue.linkSection, ht, hcount]
  | some t =>
    have hlast : l.getLast? = some t := h.tail ▸ ht
    refine ⟨?_, hnd, ?_, ?_⟩
    · have hchain := Chain.append (b := a) hnull h.nodup ha hlast h.chain
      have hnext : (fun b => ((q.linkSection a).mem b).next) =
          Function.update (fun b => (q.mem b).next) t (some a) := by
        funext b
        by_cases hbt : b = t
        · subst hbt
          simp [TaskQueue.linkSection, ht]
        · simp [TaskQueue.linkSection, ht, hbt]
      rw [hnext]
      simpa [TaskQueue.linkSection, ht] using hchain
    · simp [TaskQueue.linkSection, ht]
    · simp [TaskQueue.linkSection, ht, h.count]

/-- Taking a task out of the list changes no block. -/
@[simp] theorem mem_dequeueSection (running : Bool) (q : TaskQueue) :
    (q.dequeueSection running).2.mem = q.mem := by
  cases running with
  | false => rfl
  | true =>
    cases hh : q.head with
    | none => simp [dequeueSection, hh]
    | some a =>
      simp only [dequeueSection, hh, Bool.not_true, Bool.false_eq_true, if_false]
      split <;> rfl

/-- The section of `task_dequeue` waits on the empty queue, and takes the first task
of any other. -/
theorem Shape.dequeueSection {q : TaskQueue} {l : List TaskRef} (h : Shape q l) :
    (l = [] ∧ q.dequeueSection true = (.wait, q)) ∨
      ∃ a rest, l = a :: rest ∧ (q.dequeueSection true).1 = .returned (some a) ∧
        Shape (q.dequeueSection true).2 rest := by
  cases l with
  | nil =>
    have hh : q.head = none := h.chain
    exact Or.inl ⟨rfl, by simp [TaskQueue.dequeueSection, hh]⟩
  | cons a rest =>
    rcases h.chain with ⟨hh, hchain⟩
    rcases List.nodup_cons.mp h.nodup with ⟨-, hnd⟩
    have hcount : decr q.count = rest.length := by
      rw [h.count]
      exact decr_succ rest.length
    refine Or.inr ⟨a, rest, rfl, ?_, ?_⟩
    · simp only [TaskQueue.dequeueSection, hh, Bool.not_true, Bool.false_eq_true, if_false]
      split <;> rfl
    · by_cases hrest : rest = []
      · -- the last task: the count resets both ends
        subst hrest
        have hzero : decr q.count = 0 := hcount
        have heq : (q.dequeueSection true).2 =
            { q with head := none, tail := none, count := 0 } := by
          simp [TaskQueue.dequeueSection, hh, hzero]
        rw [heq]
        exact ⟨rfl, List.nodup_nil, rfl, rfl⟩
      · have hpos : decr q.count ≠ 0 := by
          rw [hcount]
          exact fun hlen => hrest (List.length_eq_zero_iff.mp hlen)
        have heq : (q.dequeueSection true).2 =
            { q with head := (q.mem a).next, count := decr q.count } := by
          simp [TaskQueue.dequeueSection, hh, hpos]
        rw [heq]
        refine ⟨hchain, hnd, ?_, hcount⟩
        rw [h.tail]
        cases rest with
        | nil => exact absurd rfl hrest
        | cons b rest => exact List.getLast?_cons_cons

/-! ## Runs -/

/-- `task_enqueue` and `task_dequeue` called from `task_init` on. -/
abbrev system : LTS QueueState QueueLbl := ofStep .init QueueState.step

/-- What holds between two sections. -/
structure Inv (s : QueueState) (l : List TaskRef) : Prop where
  shape : Shape s.q l
  /-- The blocks held by the calls and by the queue are apart. -/
  apart : (s.filled ++ (l ++ s.taken)).Nodup
  live : ∀ a ∈ s.filled ++ (l ++ s.taken), a ∈ s.live
  null : ∀ a ∈ s.filled, (s.q.mem a).next = none
  /-- The logs differ by what is linked. -/
  fifo : s.dequeued ++ l.map s.q.taskAt = s.enqueued
  stamps : ((s.enqueued ++ s.filled.map s.q.taskAt).map Task.stamp).Nodup
  bound : ∀ t ∈ s.enqueued ++ s.filled.map s.q.taskAt, t.stamp < s.calls

/-- A task has the stamp that it was made with. -/
@[simp] theorem stamp_newTask (n : Nat) (type : TaskType) (pid : Int) (request : CStr)
    (client : ClientRef) : (newTask n type pid request client).stamp = n := by
  cases type <;> rfl

/-- At the start nothing has been queued. -/
theorem inv_init : Inv .init [] where
  shape := shape_taskInit
  apart := List.nodup_nil
  live := fun _ ha => by simp [QueueState.init] at ha
  null := fun _ ha => by simp [QueueState.init] at ha
  fifo := rfl
  stamps := List.nodup_nil
  bound := fun _ ht => by simp [QueueState.init] at ht

/-- A failed allocation only uses up a call number. -/
theorem Inv.enqueue_fail {s : QueueState} {l : List TaskRef} (h : Inv s l) :
    Inv { s with calls := s.calls + 1 } l :=
  { h with bound := fun t ht => Nat.lt_succ_of_lt (h.bound t ht) }

/-- A fresh block is filled with a task that carries the number of its call. -/
theorem Inv.enqueue {s : QueueState} {l : List TaskRef} (h : Inv s l) {a : TaskRef}
    (ha : a ∉ s.live) {task : Task} (hstamp : task.stamp = s.calls) :
    Inv { s with
      q := s.q.fill a task, live := a :: s.live, filled := a :: s.filled,
      calls := s.calls + 1 } l := by
  -- a fresh block is none of those in use
  have hout : a ∉ s.filled ++ (l ++ s.taken) := fun hm => ha (h.live a hm)
  have hfilled : a ∉ s.filled := fun hm => hout (by simp [hm])
  have hl : a ∉ l := fun hm => hout (by simp [hm])
  have htask : (s.q.fill a task).taskAt a = task := by simp [taskAt]
  -- the new task joins those that are filled and not linked yet
  have htasks : (s.enqueued ++ (a :: s.filled).map (s.q.fill a task).taskAt).Perm
      (task :: (s.enqueued ++ s.filled.map s.q.taskAt)) := by
    rw [List.map_cons, htask, map_taskAt_fill s.q task hfilled]
    exact List.perm_middle
  refine ⟨h.shape.fill hl task, ?_, ?_, ?_, ?_, ?_, ?_⟩
  · exact List.nodup_cons.mpr ⟨hout, h.apart⟩
  · intro b hb
    rcases List.mem_cons.mp hb with rfl | hb
    · exact List.mem_cons_self
    · exact List.mem_cons_of_mem _ (h.live b hb)
  · intro b hb
    by_cases hba : b = a
    · subst hba
      simp
    · have hb' : b ∈ s.filled := (List.mem_cons.mp hb).resolve_left hba
      simpa [fill_of_ne s.q task hba] using h.null b hb'
  · simpa [map_taskAt_fill s.q task hl] using h.fifo
  · refine (htasks.map Task.stamp).nodup_iff.mpr ?_
    rw [List.map_cons, List.nodup_cons]
    refine ⟨fun hm => ?_, h.stamps⟩
    rcases List.mem_map.mp hm with ⟨t, ht, heq⟩
    exact absurd (h.bound t ht) (by rw [heq, hstamp]; exact Nat.lt_irrefl _)
  · intro t ht
    rcases List.mem_cons.mp (htasks.mem_iff.mp ht) with rfl | ht
    · exact hstamp ▸ Nat.lt_succ_self _
    · exact Nat.lt_succ_of_lt (h.bound t ht)

/-- A filled task is linked behind the others. -/
theorem Inv.link {s : QueueState} {l : List TaskRef} (h : Inv s l) {a : TaskRef}
    (ha : a ∈ s.filled) :
    Inv { s with
      q := s.q.linkSection a, filled := s.filled.erase a,
      enqueued := s.enqueued ++ [s.q.taskAt a] } (l ++ [a]) := by
  have hperm : (s.filled.erase a ++ (l ++ [a] ++ s.taken)).Perm (s.filled ++ (l ++ s.taken)) := by
    have hmid : (s.filled.erase a ++ (l ++ [a] ++ s.taken)).Perm
        (a :: (s.filled.erase a ++ (l ++ s.taken))) := by
      rw [List.append_assoc, List.singleton_append, ← List.append_assoc, ← List.append_assoc]
      exact List.perm_middle
    exact hmid.trans (List.Perm.append_right _ (List.perm_cons_erase ha)).symm
  -- a task that is being filled is not in the list
  have hfar : ∀ b ∈ s.filled, b ∉ l := fun b hb hm =>
    (List.nodup_append.mp h.apart).2.2 b hb b (List.mem_append_left _ hm) rfl
  have htasks : (s.enqueued ++ [s.q.taskAt a] ++
      (s.filled.erase a).map (s.q.linkSection a).taskAt).Perm
      (s.enqueued ++ s.filled.map s.q.taskAt) := by
    rw [taskAt_linkSection, List.append_assoc]
    exact List.Perm.append_left _ ((List.perm_cons_erase ha).symm.map s.q.taskAt)
  refine ⟨h.shape.linkSection (hfar a ha) (h.null a ha), hperm.nodup_iff.mpr h.apart,
    fun b hb => h.live b (hperm.mem_iff.mp hb), ?_, ?_,
    (htasks.map Task.stamp).nodup_iff.mpr h.stamps,
    fun t ht => h.bound t (htasks.mem_iff.mp ht)⟩
  · intro b hb
    have hbf : b ∈ s.filled := List.mem_of_mem_erase hb
    exact (next_linkSection h.shape a (hfar b hbf)).trans (h.null b hbf)
  · simp [← h.fifo]

/-- The first task goes to a worker. -/
theorem Inv.dequeue {s : QueueState} {a : TaskRef} {l : List TaskRef} (h : Inv s (a :: l))
    {q : TaskQueue} (hq : Shape q l) (hmem : q.mem = s.q.mem) :
    Inv { s with
      q := q, taken := a :: s.taken, dequeued := s.dequeued ++ [s.q.taskAt a] } l := by
  have htask : q.taskAt = s.q.taskAt := by
    funext b
    simp [taskAt, hmem]
  have hperm : (s.filled ++ (l ++ a :: s.taken)).Perm (s.filled ++ (a :: l ++ s.taken)) :=
    List.Perm.append_left _ List.perm_middle
  refine ⟨hq, hperm.nodup_iff.mpr h.apart, fun b hb => h.live b (hperm.mem_iff.mp hb),
    ?_, ?_, ?_, ?_⟩
  · simpa [hmem] using h.null
  · simpa [htask] using h.fifo
  · simpa [htask] using h.stamps
  · simpa [htask] using h.bound

/-- A worker frees its task. -/
theorem Inv.free {s : QueueState} {l : List TaskRef} (h : Inv s l) {a : TaskRef}
    (ha : a ∈ s.taken) :
    Inv { s with live := s.live.erase a, taken := s.taken.erase a } l := by
  have hperm : (s.filled ++ (l ++ s.taken)).Perm
      (a :: (s.filled ++ (l ++ s.taken.erase a))) := by
    have htaken := List.Perm.append_left (s.filled ++ l) (List.perm_cons_erase ha)
    simpa using htaken.trans List.perm_middle
  rcases List.nodup_cons.mp (hperm.nodup_iff.mp h.apart) with ⟨hout, hnd⟩
  refine { h with apart := hnd, live := fun b hb => ?_ }
  have hne : b ≠ a := fun hba => hout (hba ▸ hb)
  exact (List.mem_erase_of_ne hne).mpr (h.live b (hperm.mem_iff.mpr (List.mem_cons_of_mem _ hb)))

/-- What a step does to the linked tasks: nothing, append one, or take the first. -/
inductive Moves : List Task → List Task → Prop where
  | same (ts : List Task) : Moves ts ts
  | append (ts : List Task) (t : Task) : Moves ts (ts ++ [t])
  | pop (t : Task) (ts : List Task) : Moves (t :: ts) ts

/-- Each turn of the queue is one of the FIFO, or none. -/
theorem step_inv {lbl : QueueLbl} {s s' : QueueState} (hs : s.step lbl = some s')
    {l : List TaskRef} (h : Inv s l) :
    ∃ l', Inv s' l' ∧ Moves (l.map s.q.taskAt) (l'.map s'.q.taskAt) := by
  -- only the two locked sections change the list
  cases lbl with
  -- the new task is filled in, but not yet linked
  | enqueue type pid request client block =>
    cases block with
    | none =>
      obtain rfl := Option.some.inj hs
      exact ⟨l, h.enqueue_fail, .same _⟩
    | some a =>
      simp only [QueueState.step] at hs
      split at hs
      · contradiction
      · rename_i ha
        obtain rfl := Option.some.inj hs
        have hl : a ∉ l := fun hm => ha (h.live a (by simp [hm]))
        refine ⟨l, h.enqueue ha (stamp_newTask _ _ _ _ _), ?_⟩
        rw [map_taskAt_fill s.q _ hl]
        exact .same _
  | link a =>
    simp only [QueueState.step] at hs
    split at hs
    · rename_i ha
      obtain rfl := Option.some.inj hs
      refine ⟨l ++ [a], h.link ha, ?_⟩
      rw [taskAt_linkSection, List.map_append]
      exact .append _ _
    · contradiction
  | dequeue =>
    simp only [QueueState.step] at hs
    rcases h.shape.dequeueSection with ⟨rfl, heq⟩ | ⟨a, rest, rfl, hret, hshape⟩
    · -- the empty queue: the caller goes on waiting
      rw [heq] at hs
      obtain rfl := Option.some.inj hs
      exact ⟨[], h, .same _⟩
    · -- the head is taken, and the other tasks keep their contents
      rw [show s.q.dequeueSection true = (.returned (some a), (s.q.dequeueSection true).2) from
        Prod.ext hret rfl] at hs
      obtain rfl := Option.some.inj hs
      refine ⟨rest, h.dequeue hshape (mem_dequeueSection true s.q), ?_⟩
      have htask : (s.q.dequeueSection true).2.taskAt = s.q.taskAt := by
        funext b
        simp [taskAt]
      rw [htask]
      exact .pop _ _
  | free a =>
    simp only [QueueState.step] at hs
    split at hs
    · rename_i ha
      obtain rfl := Option.some.inj hs
      exact ⟨l, h.free ha, .same _⟩
    · contradiction

/-- So the list is what the FIFO holds, however the turns interleave. -/
theorem reachable_inv {s : QueueState} (h : system.Reachable s) : ∃ l, Inv s l := by
  refine h.invariant (fun s hs => ?_) (fun lbl s s' hn hinv => ?_)
  · subst hs
    exact ⟨[], inv_init⟩
  · rcases hinv with ⟨l, hl⟩
    rcases step_inv hn hl with ⟨l', hl', -⟩
    exact ⟨l', hl'⟩

/-! ## The abstract queue -/

/-- The queue as the rest of the server sees it: a list, appended to at the end and
taken from at the front. -/
def listQueue : LTS (List Task) (Option Task) where
  Init := fun ts => ts = []
  Next := fun put ts ts' =>
    match put with
    | some t => ts' = ts ++ [t]
    | none => ∃ t, ts = t :: ts'

/-- The pointer queue refines the list. -/
theorem refines_listQueue : Refines system listQueue fun s => s.q.linked.map s.q.taskAt where
  init := fun s hs => by
    subst hs
    rfl
  step := fun lbl s s' hr hn => by
    rcases reachable_inv hr with ⟨l, hl⟩
    rcases step_inv hn hl with ⟨l', hl', hmoves⟩
    rw [hl.shape.linked_eq, hl'.shape.linked_eq]
    generalize l.map s.q.taskAt = ts at hmoves
    generalize l'.map s'.q.taskAt = ts' at hmoves
    cases hmoves with
    | same => exact Or.inr rfl
    | append _ t => exact Or.inl ⟨some t, rfl⟩
    | pop t _ => exact Or.inl ⟨none, t, rfl⟩

/-- In every state reached by calls of `task_enqueue` and `task_dequeue`, head, tail
and count agree on when the queue is empty, the chain from head has `count` distinct
tasks and ends at tail, and the tasks returned so far followed by the linked ones are
the tasks enqueued so far, in order and without repetition. -/
theorem queue_refines_fifo {s : QueueState} (h : system.Reachable s) :
    (s.q.head = none ↔ s.q.tail = none) ∧ (s.q.tail = none ↔ s.q.count = 0) ∧
    Chain (fun a => (s.q.mem a).next) s.q.head s.q.linked ∧
    s.q.linked.length = s.q.count ∧ s.q.linked.Nodup ∧
    s.q.linked.getLast? = s.q.tail ∧ (∀ a, s.q.tail = some a → (s.q.mem a).next = none) ∧
    s.dequeued ++ s.q.linked.map s.q.taskAt = s.enqueued ∧
    (s.enqueued.map Task.stamp).Nodup := by
  rcases reachable_inv h with ⟨l, hinv⟩
  have hshape := hinv.shape
  -- the walk over next is the list l of the invariant
  rcases hshape.empty_iff with ⟨hhead, htail, hcount⟩
  rw [hshape.linked_eq]
  refine ⟨hhead.trans htail.symm, htail.trans hcount.symm, hshape.chain, hshape.count.symm,
    hshape.nodup, hshape.tail.symm, fun a ha => hshape.next_tail ha, hinv.fifo, ?_⟩
  have hstamps := hinv.stamps
  rw [List.map_append] at hstamps
  exact (List.nodup_append.mp hstamps).1

/-- Two requests of a client are enqueued by two calls that overlap, a third call
fails, and one task is taken. -/
def sampleRun : List QueueLbl :=
  [.enqueue .CREATE_CANVAS 0 "10 10 0".toList 0 (some 7),
    .enqueue .GENERATE 0 "0 a 0 1 1".toList 0 (some 3), .enqueue .HANDSHAKE 42 [] 0 none,
    .link 3, .link 7, .dequeue]

theorem queue_refines_fifo_sampleRun :
    ∃ s, system.Reachable s ∧ s.q.linked = [7] ∧
      s.dequeued ++ s.q.linked.map s.q.taskAt = s.enqueued := by
  obtain ⟨s, hs, hlinked⟩ := exists_reachable_of_run .init QueueState.step sampleRun
    (fun s => s.q.linked == [7]) (by decide)
  exact ⟨s, hs, by simpa using hlinked, (queue_refines_fifo hs).2.2.2.2.2.2.2.1⟩

end AnimateServer.QueueFifo
