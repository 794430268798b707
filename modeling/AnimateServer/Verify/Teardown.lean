import AnimateServer.Model.Teardown
import AnimateServer.Verify.Accounting

/-!
# What is left when `main` returns

`creg_destroy` only knows the clients in the list. A client that has been removed is freed by
whoever gives its last reference back, and in the teardown nobody does: the references of the
tasks in the queue and of the results in the pipe are never given back.
-/

namespace AnimateServer.Teardown

open CLib Server Registry ServerInv Descriptors References Links

variable {cfg : Config} {s : Server} {r : ClientRegistry} {l : List ClientRef}

/-! ### The loop of `creg_destroy` -/

/-- The records of the list are freed in order, each once. -/
theorem destroyLoop_eq {fuel : Nat} {h : Option ClientRef}
    (hl : Chain (fun c => (r.mem c).next) h l) (hfuel : l.length ≤ fuel) (hnd : l.Nodup)
    (hfreed : ∀ c ∈ l, c ∉ r.freed) :
    r.destroyLoop fuel h = some { r with
      destroyed := l.reverse ++ r.destroyed
      freed := l.reverse ++ r.freed } := by
  induction l generalizing fuel h r with
  | nil =>
    obtain rfl : h = none := hl
    cases fuel <;> rfl
  | cons c l ih =>
    rcases hl with ⟨rfl, hl⟩
    rcases List.nodup_cons.mp hnd with ⟨hc, hnd⟩
    obtain ⟨fuel, rfl⟩ : ∃ n, fuel = n + 1 :=
      ⟨fuel - 1, by simp only [List.length_cons] at hfuel; omega⟩
    -- the head is not freed yet, so reading its next is no fault
    have hkept : r.destroyClient c =
        { r with destroyed := c :: r.destroyed, freed := c :: r.freed } := by
      rw [ClientRegistry.destroyClient, r.touch_of_notMem c (hfreed c List.mem_cons_self)]
    rw [ClientRegistry.destroyLoop, hkept]
    refine (ih (r := { r with destroyed := c :: r.destroyed, freed := c :: r.freed }) hl
      (Nat.le_of_succ_le_succ hfuel) hnd ?_).trans ?_
    · intro d hd hm
      rcases List.mem_cons.mp hm with rfl | hm
      · exact hc hd
      · exact hfreed d (List.mem_cons_of_mem _ hd) hm
    · simp

/-- `creg_destroy` frees the clients of the list and touches nothing that is freed. -/
theorem cregDestroy_eq (hl : RegList r l) (hfreed : ∀ c ∈ l, c ∉ r.freed) :
    r.cregDestroy false r.count = some { r with
      clients := none
      count := 0
      destroyed := l.reverse ++ r.destroyed
      freed := l.reverse ++ r.freed } :=
  destroyLoop_eq (r := { r with clients := none, count := 0 }) hl.linked.chain
    (Nat.le_of_eq hl.count.symm) hl.nodup hfreed

/-! ### What stays -/

/-- The clients that have been removed and not freed. -/
def leaked (s : Server) : List ClientRef := (openClients s.reg).filter (· ∈ s.history.removed)

theorem mem_leaked {c : ClientRef} :
    c ∈ leaked s ↔ (c < s.reg.brk ∧ c ∉ s.reg.freed) ∧ c ∈ s.history.removed := by
  rw [leaked, List.mem_filter, mem_openClients, decide_eq_true_iff]

/-- The clients whose pipes are open are those in the list and those that are leaked. -/
theorem openClients_perm (hreg : RegInv s.reg s.history.removed)
    (hnd : l.Nodup) (hl : ∀ c, c ∈ l ↔ c < s.reg.brk ∧ c ∉ s.history.removed) :
    (openClients s.reg).Perm (l ++ leaked s) := by
  have hlisted : l.Perm ((openClients s.reg).filter
      (fun c => !decide (c ∈ s.history.removed))) := by
    refine (List.perm_ext_iff_of_nodup hnd ?_).mpr fun c => ?_
    · exact (List.nodup_range.filter _).filter _
    · rw [hl, List.mem_filter, mem_openClients, Bool.not_eq_true', decide_eq_false_iff_not]
      exact ⟨fun hc => ⟨⟨hc.1, fun hf => hc.2 (hreg.freed_removed c hf)⟩, hc.2⟩,
        fun hc => ⟨hc.1.1, hc.2⟩⟩
  have hsplit := List.filter_append_perm
      (fun c => decide (c ∈ s.history.removed)) (openClients s.reg)
  exact hsplit.symm.trans (List.perm_append_comm.trans (hlisted.symm.append_right _))

/-- The descriptors that the teardown closes, in order. -/
def closes (cfg : Config) (s : Server) (l : List ClientRef) : List Int :=
  serverDestroySelfpipes false cfg ++ l.flatMap (clientFds s.reg)

/-- The descriptors that the process still has when `main` returns: self pipes that got the
number of a standard stream, the pipes of leaked clients, and those of handshakes whose result
nobody has read. -/
def staysOpen (cfg : Config) (s : Server) : List Int :=
  (selfFds cfg).filter (fun fd => !decide (2 < fd)) ++
    ((leaked s).flatMap (clientFds s.reg) ++ unreadFds s)

theorem fdsInUse_perm (hclients : (openClients s.reg).Perm (l ++ leaked s)) :
    (s.fdsInUse cfg).Perm (closes cfg s l ++ staysOpen cfg s) := by
  have hself := (List.filter_append_perm (fun fd => decide (2 < fd)) (selfFds cfg)).symm
  have hfds : ((openClients s.reg).flatMap (clientFds s.reg)).Perm
      (l.flatMap (clientFds s.reg) ++ (leaked s).flatMap (clientFds s.reg)) := by
    rw [← List.flatMap_append]
    exact hclients.flatMap_right _
  rw [fdsInUse_eq, openFds]
  refine (hself.append (hfds.append_right _)).trans ?_
  show (serverDestroySelfpipes false cfg ++ _ ++ _).Perm _
  unfold closes staysOpen
  simp only [List.append_assoc]
  refine List.Perm.append_left _ ?_
  exact List.perm_append_comm_assoc _ _ _

theorem nodup_fdsInUse (hself : (selfFds cfg).Nodup) (h : Wired cfg s) :
    (s.fdsInUse cfg).Nodup := by
  rw [fdsInUse_eq, List.nodup_append']
  refine ⟨hself, h.fd.nodup, fun fd hfd hopen => ?_⟩
  rcases List.mem_append.mp hopen with hm | hm
  · rcases List.mem_flatMap.mp hm with ⟨c, hc, hm⟩
    exact h.fd.clients c (mem_openClients.mp hc).1 fd hm hfd
  · exact h.fd.results fd hm hfd

/-- A client that stays behind is one whose references nobody gives back. -/
theorem mem_leaked_iff (h : ((system cfg).under RejectsLive).Reachable s)
    (hidle : s.running = []) {c : ClientRef} :
    c ∈ leaked s ↔ c ∈ s.history.removed ∧
      ((∃ t ∈ s.queue, t.client? = some c) ∨ (∃ res ∈ s.pipe, res.client? = some c) ∨
        c ∈ s.history.lost) := by
  have hcounted : Counted s.reg s.history.removed ([] ++ references s) :=
    reachable_accounted (fun _ _ hok => hok) h
  -- nothing runs, so a reference is in the queue, in the pipe, or lost
  have hrefs : c ∈ references s ↔ (∃ t ∈ s.queue, t.client? = some c) ∨
      (∃ res ∈ s.pipe, res.client? = some c) ∨ c ∈ s.history.lost := by
    simp only [references, hidle, List.append_nil, List.mem_append, List.mem_filterMap, or_assoc]
  rw [← hrefs, mem_leaked]
  constructor
  · rintro ⟨⟨-, hf⟩, hrem⟩
    exact ⟨hrem, hcounted.kept c hrem hf⟩
  · rintro ⟨hrem, hm⟩
    have hbase := (reachable_base h.of_under).reg
    exact ⟨⟨hbase.removed_old c hrem, fun hf => hcounted.settled c hf hm⟩, hrem⟩

/-- When the workers have been joined, from whatever state: `creg_destroy` ends within
`cr_count` rounds, reads no record that has been freed, and frees the clients that have not been
removed, each once and none that was freed before. The teardown closes no descriptor twice, and
what it closes and what stays open are the descriptors that the server had. The records that are
not freed are those of leaked clients; as long as no rejection has been handled for a dead
client, these are the removed clients that a task in the queue, a result in the pipe or a lost
reference still names. -/
theorem teardown_exact (h : (system cfg).Reachable s) (hself : (selfFds cfg).Nodup)
    (hidle : s.running = []) :
    ∃ l reg, s.reg.cregDestroy false s.reg.count = some reg ∧
      reg.clients = none ∧ reg.faults = s.reg.faults ∧
      (∀ c, c ∈ l ↔ c < s.reg.brk ∧ c ∉ s.history.removed) ∧ l.Nodup ∧
      reg.freed = l.reverse ++ s.reg.freed ∧ reg.destroyed = l.reverse ++ s.reg.destroyed ∧
      (∀ c ∈ l, c ∉ s.reg.freed) ∧ (closes cfg s l).Nodup ∧
      (s.fdsInUse cfg).Perm (closes cfg s l ++ staysOpen cfg s) ∧
      (∀ c < s.reg.brk, c ∉ reg.freed ↔ c ∈ leaked s) ∧
      (((system cfg).under RejectsLive).Reachable s → ∀ c, c ∈ leaked s ↔
        c ∈ s.history.removed ∧ ((∃ t ∈ s.queue, t.client? = some c) ∨
          (∃ res ∈ s.pipe, res.client? = some c) ∨ c ∈ s.history.lost)) := by
  have hwired := reachable_wired h
  have hreg := hwired.base.reg
  rcases hreg.list with ⟨l, hlist, hmem⟩
  have hkept : ∀ c ∈ l, c ∉ s.reg.freed := fun c hc hf =>
    ((hmem c).mp hc).2 (hreg.freed_removed c hf)
  -- each descriptor in use is a registered client's or stays open
  have hperm : (s.fdsInUse cfg).Perm (closes cfg s l ++ staysOpen cfg s) :=
    fdsInUse_perm (openClients_perm hreg hlist.nodup hmem)
  have hcloses : (closes cfg s l).Nodup :=
    (List.nodup_append'.mp (hperm.nodup_iff.mp (nodup_fdsInUse hself hwired))).1
  refine ⟨l, _, cregDestroy_eq hlist hkept, rfl, rfl, hmem, hlist.nodup, rfl, rfl, hkept, hcloses,
    hperm, fun c hc => ?_, fun hrejects c => mem_leaked_iff hrejects hidle⟩
  rw [mem_leaked]
  constructor
  · -- not freed, so it is not on the list: it was removed before
    intro hnot
    rcases not_or.mp (mt List.mem_append.mpr hnot) with ⟨hl, hf⟩
    refine ⟨⟨hc, hf⟩, by_contra fun hrem => hl ?_⟩
    exact List.mem_reverse.mpr ((hmem c).mpr ⟨hc, hrem⟩)
  · rintro ⟨⟨-, hf⟩, hrem⟩ hm
    rcases List.mem_append.mp hm with hm | hm
    · exact ((hmem c).mp (List.mem_reverse.mp hm)).2 hrem
    · exact hf hm

/-- A client has hung up while its request is in the queue, and then the server stops: its
pipes stay open. -/
theorem teardown_exact_queued :
    ∃ s, (system Accounting.oneWorker).Reachable s ∧ leaked s = [0] ∧
      ∃ l reg, s.reg.cregDestroy false s.reg.count = some reg ∧ reg.faults = s.reg.faults ∧
        (s.fdsInUse Accounting.oneWorker).Perm (closes Accounting.oneWorker s l ++ [10, 11]) := by
  obtain ⟨s, h, hp⟩ := Transition.exists_reachable_of_run (init Accounting.oneWorker)
    (step Accounting.oneWorker)
    (Accounting.connection ++ [.request 2 "create_canvas 1 1 0".toList true, .hangup 2])
    (fun s => decide (s.running = [] ∧ leaked s = [0] ∧
      staysOpen Accounting.oneWorker s = [10, 11])) (by decide)
  rcases of_decide_eq_true hp with ⟨hidle, hleaked, hopen⟩
  obtain ⟨l, reg, hdestroy, -, hfaults, -, -, -, -, -, -, hperm, -⟩ :=
    teardown_exact h (by decide) hidle
  exact ⟨s, h, hleaked, l, reg, hdestroy, hfaults, hopen ▸ hperm⟩

end AnimateServer.Teardown
