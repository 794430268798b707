import AnimateServer.Verify.Accounting
import AnimateServer.Verify.TableOwners

/-!
# No use of a freed client

The main loop looks at a client after it has given back the reference of a
result. That is safe as long as somebody else still has a reference: the
registry, if the client has not been removed, or another task or result. The
condition `Outlives` says so; without it a client that hangs up while its last
command runs is written to after `free`.
-/

namespace AnimateServer.Lifetime

open CLib Server ServerSteps ServerInv Descriptors Stamps Registry References Accounting
open Transition

/-! ## The registry -/

section Registry

variable {r : ClientRegistry} {removed : List ClientRef}

/-- What reads and writes records that are not freed makes no fault. -/
theorem faults_touch {c : ClientRef} (hf : c ∉ r.freed) : (r.touch c).faults = r.faults := by
  rw [r.touch_of_notMem c hf]

theorem faults_modify {c : ClientRef} (hf : c ∉ r.freed) (f : ActiveClient → ActiveClient) :
    (r.modify c f).faults = r.faults :=
  faults_touch hf

theorem faults_release {c : ClientRef} (hf : c ∉ r.freed) :
    (r.cregReleaseClient c).faults = r.faults := by
  rw [cregReleaseClient_eq]
  split
  · simp [ClientRegistry.destroyClient, ClientRegistry.touch, hf]
  · simpa using faults_touch hf

/-- Listed clients are not freed. -/
theorem notMem_freed_of_listed (hinv : RegInv r removed) {l : List ClientRef}
    (hmem : ∀ c, c ∈ l ↔ c < r.brk ∧ c ∉ removed) : ∀ c ∈ l, c ∉ r.freed :=
  fun c hc hf => ((hmem c).mp hc).2 (hinv.freed_removed c hf)

/-- A removal reads the records of the neighbours, which are in the list. -/
theorem faults_remove (hinv : RegInv r removed) {c : ClientRef} (hf : c ∉ r.freed) :
    (((r.markdeadSection c).cregUnlink c).cregReleaseClient c).faults = r.faults := by
  rcases hinv.list with ⟨l, hl, hmem⟩
  have hmark : RegList (r.markdeadSection c) l := hl.modify c (fun _ => rfl) (fun _ => rfl)
  have hfreed : ((r.markdeadSection c).cregUnlink c).freed = r.freed := by
    rw [(sameButLinks_cregUnlink c _).freed, freed_markdeadSection]
  have hlive : ∀ x ∈ l, x ∉ (r.markdeadSection c).freed := by
    rw [freed_markdeadSection]
    exact notMem_freed_of_listed hinv hmem
  rw [faults_release (by rwa [hfreed]), hmark.faults_cregUnlink hlive]
  exact faults_touch hf

/-- An insertion reads the head. -/
theorem faults_insert (hinv : RegInv r removed) (pid c2s s2c : Int) :
    (r.cregInsert true pid c2s s2c).2.faults = r.faults := by
  rcases hinv.list with ⟨l, hl, hmem⟩
  cases hh : r.clients with
  | none =>
    rw [cregInsert_snd_none hh]
    rfl
  | some head =>
    -- the old head is linked, so writing its prev is no fault
    have hhead : head ∈ l := by
      have hchain := hl.linked.chain
      rw [hh] at hchain
      cases l with
      | nil => cases hchain
      | cons a l => exact (Option.some.inj hchain.1) ▸ List.mem_cons_self
    have hf : head ∉ (pushed pid c2s s2c r).freed := notMem_freed_of_listed hinv hmem head hhead
    rw [cregInsert_snd_some hh]
    exact faults_touch hf

/-- A release that is not the last one of a dead client frees nobody. -/
theorem freed_release {c : ClientRef}
    (h : ¬ ((r.mem c).dead = true ∧ decr (r.mem c).refcount = 0)) :
    (r.cregReleaseClient c).freed = r.freed := by
  rw [cregReleaseClient_eq, if_neg h, ClientRegistry.freed_modify]

end Registry

/-! ## Steps -/

/-- A client that is dead when one of its results is handled was not rejected, and the
reference of the result is not its last one. -/
def Outlives : ServerLbl → Server → Prop
  | .deliver _, s => ∀ res ∈ s.pipe.head?, ∀ c ∈ res.client?, (s.reg.mem c).dead = true →
      rejected res = none ∧ (s.reg.mem c).refcount ≠ 1
  | _, _ => True

/-- A rejection is one of the client that the result belongs to. -/
theorem rejected_client {res : TaskResult} {c : ClientRef} (h : c ∈ rejected res) :
    c ∈ res.client? := by
  rcases res with ⟨stamp, body⟩
  cases body <;> simp_all [rejected, TaskResult.client?]

/-- A record that outlives its rejection is that of a live client. -/
theorem rejectsLive_of_outlives {lbl : ServerLbl} {s : Server} (h : Outlives lbl s) :
    RejectsLive lbl s := by
  cases lbl with
  | deliver ins =>
    intro res hres c hc
    by_contra hdead
    rw [Bool.not_eq_false] at hdead
    rw [(h res hres c (rejected_client hc) hdead).1] at hc
    cases hc
  | _ => trivial

section Ops

variable {s : Server}

/-- A login is no fault if the record is still there after the release. -/
theorem faults_authDone {c : ClientRef} (stamp : Nat) (username : CStr) (balance : Int)
    (hf : c ∉ s.reg.freed) (hkept : (s.reg.cregReleaseClient c).freed = s.reg.freed) :
    (s.authDone c stamp username balance).reg.faults = s.reg.faults := by
  have htouch : s.touch c = s := by
    rw [Server.touch, s.reg.touch_of_notMem c hf]
  unfold Server.authDone
  rw [htouch]
  -- the reference that is given back is not the last
  have hf₁ : c ∉ (s.reg.cregReleaseClient c).freed := hkept ▸ hf
  have hname := faults_modify hf₁ fun a =>
    { a with username := strncpyBuf MAX_USERNAME_LEN username }
  have hf₂ : c ∉ ((s.reg.cregReleaseClient c).modify c fun a =>
      { a with username := strncpyBuf MAX_USERNAME_LEN username }).freed := by
    rwa [ClientRegistry.freed_modify]
  have hsent := faults_touch hf₂
  have hlogged := faults_modify ((ClientRegistry.freed_touch _ c).symm ▸ hf₂) fun a =>
    { a with loggedIn := true }
  exact hlogged.trans (hsent.trans (hname.trans (faults_release hf)))

/-- A rejection is no fault if the record is still there after the release. -/
theorem faults_reject {c : ClientRef} (stamp : Nat) (msg : CStr) (hbase : Base s)
    (hc : c < s.reg.brk) (hf : c ∉ s.reg.freed)
    (hkept : (s.reg.cregReleaseClient c).freed = s.reg.freed) :
    (s.reject c stamp msg).reg.faults = s.reg.faults := by
  have hf₁ : c ∉ (s.reg.cregReleaseClient c).freed := hkept ▸ hf
  have htouch : (s.release c).touch c = s.release c := by
    rw [Server.touch, show (s.release c).reg = s.reg.cregReleaseClient c from rfl,
      ClientRegistry.touch_of_notMem _ c hf₁]
    rfl
  unfold Server.reject
  rw [htouch]
  have hinv := (hbase.release hc).reg.touch c
  have hf₂ : c ∉ ((s.reg.cregReleaseClient c).touch c).freed := by
    rwa [ClientRegistry.freed_touch]
  exact (faults_remove hinv hf₂).trans ((faults_touch hf₁).trans (faults_release hf))

/-- Handling a result touches no freed client. -/
theorem faults_handleResult {ins : Inserts} {res : TaskResult}
    (h : Accounted res.client?.toList s) (hbase : Base s)
    (hlive : ∀ c ∈ res.client?, (s.reg.mem c).dead = true →
      rejected res = none ∧ (s.reg.mem c).refcount ≠ 1) :
    (s.handleResult ins res).reg.faults = s.reg.faults := by
  -- the client of the result is not freed, neither before nor by the release
  have hkept : ∀ c ∈ res.client?, c < s.reg.brk ∧ c ∉ s.reg.freed ∧
      (s.reg.cregReleaseClient c).freed = s.reg.freed := by
    intro c hc
    have hmem : c ∈ res.client?.toList ++ references s := by
      rw [Option.mem_def.mp hc]
      simp
    have hf := fun hf => Counted.settled h c hf hmem
    have hlt := Counted.old h c hmem
    refine ⟨hlt, hf, freed_release ?_⟩
    rintro ⟨hdead, hzero⟩
    refine (hlive c hc hdead).2 ?_
    have hpos : 0 < (s.reg.mem c).refcount := by
      rw [Counted.refcount h c hlt hf]
      exact Nat.lt_of_lt_of_le (List.count_pos_iff.mpr hmem) (Nat.le_add_left _ _)
    rcases Nat.exists_eq_succ_of_ne_zero (Nat.ne_of_gt hpos) with ⟨n, hn⟩
    rw [hn, Nat.succ_eq_add_one, decr_succ] at hzero
    rw [hn, hzero]
  have hinv := hbase.reg
  rcases res with ⟨stamp, body⟩
  cases body with
  | HSK_OK pid c2s s2c =>
    have hnew : (withClient pid c2s s2c s).reg.faults = s.reg.faults :=
      faults_insert hinv pid c2s s2c
    rcases handshakeDone_cases ins pid c2s s2c s with heq | ⟨slots, ⟨-, heq⟩ | ⟨-, heq⟩⟩
    · exact congrArg (fun s => s.reg.faults) heq
    · exact (congrArg (fun s => s.reg.faults) heq).trans hnew
    · refine (congrArg (fun s => s.reg.faults) heq).trans ((faults_remove
        (hbase.withClient pid c2s s2c).reg fun hf => ?_).trans hnew)
      have hf' : s.reg.brk ∈ s.reg.freed :=
        (sameButLinks_cregInsert pid c2s s2c s.reg).freed ▸ hf
      exact Nat.lt_irrefl _ (hinv.removed_old _ (hinv.freed_removed _ hf'))
  | AUTH_OK c username balance =>
    rcases hkept c rfl with ⟨-, hf, hfreed⟩
    exact faults_authDone stamp username balance hf hfreed
  | AUTH_NO c =>
    rcases hkept c rfl with ⟨hlt, hf, hfreed⟩
    exact faults_reject stamp _ hbase hlt hf hfreed
  | AUTH_UN c =>
    rcases hkept c rfl with ⟨hlt, hf, hfreed⟩
    exact faults_reject stamp _ hbase hlt hf hfreed
  | RPC_DONE c rv =>
    rcases hkept c rfl with ⟨hlt, hf, hfreed⟩
    have hf₁ : c ∉ (s.reg.cregReleaseClient c).freed := hfreed ▸ hf
    exact (faults_touch hf₁).trans (faults_release hf)

/-- The handlers visit clients of the list only. -/
theorem visited_workerRoutine {env : Env} {r : ClientRegistry} {w : World} {task : Task}
    {l : List ClientRef} (hl : RegList r l) :
    ∀ c ∈ (workerRoutine env r w task).1.visited, c ∈ l := by
  rcases workerRoutine_cases env r w task with ⟨-, heq, -⟩ |
    ⟨client, request, -, ⟨-, heq⟩ | ⟨-, heq⟩ | ⟨-, heq, -⟩⟩
  · rw [heq]
    exact fun c hc => by cases hc
  · rw [heq]
    exact fun c hc => by cases hc
  · rw [heq]
    exact fun c hc => by cases hc
  · rw [heq]
    exact (TableOwners.contained_runRpc env client request hl task.type).visited

/-- So a handler reads no freed record. -/
theorem faults_afterTask (hbase : Base s) (w : Nat) (env : Env) (task : Task) :
    (afterTask w env task s).reg.faults = s.reg.faults := by
  rcases hbase.reg.list with ⟨l, hl, hmem⟩
  refine congrArg ClientRegistry.faults (s.reg.touchAll_of_notMem fun c hc => ?_)
  exact notMem_freed_of_listed hbase.reg hmem c (visited_workerRoutine hl c hc)

/-- Neither the queue nor the pipe touches the registry. -/
theorem reg_taskEnqueue (alloc : Bool) (type : TaskType) (pid : Int) (request : CStr)
    (client : ClientRef) (s : Server) :
    (s.taskEnqueue alloc type pid request client).reg = s.reg := by
  cases alloc <;> rfl

theorem reg_postResult (cfg : Config) (res : TaskResult) (s : Server) :
    (s.postResult cfg res).reg = s.reg := by
  rw [postResult_eq]
  split <;> rfl

end Ops

/-- No step makes a fault as long as records outlive what is done with them. -/
theorem faults_step {cfg : Config} {lbl : ServerLbl} {s s' : Server}
    (hs : step cfg lbl s = some s') (hok : Outlives lbl s) (hwired : Wired cfg s)
    (hcount : Accounted [] s) : s'.reg.faults = s.reg.faults := by
  have hinv := hwired.base.reg
  -- a record is there because somebody holds a reference to it
  cases hwired.step_moves hs with
  | poll | ignored | dequeue => rfl
  | handshake => rw [reg_taskEnqueue]
  | disconnect i cmd alloc c _ _ hrem =>
    exact faults_remove hinv fun hf => hrem (hinv.freed_removed c hf)
  | request i cmd alloc c type args _ _ hrem =>
    rw [reg_taskEnqueue]
    exact faults_modify (fun hf => hrem (hinv.freed_removed c hf)) _
  | hangup i c _ _ hrem => exact faults_remove hinv fun hf => hrem (hinv.freed_removed c hf)
  | posts w env task =>
    rw [reg_postResult]
    exact faults_afterTask hwired.base w env task
  | silent w env task => exact faults_afterTask hwired.base w env task
  | deliver ins res pipe hp =>
    rcases hwired.pop hp (s.history.handled ++ [res]) with ⟨hpop, -⟩
    exact faults_handleResult (hcount.pop hp _) hpop.base (hok res (by rw [hp]; rfl))

/-- While every client outlives the results that are handled, no step touches a freed
client, and no client is freed or has its pipes destroyed twice. -/
theorem no_use_after_free {cfg : Config} {s : Server}
    (h : ((system cfg).under Outlives).Reachable s) :
    s.reg.faults = [] ∧ s.reg.freed.Nodup ∧ s.reg.destroyed.Nodup := by
  have hknown : ∀ s, ((system cfg).under Outlives).Reachable s → Wired cfg s ∧ Accounted [] s :=
    fun s hr => ⟨reachable_wired hr.of_under,
      reachable_accounted (fun _ _ hok => rejectsLive_of_outlives hok) hr⟩
  have hfaults : s.reg.faults = [] := by
    refine h.invariant_with hknown (fun s hs => ?_) (fun lbl s s' hn hk hi => ?_)
    · subst hs
      rfl
    · exact (faults_step hn.2 hn.1 hk.1 hk.2).trans hi
  have hcounted : Counted s.reg s.history.removed (references s) := (hknown s h).2
  exact ⟨hfaults, hcounted.nodup, hcounted.destroyed ▸ hcounted.nodup⟩

instance (lbl : ServerLbl) (s : Server) : Decidable (Outlives lbl s) :=
  match lbl with
  | .deliver _ => inferInstanceAs (Decidable (∀ res ∈ s.pipe.head?, ∀ c ∈ res.client?,
      (s.reg.mem c).dead = true → rejected res = none ∧ (s.reg.mem c).refcount ≠ 1))
  | .poll _ | .handshake _ _ | .request _ _ _ | .hangup _ | .dequeue _ | .finish _ _ =>
    inferInstanceAs (Decidable True)

theorem no_use_after_free_hangup :
    ∃ s : Server, s.reg.freed = [0] ∧
      s.reg.faults = [] ∧ s.reg.freed.Nodup ∧ s.reg.destroyed.Nodup := by
  obtain ⟨s, hs, hp⟩ := exists_reachable_of_run (init oneWorker)
    (guarded Outlives (step oneWorker))
    (connection ++ .request 2 "create_canvas 1 1 0".toList true :: answers (Env.allSucceed 7) ++
      [.deliver ⟨true, true, true⟩, .hangup 2])
    (fun s => decide (s.reg.freed = [0])) (by decide)
  rw [← under_ofStep] at hs
  exact ⟨s, of_decide_eq_true hp, no_use_after_free hs⟩

/-- The client hangs up while its command runs: `RPC_DONE` frees it and then reads
`client->s2c_fd`. -/
theorem reply_after_free :
    ¬ ∀ cfg s, (system cfg).Reachable s →
      s.reg.faults = [] ∧ s.reg.freed.Nodup ∧ s.reg.destroyed.Nodup := by
  intro h
  obtain ⟨s, hs, hp⟩ := exists_reachable_of_run (init oneWorker) (step oneWorker)
    hangupInCommand (fun s => decide (s.reg.faults = [0])) (by decide)
  have hfault : s.reg.faults = [0] := of_decide_eq_true hp
  rw [(h _ s hs).1] at hfault
  cases hfault

end AnimateServer.Lifetime
