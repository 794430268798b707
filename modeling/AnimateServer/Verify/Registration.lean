import AnimateServer.Model.Unlinks
import AnimateServer.Verify.InFlight
import AnimateServer.Verify.SlotMirror

/-!
# One registration per process

FIFO names are made from a pid alone, and nothing in the server asks whether a
pid has been seen before. A pid is under way from its `SIGUSR1` on: in a
handshake task, in the result of the handshake, and in a client until it is
freed. As long as no process signals while its pid is under way, a pid is in one
of these places only, and the names that are unlinked are nobody else's.
-/

namespace AnimateServer.Registration

open CLib Server ServerSteps ServerInv Descriptors Records InFlight Registry SlotMirror Transition
  Accounting

/-! ## What a step frees -/

/-- The clients `new` have been destroyed and freed; a client that had been freed before is
an access to freed memory. -/
structure Frees (new : List ClientRef) (r r' : ClientRegistry) : Prop where
  destroyed : r'.destroyed = new ++ r.destroyed
  freed : r'.freed = new ++ r.freed
  first : r'.faults = [] → ∀ c ∈ new, c ∉ r.freed
  faults : r.faults <:+ r'.faults

section Frees

variable {r r' r'' : ClientRegistry} {new new' : List ClientRef}

/-- What two operations free they free one after the other. -/
theorem Frees.trans (h : Frees new r r') (h' : Frees new' r' r'') : Frees (new' ++ new) r r'' where
  destroyed := by rw [h'.destroyed, h.destroyed, List.append_assoc]
  freed := by rw [h'.freed, h.freed, List.append_assoc]
  first := fun hclean c hc hf => by
    have hbefore := h'.faults
    rw [hclean, List.suffix_nil] at hbefore
    rcases List.mem_append.mp hc with hc | hc
    · exact h'.first hclean c hc (h.freed ▸ List.mem_append_right _ hf)
    · exact h.first hbefore c hc hf
  faults := h.faults.trans h'.faults

/-- An operation that destroys nothing. -/
theorem frees_nothing (hdestroyed : r'.destroyed = r.destroyed) (hfreed : r'.freed = r.freed)
    (hfaults : r.faults <:+ r'.faults) : Frees [] r r' :=
  ⟨hdestroyed, hfreed, fun _ c hc => by simp at hc, hfaults⟩

theorem frees_touch (r : ClientRegistry) (c : ClientRef) : Frees [] r (r.touch c) :=
  frees_nothing (by simp) (by simp) (faults_suffix_touch r c)

theorem frees_modify (r : ClientRegistry) (c : ClientRef) (f : ActiveClient → ActiveClient) :
    Frees [] r (r.modify c f) :=
  frees_nothing (by simp) (by simp) (faults_suffix_modify r c f)

/-- Destroying a record frees it; if it had been freed before, that shows in the faults. -/
theorem frees_destroyClient (r : ClientRegistry) (c : ClientRef) :
    Frees [c] r (r.destroyClient c) where
  destroyed := by simp
  freed := by simp
  first := fun hclean d hd hf => by
    obtain rfl := List.mem_singleton.mp hd
    have hfault : (r.touch d).faults = [] := hclean
    rw [ClientRegistry.faults_touch_of_mem r d hf] at hfault
    cases hfault
  faults := faults_suffix_touch r c

/-- A release frees one record at most. -/
theorem frees_release (r : ClientRegistry) (c : ClientRef) :
    ∃ new, Frees new r (r.cregReleaseClient c) := by
  have hmod := frees_modify r c fun a => { a with refcount := decr a.refcount }
  rw [cregReleaseClient_eq]
  split
  · exact ⟨_, hmod.trans (frees_destroyClient _ c)⟩
  · exact ⟨_, hmod⟩

/-- A removal frees one record at most. -/
theorem frees_remove (r : ClientRegistry) (c : ClientRef) :
    ∃ new, Frees new r (((r.markdeadSection c).cregUnlink c).cregReleaseClient c) := by
  have hmark : Frees [] r (r.markdeadSection c) := frees_modify r c _
  have hlinks := sameButLinks_cregUnlink c (r.markdeadSection c)
  have hunlink : Frees [] (r.markdeadSection c) ((r.markdeadSection c).cregUnlink c) :=
    frees_nothing hlinks.destroyed hlinks.freed (faults_suffix_cregUnlink _ c)
  rcases frees_release ((r.markdeadSection c).cregUnlink c) c with ⟨new, hnew⟩
  exact ⟨_, (hmark.trans hunlink).trans hnew⟩

/-- An insertion frees none. -/
theorem frees_insert (r : ClientRegistry) (pid c2s s2c : Int) :
    Frees [] r (r.cregInsert true pid c2s s2c).2 := by
  have hlinks := sameButLinks_cregInsert pid c2s s2c r
  exact frees_nothing hlinks.destroyed hlinks.freed (faults_suffix_insert r pid c2s s2c)

end Frees

/-- What a result frees are records of its own client or of one that got no slot. -/
theorem frees_handleResult (ins : Inserts) (res : TaskResult) (s : Server) :
    ∃ new, Frees new s.reg (s.handleResult ins res).reg := by
  -- a rejection releases, reads twice and removes
  have hreject : ∀ c stamp msg, ∃ new, Frees new s.reg (s.reject c stamp msg).reg := by
    intro c stamp msg
    rcases frees_release s.reg c with ⟨new, hnew⟩
    rcases frees_remove (((s.reg.cregReleaseClient c).touch c).touch c) c with ⟨new', hnew'⟩
    rw [reg_reject]
    exact ⟨_, ((hnew.trans (frees_touch _ c)).trans (frees_touch _ c)).trans hnew'⟩
  rcases res with ⟨stamp, body⟩
  cases body with
  | HSK_OK pid c2s s2c =>
    have hins : Frees [] s.reg (withClient pid c2s s2c s).reg := frees_insert s.reg pid c2s s2c
    rcases handshakeDone_cases ins pid c2s s2c s with heq | ⟨slots, ⟨-, heq⟩ | ⟨-, heq⟩⟩
    · rw [show s.handleResult ins ⟨stamp, .HSK_OK pid c2s s2c⟩ = _ from heq]
      exact ⟨[], frees_nothing rfl rfl (List.suffix_refl _)⟩
    · rw [show s.handleResult ins ⟨stamp, .HSK_OK pid c2s s2c⟩ = _ from heq]
      exact ⟨[], hins⟩
    · rw [show s.handleResult ins ⟨stamp, .HSK_OK pid c2s s2c⟩ = _ from heq]
      rcases frees_remove (withClient pid c2s s2c s).reg s.reg.brk with ⟨new, hnew⟩
      exact ⟨_, hins.trans hnew⟩
  | AUTH_OK c username balance =>
    rcases frees_release (s.reg.touch c) c with ⟨new, hnew⟩
    have hname := ((frees_touch s.reg c).trans hnew).trans (frees_modify _ c fun a =>
      { a with username := strncpyBuf MAX_USERNAME_LEN username })
    exact ⟨_, (hname.trans (frees_touch _ c)).trans (frees_modify _ c fun a =>
      { a with loggedIn := true })⟩
  | AUTH_NO c => exact hreject c stamp _
  | AUTH_UN c => exact hreject c stamp _
  | RPC_DONE c rv =>
    rcases frees_release s.reg c with ⟨new, hnew⟩
    exact ⟨_, hnew.trans (frees_touch _ c)⟩

/-- A worker frees no client, but what it reads can be a fault. -/
theorem frees_afterTask (w : Nat) (env : Env) (task : Task) (s : Server) :
    Frees [] s.reg (afterTask w env task s).reg := by
  have htouched := sameButLinks_afterTask w env task s
  exact frees_nothing htouched.destroyed htouched.freed (faults_suffix_touchAll s.reg _)

/-- So every step frees some records, in some order. -/
theorem frees_step {cfg : Config} {lbl : ServerLbl} {s s' : Server}
    (hs : step cfg lbl s = some s') (hwired : Wired cfg s) : ∃ new, Frees new s.reg s'.reg := by
  have hsame : Frees [] s.reg s.reg := frees_nothing rfl rfl (List.suffix_refl _)
  -- releases come with results, removals with requests and hang-ups as well
  cases hwired.step_moves hs with
  | handshake pid alloc => cases alloc <;> exact ⟨[], hsame⟩
  | request i cmd alloc c =>
    have hacq : Frees [] s.reg (acquired c s).reg :=
      frees_modify s.reg c fun a => { a with refcount := a.refcount + 1 }
    cases alloc <;> exact ⟨[], hacq⟩
  | poll | ignored | dequeue => exact ⟨[], hsame⟩
  | disconnect i cmd alloc c => exact frees_remove s.reg c
  | hangup i c => exact frees_remove s.reg c
  | posts w env task =>
    rw [postResult_eq]
    split <;> exact ⟨[], frees_afterTask w env task s⟩
  | silent w env task => exact ⟨[], frees_afterTask w env task s⟩
  | deliver ins res pipe =>
    exact frees_handleResult ins res { s with
      pipe
      history := { s.history with handled := s.history.handled ++ [res] } }

/-! ## Pids under way -/

/-- The pid of a handshake task. -/
def taskPid (t : Task) : Option Int :=
  match t.info with
  | .handshake clientPid _ _ => some clientPid
  | .rpc _ _ => none

/-- The pid of a handshake result. -/
def resultPid : ResultBody → Option Int
  | .HSK_OK clientPid _ _ => some clientPid
  | .AUTH_OK _ _ _ => none
  | .AUTH_NO _ => none
  | .AUTH_UN _ => none
  | .RPC_DONE _ _ => none

/-- The pids of the clients that are not freed. -/
def openPids (r : ClientRegistry) : List Int := (openClients r).map fun c => (r.mem c).clientPid

/-- The pids in handshake tasks, in their results, and of clients that are not freed. -/
def pids (s : Server) : List Int := inFlight taskPid resultPid s ++ openPids s.reg

/-- A `SIGUSR1` carries a pid, and is enqueued only if that pid is not under way. -/
def FirstSignal : ServerLbl → Server → Prop
  | .handshake pid alloc, s => (INT_MIN ≤ pid ∧ pid ≤ INT_MAX) ∧ (alloc = true → pid ∉ pids s)
  | _, _ => True

/-- The result of a handshake has the pid of its task. -/
theorem resultPid_posted {env : Env} {r : ClientRegistry} {w : World} {task : Task}
    {body : ResultBody} (h : (workerRoutine env r w task).2 = .posts body) :
    resultPid body = taskPid task := by
  cases hinfo : task.info with
  | handshake pid c2sName s2cName =>
    simp only [workerRoutine, hinfo] at h
    cases hh : env.hsk with
    | none => simp [hh] at h
    | some fds =>
      simp only [hh] at h
      cases h
      simp [resultPid, taskPid, hinfo]
  | rpc client request =>
    have hclient := workerRoutine_client h
    have hnone : taskPid task = none := by simp [taskPid, hinfo]
    rw [hnone]
    -- only a handshake's result has a pid, and this task is none
    cases body with
    | HSK_OK pid c2s s2c => simp [TaskResult.client?, Task.client?, hinfo] at hclient
    | _ => rfl

/-- The pids of open clients: a handshake result adds one, and nothing else does. -/
theorem openPids_subperm {pending : Option ResultBody} {r r' : ClientRegistry}
    (h : Recorded pending r r') (hfreed : r.freed ⊆ r'.freed) :
    (openPids r').Subperm ((pending.bind resultPid).toList ++ openPids r) := by
  have hkept : ∀ c < r.brk, (r'.mem c).clientPid = (r.mem c).clientPid := by
    intro c hc
    rcases h.old c hc with ⟨-, heq⟩ | ⟨username, balance, -, heq⟩
    · exact clientPid_of_settled heq
    · simpa [settled, authorised] using congrArg ActiveClient.clientPid heq
  -- those who were there before and are not freed now
  have hstay :
      (((List.range r.brk).filter (· ∉ r'.freed)).map fun c => (r'.mem c).clientPid).Sublist
        (openPids r) := by
    have hpids : ((List.range r.brk).filter (· ∉ r'.freed)).map (fun c => (r'.mem c).clientPid) =
        ((List.range r.brk).filter (· ∉ r'.freed)).map fun c => (r.mem c).clientPid := by
      apply List.map_congr_left
      intro c hc
      exact hkept c (List.mem_range.mp (List.mem_filter.mp hc).1)
    rw [hpids]
    refine List.Sublist.map _ (List.monotone_filter_right _ fun c hc => ?_)
    simp only [decide_eq_true_eq] at hc ⊢
    exact fun hm => hc (hfreed hm)
  rcases h.brk with hbrk | ⟨pid, c2s, s2c, hpending, hbrk, hnew⟩
  · rw [openPids, openClients, hbrk]
    exact (hstay.trans (List.sublist_append_right _ _)).subperm
  · have hpid : (r'.mem r.brk).clientPid = pid := congrArg ActiveClient.clientPid hnew
    rw [openPids, openClients, hbrk, List.range_succ, List.filter_append, List.map_append, hpending]
    have hlast : (([r.brk].filter (· ∉ r'.freed)).map fun c => (r'.mem c).clientPid).Sublist
        [pid] := by
      have hsub := (List.filter_sublist (p := fun c => decide (c ∉ r'.freed)) (l := [r.brk])).map
        fun c => (r'.mem c).clientPid
      rwa [List.map_singleton, hpid] at hsub
    exact (hstay.append hlast).subperm.trans List.perm_append_comm.subperm

/-- The pid of a signal that gets a task. -/
def signalled (lbl : ServerLbl) : List Int :=
  match lbl with
  | .handshake pid true => [pid]
  | _ => []

/-- A step moves the pids under way, and loses some; a signal adds its own. -/
theorem pids_step {cfg : Config} {lbl : ServerLbl} {s s' : Server}
    (hs : step cfg lbl s = some s') (hwired : Wired cfg s) :
    (pids s').Subperm (signalled lbl ++ pids s) := by
  rcases frees_step hs hwired with ⟨new, hfrees⟩
  have hfreed : s.reg.freed ⊆ s'.reg.freed := by
    rw [hfrees.freed]
    exact List.subset_append_right _ _
  have hopen := openPids_subperm (recorded_step hs hwired) hfreed
  unfold pids
  cases inFlight_step (f := taskPid) (g := resultPid) hs hwired
      fun _ _ _ _ _ h => Or.inl (resultPid_posted h) with
  | @accepted t hacc hp _ _ hperm =>
    rw [hp] at hopen
    -- the pid of a signal comes in with the task of its handshake
    have hsignal : (taskPid t).toList.Subperm (signalled lbl) := by
      cases hacc with
      | handshake pid => exact List.Subperm.refl _
      | @request _ i cmd c type args hc hlt hyes hleads =>
        have hnone : taskPid (newTask s.history.stamp type 0 args c) = none := by
          cases type <;> first | rfl | exact absurd rfl hleads.ne_handshake
        rw [hnone]
        exact List.nil_subperm
    have hflight := hperm.subperm.trans (hsignal.append (List.Subperm.refl _))
    have hboth := hflight.append hopen
    rwa [List.append_assoc] at hboth
  | @other gone hp _ hperm =>
    rw [hp] at hopen
    have hflight : (inFlight taskPid resultPid s').Subperm (inFlight taskPid resultPid s) :=
      (List.sublist_append_right gone _).subperm.trans hperm.symm.subperm
    exact (hflight.append hopen).trans (List.sublist_append_right _ _).subperm
  | @handled res hres hp _ hperm =>
    rw [hp] at hopen
    -- a handshake that is handled moves its pid to a record, or closes it
    have hmoved : (inFlight taskPid resultPid s' ++ openPids s'.reg).Subperm
        ((resultPid res.body).toList ++ inFlight taskPid resultPid s' ++ openPids s.reg) := by
      refine ((List.Subperm.refl _).append hopen).trans ?_
      rw [← List.append_assoc]
      exact (List.perm_append_comm.append_right _).subperm
    have hback := (hperm.symm.append_right (openPids s.reg)).subperm
    exact (hmoved.trans hback).trans (List.sublist_append_right _ _).subperm

/-! ## The invariant -/

/-- A pid is under way once. -/
structure Distinct (s : Server) : Prop where
  nodup : (pids s).Nodup
  range : ∀ pid ∈ pids s, INT_MIN ≤ pid ∧ pid ≤ INT_MAX
  names : ∀ t ∈ s.queue ++ s.running, t.unlinks = [] ∨
    ∃ pid, taskPid t = some pid ∧ t.unlinks = destroyClientPipes pid

/-- At the start there is no pid. -/
theorem distinct_init (cfg : Config) : Distinct (init cfg) where
  nodup := by
    simp [pids, inFlight, openPids, openClients, init, Server.running, ClientRegistry.init]
  range := fun pid hpid => by
    simp [pids, inFlight, openPids, openClients, init, Server.running, ClientRegistry.init] at hpid
  names := fun t ht => by simp [init, Server.running] at ht

/-- As long as no pid is signalled twice, all that are under way or registered are different. -/
theorem distinct_step {cfg : Config} {lbl : ServerLbl} {s s' : Server}
    (hs : step cfg lbl s = some s') (hok : FirstSignal lbl s) (hwired : Wired cfg s)
    (h : Distinct s) : Distinct s' := by
  have hsub := pids_step hs hwired
  -- FirstSignal lets in a pid that nothing names yet
  have hnew : (signalled lbl ++ pids s).Nodup ∧
      ∀ pid ∈ signalled lbl, INT_MIN ≤ pid ∧ pid ≤ INT_MAX := by
    cases lbl with
    | handshake pid alloc =>
      rcases hok with ⟨hrange, hfresh⟩
      cases alloc with
      | false => exact ⟨h.nodup, fun p hp => by simp [signalled] at hp⟩
      | true =>
        refine ⟨List.nodup_cons.mpr ⟨hfresh rfl, h.nodup⟩, fun p hp => ?_⟩
        rwa [List.mem_singleton.mp hp]
    | _ => exact ⟨h.nodup, fun p hp => by simp [signalled] at hp⟩
  refine ⟨?_, fun pid hpid => ?_, fun t ht => ?_⟩
  · rcases hsub with ⟨l, hperm, hl⟩
    exact hperm.nodup_iff.mp (hnew.1.sublist hl)
  · rcases List.mem_append.mp (hsub.subset hpid) with hpid | hpid
    · exact hnew.2 pid hpid
    · exact h.range pid hpid
  · rcases work_step hs hwired ht with hold | ⟨hacc, -⟩
    · exact h.names t hold
    · cases hacc with
      | handshake pid => exact Or.inr ⟨pid, rfl, rfl⟩
      | @request _ i cmd c type args hc hlt hyes hleads =>
        refine Or.inl ?_
        cases type <;> first | rfl | exact absurd rfl hleads.ne_handshake

/-- In every run in which each pid signals once, all that are under way or registered are different.
-/
theorem reachable_distinct {cfg : Config} {s : Server}
    (h : ((system cfg).under FirstSignal).Reachable s) : Distinct s := by
  refine h.invariant_with (fun s hr => reachable_wired hr.of_under) (fun s hs => ?_)
    (fun lbl s s' hn hw hi => distinct_step hn.2 hn.1 hw hi)
  subst hs
  exact distinct_init cfg

/-! ## The registered clients -/

/-- A FIFO name belongs to one pid. -/
theorem pid_of_name {pid pid' : Int} (h : INT_MIN ≤ pid ∧ pid ≤ INT_MAX)
    (h' : INT_MIN ≤ pid' ∧ pid' ≤ INT_MAX) {name : CStr} (hname : name ∈ destroyClientPipes pid)
    (hname' : name ∈ destroyClientPipes pid') : pid = pid' := by
  simp only [destroyClientPipes, List.mem_cons, List.not_mem_nil, or_false] at hname hname'
  rcases hname with rfl | rfl <;> rcases hname' with heq | heq <;>
    exact setName_inj h.1 h.2 h'.1 h'.2 heq

/-- The records that a step destroys are read off the two lists. -/
theorem newlyDestroyed_eq {new : List ClientRef} {s s' : Server} (h : Frees new s.reg s'.reg) :
    newlyDestroyed s s' = new := by
  rw [newlyDestroyed, h.destroyed, List.length_append, Nat.add_sub_cancel]
  exact List.take_left

section Distinct

variable {cfg : Config} {s s' : Server}

/-- A client whose record is not freed is registered. -/
theorem mem_openPids {c : ClientRef} (hc : c ∈ openClients s.reg) :
    (s.reg.mem c).clientPid ∈ openPids s.reg := List.mem_map_of_mem hc

/-- Two clients that are not freed have different pids. -/
theorem Distinct.client (h : Distinct s) {c d : ClientRef} (hc : c ∈ openClients s.reg)
    (hd : d ∈ openClients s.reg) (heq : (s.reg.mem c).clientPid = (s.reg.mem d).clientPid) :
    c = d :=
  List.inj_on_of_nodup_map (List.nodup_append.mp h.nodup).2.1 hc hd heq

/-- The pid of a handshake is not that of a client that is not freed. -/
theorem Distinct.handshake (h : Distinct s) {pid : Int} (hpid : pid ∈ inFlight taskPid resultPid s)
    {d : ClientRef} (hd : d ∈ openClients s.reg) : pid ≠ (s.reg.mem d).clientPid :=
  (List.nodup_append.mp h.nodup).2.2 pid hpid _ (mem_openPids hd)

/-- No worker unlinks a name of a client that is not freed. -/
theorem Distinct.task (h : Distinct s) {t : Task} (ht : t ∈ s.running) {d : ClientRef}
    (hd : d ∈ openClients s.reg) {name : CStr} (hname : name ∈ t.unlinks) :
    name ∉ destroyClientPipes (s.reg.mem d).clientPid := by
  have hwork : t ∈ s.queue ++ s.running := List.mem_append_right _ ht
  intro hname'
  rcases h.names t hwork with hnone | ⟨pid, hpid, heq⟩
  · rw [hnone] at hname
    exact absurd hname List.not_mem_nil
  · have hflight : pid ∈ inFlight taskPid resultPid s :=
      List.mem_append_left _ (List.mem_filterMap.mpr ⟨t, hwork, hpid⟩)
    rw [heq] at hname
    exact h.handshake hflight hd (pid_of_name (h.range pid (List.mem_append_left _ hflight))
      (h.range _ (List.mem_append_right _ (mem_openPids hd))) hname hname')

/-- The pid of the handshake result that is handled. -/
theorem mem_inFlight_of_pending {lbl : ServerLbl} {pid c2s s2c : Int}
    (hp : pending lbl s = some (.HSK_OK pid c2s s2c)) : pid ∈ inFlight taskPid resultPid s := by
  cases lbl with
  | deliver ins =>
    rcases Option.map_eq_some_iff.mp hp with ⟨res, hres, hbody⟩
    refine List.mem_append_right _ (List.mem_filterMap.mpr ⟨res, List.mem_of_mem_head? hres, ?_⟩)
    rw [hbody]
    rfl
  | _ => cases hp

/-- A pid is dropped when the result of its handshake finds no slot. -/
theorem pending_of_droppedPid {lbl : ServerLbl} {pid : Int} (h : droppedPid lbl s = some pid) :
    ∃ c2s s2c, pending lbl s = some (.HSK_OK pid c2s s2c) := by
  unfold droppedPid at h
  split at h
  · rename_i stamp pid' c2s s2c pipe hpipe
    cases h
    exact ⟨c2s, s2c, by rw [pending, hpipe]; rfl⟩
  · cases h

/-- The main loop unlinks a name of a client that is not freed only to destroy that client. -/
theorem Distinct.mainLoop (h : Distinct s) {lbl : ServerLbl} (hs : step cfg lbl s = some s')
    (hwired : Wired cfg s) (hclean : s'.reg.faults = []) {d : ClientRef}
    (hd : d ∈ openClients s.reg) {name : CStr} (hname : name ∈ unlinks lbl s s')
    (hown : name ∈ destroyClientPipes (s.reg.mem d).clientPid) : d ∈ newlyDestroyed s s' := by
  rcases frees_step hs hwired with ⟨new, hfrees⟩
  have hrecorded := recorded_step hs hwired
  have hrange := h.range _ (List.mem_append_right _ (mem_openPids hd))
  -- a name made from a pid in flight is not one of `d`
  have hflight : ∀ pid c2s s2c, pending lbl s = some (.HSK_OK pid c2s s2c) →
      name ∉ destroyClientPipes pid := by
    intro pid c2s s2c hp hname'
    have hmem := mem_inFlight_of_pending hp
    exact h.handshake hmem hd
      (pid_of_name (h.range pid (List.mem_append_left _ hmem)) hrange hname' hown)
  rcases List.mem_append.mp hname with hname | hname
  · rcases List.mem_flatMap.mp hname with ⟨pid, hpid, hname⟩
    rcases pending_of_droppedPid (Option.mem_toList.mp hpid) with ⟨c2s, s2c, hp⟩
    exact absurd hname (hflight pid c2s s2c hp)
  · rcases List.mem_flatMap.mp hname with ⟨c, hc, hname⟩
    have hcnew : c ∈ new := newlyDestroyed_eq hfrees ▸ hc
    have hopen : c ∉ s.reg.freed := hfrees.first hclean c hcnew
    have hbase := base_step hs hwired.base
    have hlt : c < s'.reg.brk := by
      apply hbase.reg.removed_old
      apply hbase.reg.freed_removed
      rw [hfrees.freed]
      exact List.mem_append_left _ hcnew
    have hold : c < s.reg.brk → c ∈ newlyDestroyed s s' → d ∈ newlyDestroyed s s' := by
      intro hlt hc
      have hcopen : c ∈ openClients s.reg := mem_openClients.mpr ⟨hlt, hopen⟩
      have hpid : (s'.reg.mem c).clientPid = (s.reg.mem c).clientPid := by
        rcases hrecorded.old c hlt with ⟨-, heq⟩ | ⟨username, balance, -, heq⟩
        · exact clientPid_of_settled heq
        · simpa [settled, authorised] using congrArg ActiveClient.clientPid heq
      rw [hpid] at hname
      have heq := pid_of_name (h.range _ (List.mem_append_right _ (mem_openPids hcopen))) hrange
        hname hown
      rwa [← h.client hcopen hd heq]
    rcases hrecorded.brk with hbrk | ⟨pid, c2s, s2c, hp, hbrk, hnew⟩
    · exact hold (hbrk ▸ hlt) hc
    · rw [hbrk] at hlt
      rcases Nat.lt_succ_iff_lt_or_eq.mp hlt with hlt | rfl
      · exact hold hlt hc
      · -- the client that is destroyed has just been made from a result
        have hpid : (s'.reg.mem s.reg.brk).clientPid = pid :=
          congrArg ActiveClient.clientPid hnew
        rw [hpid] at hname
        exact absurd hname (hflight pid c2s s2c hp)

end Distinct

/-- The registered clients have different pids; no worker unlinks a FIFO name of one, and the
main loop unlinks one only to destroy its client. -/
theorem registered_once {cfg : Config} {s : Server}
    (h : ((system cfg).under FirstSignal).Reachable s) :
    ∃ l, RegList s.reg l ∧ (l.map fun c => (s.reg.mem c).clientPid).Nodup ∧
      (∀ t ∈ s.running, ∀ d ∈ l, ∀ name ∈ t.unlinks,
        name ∉ destroyClientPipes (s.reg.mem d).clientPid) ∧
      ∀ lbl s', step cfg lbl s = some s' → s'.reg.faults = [] → ∀ d ∈ l,
        ∀ name ∈ unlinks lbl s s', name ∈ destroyClientPipes (s.reg.mem d).clientPid →
          d ∈ newlyDestroyed s s' := by
  have hwired := reachable_wired h.of_under
  have hdistinct := reachable_distinct h
  rcases hwired.base.reg.list with ⟨l, hl, hmem⟩
  -- what is linked is registered, so it is not freed
  have hopen : ∀ c ∈ l, c ∈ openClients s.reg := by
    intro c hc
    rcases (hmem c).mp hc with ⟨hlt, hnot⟩
    exact mem_openClients.mpr ⟨hlt, fun hf => hnot (hwired.base.reg.freed_removed c hf)⟩
  refine ⟨l, hl, ?_, ?_, ?_⟩
  · apply hl.nodup.map_on
    intro c hc d hd heq
    exact hdistinct.client (hopen c hc) (hopen d hd) heq
  · intro t ht d hd name hname
    exact hdistinct.task ht (hopen d hd) hname
  · intro lbl s' hs hclean d hd name hname hown
    exact hdistinct.mainLoop hs hwired hclean (hopen d hd) hname hown

instance (lbl : ServerLbl) (s : Server) : Decidable (FirstSignal lbl s) :=
  match lbl with
  | .handshake pid alloc => inferInstanceAs
      (Decidable ((INT_MIN ≤ pid ∧ pid ≤ INT_MAX) ∧ (alloc = true → pid ∉ pids s)))
  | .poll _ | .request _ _ _ | .hangup _ | .dequeue _ | .finish _ _ | .deliver _ =>
    inferInstanceAs (Decidable True)

/-- The process with this pid connects, with the descriptors `fds`. -/
def connectionOf (pid : Int) (fds : Int × Int) : List ServerLbl :=
  .handshake pid true :: answers { Env.allSucceed 7 with hsk := some fds } ++
    [.deliver ⟨true, true, true⟩]

/-- A pid comes back after its first client has been freed. -/
theorem registered_once_reuse :
    ∃ s : Server, s.reg.freed = [0] ∧ (s.reg.mem 2).clientPid = (s.reg.mem 0).clientPid ∧
      ∃ l, RegList s.reg l ∧ (l.map fun c => (s.reg.mem c).clientPid).Nodup := by
  obtain ⟨s, hs, hp⟩ := exists_reachable_of_run (init oneWorker)
    (guarded FirstSignal (step oneWorker))
    (connectionOf 42 (10, 11) ++ connectionOf 43 (12, 13) ++ .hangup 2 ::
      connectionOf 42 (10, 11))
    (fun s => decide (s.reg.freed = [0] ∧ (s.reg.mem 2).clientPid = (s.reg.mem 0).clientPid))
    (by decide)
  rcases of_decide_eq_true hp with ⟨hfreed, hpid⟩
  rw [← under_ofStep] at hs
  rcases registered_once hs with ⟨l, hl, hnodup, -⟩
  exact ⟨s, hfreed, hpid, l, hl, hnodup⟩

/-- A process that signals twice is registered twice. -/
theorem registered_twice :
    ¬ ∀ cfg s, (system cfg).Reachable s → ∀ l, RegList s.reg l →
      (l.map fun c => (s.reg.mem c).clientPid).Nodup := by
  intro h
  obtain ⟨s, hs, hp⟩ := exists_reachable_of_run (init oneWorker) (step oneWorker)
    (connectionOf 42 (10, 11) ++ connectionOf 42 (12, 13))
    (fun s => decide (s.reg.brk = 2 ∧ s.history.removed = [] ∧
      (s.reg.mem 0).clientPid = (s.reg.mem 1).clientPid)) (by decide)
  rcases of_decide_eq_true hp with ⟨hbrk, hremoved, hpid⟩
  rcases (reachable_base hs).reg.list with ⟨l, hl, hmem⟩
  have hlisted : ∀ c < 2, c ∈ l := fun c hc => (hmem c).mpr ⟨hbrk ▸ hc, hremoved ▸ List.not_mem_nil⟩
  have heq := List.inj_on_of_nodup_map (h _ s hs l hl) (hlisted 0 (by decide))
    (hlisted 1 (by decide)) hpid
  cases heq

end AnimateServer.Registration
