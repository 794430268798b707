import AnimateServer.Verify.Stamps

/-!
# Reference counts

A reference to a client is held by the registry, by a task, by a result, by the
main loop while it handles a result, or by nobody (`lost`). Every holder gives
its reference back once, so the count of a client is the number of references
to it, as long as the main loop handles no rejection of a client that it has
already removed: `creg_remove` would give back the registry's reference again.
-/

namespace AnimateServer.References

open CLib Server ServerSteps ServerInv Descriptors Stamps Registry

/-! ## The registry -/

/-- `refs` are the references to the clients apart from those of the registry, which are
the clients not in `removed`. -/
structure Counted (r : ClientRegistry) (removed refs : List ClientRef) : Prop where
  refcount : ∀ c < r.brk, c ∉ r.freed →
    (r.mem c).refcount = (if c ∈ removed then 0 else 1) + refs.count c
  old : ∀ c ∈ refs, c < r.brk
  settled : ∀ c ∈ r.freed, c ∉ refs
  kept : ∀ c ∈ removed, c ∉ r.freed → c ∈ refs
  nodup : r.freed.Nodup
  destroyed : r.destroyed = r.freed

section Counted

variable {r r' : ClientRegistry} {removed refs refs' : List ClientRef}

/-- At the start nobody holds a reference. -/
theorem counted_init : Counted .init [] [] := by
  refine ⟨?_, ?_, ?_, ?_, List.nodup_nil, rfl⟩ <;> simp [ClientRegistry.init]

/-- The order of the references does not matter. -/
theorem Counted.perm (h : Counted r removed refs) (hp : refs.Perm refs') :
    Counted r removed refs' where
  refcount := fun c hc hf => by rw [h.refcount c hc hf, hp.count_eq]
  old := fun c hc => h.old c (hp.mem_iff.mpr hc)
  settled := fun c hc hm => h.settled c hc (hp.mem_iff.mpr hm)
  kept := fun c hc hf => hp.mem_iff.mp (h.kept c hc hf)
  nodup := h.nodup
  destroyed := h.destroyed

/-- Writes to other fields than `refcount`. -/
theorem Counted.congr (h : Counted r removed refs) (hbrk : r'.brk = r.brk)
    (hcount : ∀ c, (r'.mem c).refcount = (r.mem c).refcount) (hfreed : r'.freed = r.freed)
    (hdestroyed : r'.destroyed = r.destroyed) : Counted r' removed refs where
  refcount := by rw [hbrk, hfreed]; exact fun c hc hf => (hcount c).trans (h.refcount c hc hf)
  old := by rw [hbrk]; exact h.old
  settled := by rw [hfreed]; exact h.settled
  kept := by rw [hfreed]; exact h.kept
  nodup := by rw [hfreed]; exact h.nodup
  destroyed := by rw [hdestroyed, hfreed]; exact h.destroyed

/-- Moving links counts nothing. -/
theorem Counted.links (h : Counted r removed refs) (hlinks : SameButLinks r r') :
    Counted r' removed refs :=
  h.congr hlinks.brk hlinks.refcount hlinks.freed hlinks.destroyed

/-- Writing another field counts nothing. -/
theorem Counted.modify (h : Counted r removed refs) (c : ClientRef)
    {f : ActiveClient → ActiveClient} (hf : ∀ a, (f a).refcount = a.refcount) :
    Counted (r.modify c f) removed refs := by
  refine h.congr (by simp) (fun d => ?_) (by simp) (by simp)
  by_cases hd : d = c
  · subst hd
    simp [hf]
  · simp [hd]

/-- A client that is not removed gets one more reference. -/
theorem Counted.acquire (h : Counted r removed refs) (hinv : RegInv r removed) {c : ClientRef}
    (hc : c < r.brk) (hrem : c ∉ removed) :
    Counted (r.modify c fun a => { a with refcount := a.refcount + 1 }) removed (c :: refs) := by
  refine ⟨fun d hd hf => ?_, fun d hd => ?_, fun d hd hm => ?_, fun d hd hf => ?_,
    by simpa using h.nodup, by simpa using h.destroyed⟩
  · have hold := h.refcount d (by simpa using hd) (by simpa using hf)
    -- one count and one holder more, both of c
    by_cases hdc : d = c
    · subst hdc
      simp [hold, Nat.add_assoc]
    · simp [hdc, hold, Ne.symm hdc]
  · rw [ClientRegistry.brk_modify]
    rcases List.mem_cons.mp hd with rfl | hd
    · exact hc
    · exact h.old d hd
  · rw [ClientRegistry.freed_modify] at hd
    rcases List.mem_cons.mp hm with rfl | hm
    · exact hrem (hinv.freed_removed d hd)
    · exact h.settled d hd hm
  · exact List.mem_cons_of_mem _ (h.kept d hd (by simpa using hf))

/-- One reference is given back; the last one of a dead client frees it. -/
theorem Counted.release {c : ClientRef} (h : Counted r removed (c :: refs))
    (hinv : RegInv r removed) : Counted (r.cregReleaseClient c) removed refs := by
  have hc : c < r.brk := h.old c List.mem_cons_self
  have hf : c ∉ r.freed := fun hf => h.settled c hf List.mem_cons_self
  have hcount : decr (r.mem c).refcount = (if c ∈ removed then 0 else 1) + refs.count c := by
    rw [h.refcount c hc hf, List.count_cons_self, ← Nat.add_assoc, decr_succ]
  -- the count of every client but `c` stays
  have hothers : ∀ d < r.brk, d ∉ r.freed →
      (Function.update r.mem c { r.mem c with refcount := decr (r.mem c).refcount } d).refcount =
        (if d ∈ removed then 0 else 1) + refs.count d := by
    intro d hd hdf
    by_cases hdc : d = c
    · subst hdc
      simpa using hcount
    · rw [Function.update_of_ne hdc, h.refcount d hd hdf, List.count_cons_of_ne (Ne.symm hdc)]
  rw [cregReleaseClient_eq]
  split
  · rename_i hlast
    have hrem : c ∈ removed := (hinv.dead c hc).mp hlast.1
    have hnone : c ∉ refs := by
      have hzero := hlast.2
      rw [hcount, if_pos hrem] at hzero
      exact List.count_eq_zero.mp (by omega)
    refine ⟨fun d hd hdf => ?_, fun d hd => ?_, fun d hd hm => ?_, fun d hd hdf => ?_, ?_, ?_⟩
    · simp only [freed_destroyClient, ClientRegistry.freed_modify, List.mem_cons, not_or] at hdf
      simpa using hothers d (by simpa using hd) hdf.2
    · simpa using h.old d (List.mem_cons_of_mem _ hd)
    · simp only [freed_destroyClient, ClientRegistry.freed_modify] at hd
      rcases List.mem_cons.mp hd with rfl | hd
      · exact hnone hm
      · exact h.settled d hd (List.mem_cons_of_mem _ hm)
    · simp only [freed_destroyClient, ClientRegistry.freed_modify, List.mem_cons, not_or] at hdf
      exact (List.mem_cons.mp (h.kept d hd hdf.2)).resolve_left hdf.1
    · simpa using ⟨hf, h.nodup⟩
    · simp [h.destroyed]
  · rename_i hnot
    refine ⟨fun d hd hdf => ?_, fun d hd => ?_, fun d hd hm => ?_, fun d hd hdf => ?_, ?_, ?_⟩
    · simpa using hothers d (by simpa using hd) (by simpa using hdf)
    · simpa using h.old d (List.mem_cons_of_mem _ hd)
    · exact h.settled d (by simpa using hd) (List.mem_cons_of_mem _ hm)
    · rcases List.mem_cons.mp (h.kept d hd (by simpa using hdf)) with rfl | hm
      · -- the client is dead, so its count has not come to 0
        have hpos : refs.count d ≠ 0 := by
          intro hzero
          refine hnot ⟨(hinv.dead d hc).mpr hd, ?_⟩
          rw [hcount, if_pos hd, hzero]
        exact List.count_pos_iff.mp (Nat.pos_of_ne_zero hpos)
      · exact hm
    · simpa using h.nodup
    · simpa using h.destroyed

/-- Once a client is marked dead and unlinked, the reference of the registry is one in
hand, which `creg_remove` gives back. -/
theorem Counted.unlink (h : Counted r removed refs) (hinv : RegInv r removed) {c : ClientRef}
    (hc : c < r.brk) (hrem : c ∉ removed) :
    Counted ((r.markdeadSection c).cregUnlink c) (c :: removed) (c :: refs) := by
  have hmark : Counted (r.markdeadSection c) removed refs := h.modify c fun _ => rfl
  have hcut := hmark.links (sameButLinks_cregUnlink c _)
  have hlinks := sameButLinks_cregUnlink c (r.markdeadSection c)
  have hfreed : ((r.markdeadSection c).cregUnlink c).freed = r.freed := by
    rw [hlinks.freed, freed_markdeadSection]
  refine ⟨fun d hd hdf => ?_, fun d hd => ?_, fun d hd hm => ?_, fun d hd hdf => ?_, hcut.nodup,
    hcut.destroyed⟩
  · rw [hcut.refcount d hd hdf]
    -- the registry's own reference becomes one that the removal holds
    by_cases hdc : d = c
    · subst hdc
      simp [hrem, Nat.add_comm]
    · simp [hdc, Ne.symm hdc]
  · rcases List.mem_cons.mp hd with rfl | hd
    · rwa [hlinks.brk, brk_markdeadSection]
    · exact hcut.old d hd
  · rcases List.mem_cons.mp hm with rfl | hm
    · exact hrem (hinv.freed_removed d (hfreed ▸ hd))
    · exact hcut.settled d hd hm
  · rcases List.mem_cons.mp hd with rfl | hd
    · exact List.mem_cons_self
    · exact List.mem_cons_of_mem _ (hcut.kept d hd hdf)

/-- A removal gives back the reference of the list. -/
theorem Counted.remove (h : Counted r removed refs) (hinv : RegInv r removed) {c : ClientRef}
    (hc : c < r.brk) (hrem : c ∉ removed) :
    Counted (((r.markdeadSection c).cregUnlink c).cregReleaseClient c) (c :: removed) refs :=
  (h.unlink hinv hc hrem).release (hinv.unlink hc)

/-- A new client has the reference of the registry only. -/
theorem Counted.insert (h : Counted r removed refs) (hinv : RegInv r removed)
    (pid c2s s2c : Int) : Counted (r.cregInsert true pid c2s s2c).2 removed refs := by
  have hlinks := sameButLinks_cregInsert pid c2s s2c r
  have hpushed : Counted (pushed pid c2s s2c r) removed refs := by
    refine ⟨fun d hd hf => ?_, fun d hd => Nat.lt_succ_of_lt (h.old d hd), h.settled, h.kept,
      h.nodup, h.destroyed⟩
    by_cases hdb : d = r.brk
    · subst hdb
      have hnew : r.brk ∉ removed := fun hm => Nat.lt_irrefl _ (hinv.removed_old _ hm)
      have hnone : r.brk ∉ refs := fun hm => Nat.lt_irrefl _ (h.old _ hm)
      simp [pushed, inserted, hnew, List.count_eq_zero.mpr hnone]
    · have hlt : d < r.brk + 1 := hd
      simpa [pushed, hdb] using h.refcount d (by omega) hf
  exact hpushed.links hlinks

end Counted

/-! ## The server -/

/-- The references that tasks and results hold, and those that are lost. -/
def references (s : Server) : List ClientRef :=
  (s.queue ++ s.running).filterMap Task.client? ++ s.pipe.filterMap TaskResult.client? ++
    s.history.lost

/-- The client a result rejects. -/
def rejected (res : TaskResult) : Option ClientRef :=
  match res.body with
  | .AUTH_NO client => some client
  | .AUTH_UN client => some client
  | _ => none

/-- The main loop handles no rejection of a client that is dead already. -/
def RejectsLive : ServerLbl → Server → Prop
  | .deliver _, s => ∀ res ∈ s.pipe.head?, ∀ c ∈ rejected res, (s.reg.mem c).dead = false
  | _, _ => True

/-- The references in hand, and those of `references`, make up the counts. -/
def Accounted (held : List ClientRef) (s : Server) : Prop :=
  Counted s.reg s.history.removed (held ++ references s)

section Accounted

/-- Counting in a list with one more element. -/
theorem count_filterMap_cons {α β : Type} [DecidableEq β] (f : α → Option β) (a : α) (l : List α)
    (b : β) : ((a :: l).filterMap f).count b = (f a).toList.count b + (l.filterMap f).count b := by
  rw [List.filterMap_cons]
  cases f a with
  | none => simp
  | some x => simp [List.count_cons, Nat.add_comm]

variable {s : Server} {held : List ClientRef}

/-- A handshake belongs to nobody yet. -/
theorem Accounted.taskEnqueue_handshake (h : Accounted held s) (alloc : Bool) (pid : Int)
    (request : CStr) (client : ClientRef) :
    Accounted held (s.taskEnqueue alloc .HANDSHAKE pid request client) := by
  have hrefs : (references (s.taskEnqueue alloc .HANDSHAKE pid request client)) =
      references s := by
    cases alloc <;>
      simp [references, Server.taskEnqueue, Server.running, newTask, handshakeTask, Task.client?,
        List.filterMap_append, List.filterMap_cons]
  unfold Accounted
  rw [hrefs]
  cases alloc <;> exact h

/-- A task, or nobody, takes the reference in hand. -/
theorem Accounted.taskEnqueue {client : ClientRef} (h : Accounted (client :: held) s)
    (alloc : Bool) {type : TaskType} (hne : type ≠ .HANDSHAKE) (pid : Int) (request : CStr) :
    Accounted held (s.taskEnqueue alloc type pid request client) := by
  have hclient : (newTask s.history.stamp type pid request client).client? = some client := by
    rw [client_newTask, if_neg hne]
  -- the reference held goes to the task, or is lost with the memory
  have hperm : (client :: references s).Perm
      (references (s.taskEnqueue alloc type pid request client)) := by
    cases alloc with
    | true =>
      simp only [references, Server.taskEnqueue, if_true, Server.running, List.filterMap_append,
        List.filterMap_cons, List.filterMap_nil, hclient, List.append_assoc]
      exact List.perm_middle.symm
    | false =>
      simp only [references, Server.taskEnqueue, Bool.false_eq_true, if_false, hclient,
        Option.toList_some, List.singleton_append, Server.running]
      exact List.perm_middle.symm
  have hcounted : Counted s.reg s.history.removed
      (held ++ references (s.taskEnqueue alloc type pid request client)) := by
    refine h.perm (List.Perm.trans ?_ (hperm.append_left held))
    exact List.perm_middle.symm
  cases alloc <;> exact hcounted

/-- A reference that has been taken is held until its task is queued. -/
theorem Accounted.acquired (h : Accounted held s) (hinv : RegInv s.reg s.history.removed)
    {c : ClientRef} (hc : c < s.reg.brk) (hrem : c ∉ s.history.removed) :
    Accounted (c :: held) (acquired c s) :=
  Counted.acquire h hinv hc hrem

/-- Reading, writing and sending leave the references as they are. -/
theorem Accounted.touch (h : Accounted held s) (c : ClientRef) : Accounted held (s.touch c) :=
  Counted.links h (sameButLinks_touch s.reg c)

theorem Accounted.modify (h : Accounted held s) (c : ClientRef)
    {f : ActiveClient → ActiveClient} (hf : ∀ a, (f a).refcount = a.refcount) :
    Accounted held (s.modify c f) :=
  Counted.modify h c hf

theorem Accounted.send (h : Accounted held s) (c : ClientRef) (stamp : Nat) (line : CStr) :
    Accounted held (s.send c stamp line) :=
  Counted.links h (sameButLinks_touch s.reg c)

/-- A reference that is given back is no longer held. -/
theorem Accounted.release {c : ClientRef} (h : Accounted (c :: held) s)
    (hinv : RegInv s.reg s.history.removed) : Accounted held (s.release c) :=
  Counted.release h hinv

/-- A removal gives back the reference that the list has held. -/
theorem Accounted.cregRemove (h : Accounted held s) (hinv : RegInv s.reg s.history.removed)
    {c : ClientRef} (hc : c < s.reg.brk) (hrem : c ∉ s.history.removed) :
    Accounted held (s.cregRemove c) :=
  Counted.remove h hinv hc hrem

theorem Accounted.removeAt (h : Accounted held s) (hinv : RegInv s.reg s.history.removed)
    (i : Nat) {c : ClientRef} (hc : c < s.reg.brk) (hrem : c ∉ s.history.removed) :
    Accounted held (s.removeAt i c) :=
  Counted.remove h hinv hc hrem

/-- A task takes its reference along. -/
theorem Accounted.dequeue (h : Accounted held s) {w : Nat} {task : Task} {queue : List Task}
    (hw : s.workers[w]? = some none) (hq : s.queue = task :: queue) :
    Accounted held { s with queue, workers := s.workers.set w (some task) } := by
  refine Counted.perm h (List.Perm.append_left held ?_)
  have hrunning := running_set_some (t := task) hw
  refine List.Perm.append_right _ (List.Perm.append_right _ (List.Perm.filterMap _ ?_))
  rw [hq, List.cons_append]
  exact List.perm_middle.symm.trans (hrunning.symm.append_left queue)

/-- Worker `w` lets go of its task, whose reference is in hand then. -/
theorem Accounted.afterTask (h : Accounted held s) {w : Nat} {task : Task}
    (hw : s.workers[w]? = some (some task)) (env : Env) :
    Accounted (held ++ task.client?.toList) (afterTask w env task s) := by
  have hrunning : s.running.Perm (task :: (ServerSteps.afterTask w env task s).running) :=
    running_set_none hw
  have hrefs : references (ServerSteps.afterTask w env task s) =
      (s.queue ++ (ServerSteps.afterTask w env task s).running).filterMap Task.client? ++
        s.pipe.filterMap TaskResult.client? ++ s.history.lost := rfl
  refine Counted.perm (Counted.links h (sameButLinks_afterTask w env task s))
    (List.perm_iff_count.mpr fun c => ?_)
  have hcount := (hrunning.filterMap Task.client?).count_eq c
  rw [count_filterMap_cons] at hcount
  rw [hrefs]
  simp only [references, List.filterMap_append, List.count_append]
  omega

/-- The result, or nobody, takes the reference in hand. -/
theorem Accounted.postResult {res : TaskResult} (h : Accounted (held ++ res.client?.toList) s)
    (cfg : Config) : Accounted held (s.postResult cfg res) := by
  -- the reference goes to the result in the pipe, or is lost with it
  have hput : ∀ s', (res.client?.toList ++ references s).Perm (references s') →
      Counted s.reg s.history.removed (held ++ references s') := by
    intro s' hperm
    refine Counted.perm h ?_
    rw [List.append_assoc]
    exact hperm.append_left held
  rw [postResult_eq]
  split
  · refine hput _ (List.perm_iff_count.mpr fun c => ?_)
    simp only [references, Server.running, List.filterMap_append, List.count_append,
      count_filterMap_cons, List.filterMap_nil, List.count_nil]
    omega
  · refine hput _ (List.perm_iff_count.mpr fun c => ?_)
    simp only [references, Server.running, List.count_append]
    omega

/-- A rejection gives back the reference of its result. -/
theorem Accounted.reject {c : ClientRef} (h : Accounted (c :: held) s) (hbase : Base s)
    (stamp : Nat) (msg : CStr) (hrem : c ∉ s.history.removed) :
    Accounted held (s.reject c stamp msg) := by
  have hc : c < s.reg.brk := Counted.old h c (by simp)
  have hbase' := (hbase.release hc).touch c
  have hrel := (h.release hbase.reg).touch c
  exact (hrel.send c stamp msg).cregRemove (hbase'.send c stamp msg).reg
    (by simpa using hc) hrem

/-- A login that is let in gives back the reference of its result. -/
theorem Accounted.authDone {c : ClientRef} (h : Accounted (c :: held) s) (hbase : Base s)
    (stamp : Nat) (username : CStr) (balance : Int) :
    Accounted held (s.authDone c stamp username balance) := by
  have hrel := (h.touch c).release (hbase.touch c).reg
  have hname := hrel.modify c
    (f := fun a => { a with username := strncpyBuf MAX_USERNAME_LEN username }) fun _ => rfl
  exact (hname.send c stamp (decimal balance ++ "\n".toList)).modify c
    (f := fun a => { a with loggedIn := true }) fun _ => rfl

/-- A new client has one reference, that of the list. -/
theorem Accounted.handshakeDone (h : Accounted held s) (hbase : Base s) (ins : Inserts)
    (pid c2s s2c : Int) : Accounted held (s.handshakeDone ins pid c2s s2c) := by
  have hnew : Accounted held (withClient pid c2s s2c s) := Counted.insert h hbase.reg pid c2s s2c
  rcases handshakeDone_cases ins pid c2s s2c s with heq | ⟨slots, ⟨-, heq⟩ | ⟨-, heq⟩⟩
  · rw [heq]
    exact h
  · rw [heq]
    exact hnew
  · rw [heq]
    refine Accounted.cregRemove (s := { withClient pid c2s s2c s with slots }) hnew
      (hbase.withClient pid c2s s2c).reg ?_ fun hm => ?_
    · exact (brk_withClient pid c2s s2c s).symm ▸ Nat.lt_succ_self _
    · exact Nat.lt_irrefl _ (hbase.reg.removed_old _ hm)

/-- The reference of a result that has been read is in hand. -/
theorem Accounted.pop (h : Accounted [] s) {res : TaskResult} {pipe : List TaskResult}
    (hp : s.pipe = res :: pipe) (handled : List TaskResult) :
    Accounted res.client?.toList
      { s with pipe, history := { s.history with handled } } := by
  refine Counted.perm h (List.perm_iff_count.mpr fun c => ?_)
  simp only [references, Server.running, hp, List.count_append, count_filterMap_cons,
    List.nil_append]
  omega

/-- Every result gives back the one reference that it carries, unless it rejects a client that has
gone. -/
theorem Accounted.handleResult {ins : Inserts} {res : TaskResult}
    (h : Accounted res.client?.toList s) (hbase : Base s)
    (hlive : ∀ c ∈ rejected res, c ∉ s.history.removed) :
    Accounted [] (s.handleResult ins res) := by
  rcases res with ⟨stamp, body⟩
  cases body with
  | HSK_OK pid c2s s2c => exact h.handshakeDone hbase ins pid c2s s2c
  | AUTH_OK c username balance => exact h.authDone hbase stamp username balance
  | AUTH_NO c => exact h.reject hbase stamp _ (hlive c rfl)
  | AUTH_UN c => exact h.reject hbase stamp _ (hlive c rfl)
  | RPC_DONE c rv => exact (h.release hbase.reg).send c stamp _

end Accounted

/-! ## Steps -/

/-- Each step leaves as many references as there are holders. -/
theorem accounted_step {cfg : Config} {lbl : ServerLbl} {s s' : Server}
    (hs : step cfg lbl s = some s') (hok : RejectsLive lbl s) (hwired : Wired cfg s)
    (h : Accounted [] s) : Accounted [] s' := by
  -- a reference goes from the request to its task, from there to its result, and comes back
  cases hwired.step_moves hs with
  | poll | ignored => exact h
  | handshake pid alloc => exact h.taskEnqueue_handshake alloc pid [] 0
  | disconnect i cmd alloc c _ hlt hrem => exact h.removeAt hwired.base.reg i hlt hrem
  | request i cmd alloc c type args _ hlt hrem _ hleads =>
    exact (h.acquired hwired.base.reg hlt hrem).taskEnqueue alloc hleads.ne_handshake 0 args
  | hangup i c _ hlt hrem => exact h.removeAt hwired.base.reg i hlt hrem
  | dequeue w task queue hw hq => exact h.dequeue hw hq
  | posts w env task body hw hout =>
    have hafter := h.afterTask hw env
    rw [← workerRoutine_client hout] at hafter
    exact hafter.postResult cfg
  | silent w env task hw =>
    refine Counted.perm (h.afterTask hw env) (List.perm_iff_count.mpr fun c => ?_)
    simp only [references, Server.running, afterTask, List.count_append]
    omega
  | deliver ins res pipe hp =>
    rcases hwired.pop hp (s.history.handled ++ [res]) with ⟨hpop, -⟩
    refine (h.pop hp _).handleResult hpop.base fun c hc hm => ?_
    -- a client that has been removed is dead
    have hdead := hok res (by rw [hp]; rfl) c hc
    have hlt := hwired.base.reg.removed_old c hm
    rw [(hwired.base.reg.dead c hlt).mpr hm] at hdead
    cases hdead

/-- As long as no rejection comes too late, there are as many references as holders. -/
theorem reachable_accounted {cfg : Config} {ok : ServerLbl → Server → Prop}
    (himp : ∀ lbl s, ok lbl s → RejectsLive lbl s) {s : Server}
    (h : ((system cfg).under ok).Reachable s) : Accounted [] s := by
  refine h.invariant_with (fun s hr => reachable_wired hr.of_under) (fun s hs => ?_)
    (fun lbl s s' hn hw hi => accounted_step hn.2 (himp lbl s hn.1) hw hi)
  subst hs
  have hnone : references (init cfg) = [] := by
    simp [references, init, Server.running]
  rw [Accounted, hnone]
  exact counted_init

end AnimateServer.References
