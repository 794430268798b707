import AnimateServer.Verify.Accounting
import AnimateServer.Verify.TableOwners

/-!
# No table names a departed client

`client_markdead` destroys what the client owns at that moment. Two things escape
it: a create command of the client that a worker runs afterwards, and the
client's place in the list of a canvas of somebody else. Where neither happens,
the tables name clients of the registry only.
-/

namespace AnimateServer.Departed

open CLib Server ServerSteps ServerInv Descriptors TableOwners Accounting Transition

/-- No live canvas of another owner is shared with `c`. -/
def Unshared (w : World) (c : ClientRef) : Prop :=
  ∀ i < w.canvases.count, ∀ e ∈ w.canvases.entryAt i,
    e.ptr ≠ none → e.owner ≠ some c → c ∉ e.shared

/-- The client that the step takes leave of. -/
def departing : ServerLbl → Server → Option ClientRef
  | .request i cmd _, s => if strncmpEq cmd "Disconnect".toList 10 then s.clientAt i else none
  | .hangup i, s => s.clientAt i
  | .deliver _, s => s.pipe.head?.bind References.rejected
  | _, _ => none

/-- A create command for a client that is dead, which gets through. -/
def CreatesForDead (env : Env) (s : Server) : Task → Prop
  | ⟨_, type, .rpc client request⟩ =>
    (s.reg.mem client).dead = true ∧ Creates type env request s.world
  | ⟨_, _, .handshake _ _ _⟩ => False

/-- A client that departs is in no list of a canvas of somebody else, and no create command
of a dead client gets through. -/
def LeavesNothing : ServerLbl → Server → Prop
  | .finish w env, s => ∀ task ∈ s.workers[w]?.join, ¬CreatesForDead env s task
  | lbl, s => ∀ c ∈ departing lbl s, Unshared s.world c

/-- The tables name clients of the registry only. -/
def Listed (s : Server) : Prop :=
  ∀ c, Names s.world c → c < s.reg.brk ∧ c ∉ s.history.removed

section Listed

variable {s s' : Server}

theorem Listed.congr (h : Listed s) (hworld : s'.world = s.world) (hbrk : s.reg.brk ≤ s'.reg.brk)
    (hrem : s'.history.removed = s.history.removed) : Listed s' := by
  intro c hc
  rw [hworld] at hc
  rw [hrem]
  exact ⟨Nat.lt_of_lt_of_le (h c hc).1 hbrk, (h c hc).2⟩

theorem Listed.cregRemove (h : Listed s) {c : ClientRef} (hshared : Unshared s.world c) :
    Listed (s.cregRemove c) := by
  have hswept : Swept c s.world (s.cregRemove c).world := swept_destroyOwned c s.world
  intro d hd
  rcases h d (hswept.names hd) with ⟨hlt, hnot⟩
  refine ⟨(brk_cregRemove c s).symm ▸ hlt, fun hm => ?_⟩
  rcases List.mem_cons.mp hm with rfl | hm
  · rcases hswept.names_self hd with ⟨e, ⟨i, hi, he, hptr⟩, howner, hmem⟩
    exact hshared i hi e he hptr howner hmem
  · exact hnot hm

theorem Listed.reject (h : Listed s) {c : ClientRef} (stamp : Nat) (msg : CStr)
    (hshared : Unshared s.world c) : Listed (s.reject c stamp msg) := by
  unfold Server.reject
  refine Listed.cregRemove ?_ hshared
  exact h.congr rfl (by simp) rfl

theorem Listed.handleResult (h : Listed s) (ins : Inserts) {res : TaskResult}
    (hshared : ∀ c ∈ References.rejected res, Unshared s.world c) :
    Listed (s.handleResult ins res) := by
  rcases res with ⟨stamp, body⟩
  cases body with
  | HSK_OK pid c2s s2c =>
    have hbrk := brk_withClient pid c2s s2c s
    rcases handshakeDone_cases ins pid c2s s2c s with heq | ⟨slots, ⟨-, heq⟩ | ⟨-, heq⟩⟩
    · rw [show s.handleResult ins ⟨stamp, .HSK_OK pid c2s s2c⟩ = s from heq]
      exact h
    · rw [show s.handleResult ins ⟨stamp, .HSK_OK pid c2s s2c⟩ = _ from heq]
      exact h.congr rfl (hbrk ▸ Nat.le_succ _) rfl
    · rw [show s.handleResult ins ⟨stamp, .HSK_OK pid c2s s2c⟩ = _ from heq]
      have hnew : Listed { withClient pid c2s s2c s with slots } :=
        h.congr rfl (hbrk ▸ Nat.le_succ _) rfl
      -- nothing names the new client yet
      refine hnew.cregRemove fun i hi e he hptr _ hm => ?_
      have hnames : Names s.world s.reg.brk :=
        Or.inr (Or.inr (Or.inr ⟨e, ⟨i, hi, he, hptr⟩, hm⟩))
      exact Nat.lt_irrefl _ (h _ hnames).1
  | AUTH_OK c username balance =>
    exact h.congr rfl (by simp [Server.handleResult, Server.authDone]) rfl
  | AUTH_NO c => exact h.reject stamp _ (hshared c rfl)
  | AUTH_UN c => exact h.reject stamp _ (hshared c rfl)
  | RPC_DONE c rv =>
    exact h.congr rfl (by simp [Server.handleResult]) rfl

theorem Listed.afterTask (h : Listed s) (hbase : Base s) {w : Nat} {env : Env} {task : Task}
    (hw : s.workers[w]? = some (some task)) (hdead : ¬CreatesForDead env s task) :
    Listed (ServerSteps.afterTask w env task s) := by
  have hbrk : (ServerSteps.afterTask w env task s).reg.brk = s.reg.brk :=
    (ServerSteps.sameButLinks_afterTask w env task s).brk
  rcases hbase.reg.list with ⟨l, hl, hmem⟩
  intro c hc
  rw [hbrk]
  rcases workerRoutine_cases env s.reg s.world task with ⟨-, heq, -⟩ |
    ⟨client, request, hinfo, ⟨-, heq⟩ | ⟨-, heq⟩ | ⟨-, heq, -⟩⟩
  · exact h c (by simpa [ServerSteps.afterTask, heq, World.untouched] using hc)
  · exact h c (by simpa [ServerSteps.afterTask, heq, World.untouched] using hc)
  · exact h c (by simpa [ServerSteps.afterTask, heq, World.untouched] using hc)
  · have hran : Names (runRpc task.type env client request s.reg s.world).world c := by
      simpa [ServerSteps.afterTask, heq] using hc
    rcases (contained_runRpc env client request hl task.type).names c hran with
      hold | ⟨rfl, hcreates⟩ | hlisted
    · exact h c hold
    · -- the client of a create command that gets through is not dead
      rcases task with ⟨stamp, type, info⟩
      obtain rfl : info = .rpc c request := hinfo
      have hlt : c < s.reg.brk := hbase.old.running _ (mem_running hw) c rfl
      exact ⟨hlt, fun hm => hdead ⟨(hbase.reg.dead c hlt).mpr hm, hcreates⟩⟩
    · exact (hmem c).mp hlisted

end Listed

theorem listed_init (cfg : Config) : Listed (init cfg) := by
  intro c hc
  simp [Names, Owns, SharedWith, Live, init, World.init, Table.empty] at hc

theorem listed_step {cfg : Config} {lbl : ServerLbl} {s s' : Server}
    (hs : step cfg lbl s = some s') (hok : LeavesNothing lbl s) (hwired : Wired cfg s)
    (h : Listed s) : Listed s' := by
  cases hwired.step_moves hs with
  | poll | ignored | dequeue => exact h
  | handshake pid alloc => cases alloc <;> exact h
  | disconnect i cmd alloc c hc _ _ _ hdisc =>
    have hmatch : strncmpEq cmd "Disconnect".toList 10 = true := hdisc
    refine Listed.cregRemove (s := s.removeSlot (s.slots.pfds i).fd) h (hok c ?_)
    rw [departing, if_pos hmatch]
    exact hc
  | request i cmd alloc c =>
    have hacq : Listed (acquired c s) := h.congr rfl (by simp [acquired]) rfl
    cases alloc <;> exact hacq
  | hangup i c hc =>
    exact Listed.cregRemove (s := s.removeSlot (s.slots.pfds i).fd) h (hok c hc)
  -- the task leaves nothing to a client that has gone
  | posts w env task body hw =>
    have hafter := h.afterTask hwired.base hw (hok task (by rw [hw]; rfl))
    rw [postResult_eq]
    split <;> exact hafter
  | silent w env task hw => exact h.afterTask hwired.base hw (hok task (by rw [hw]; rfl))
  | deliver ins res pipe hp =>
    have hlisted : Listed { s with
        pipe
        history := { s.history with handled := s.history.handled ++ [res] } } := h
    refine hlisted.handleResult ins fun c hc => hok c ?_
    simpa [departing, hp] using hc

theorem reachable_listed {cfg : Config} {s : Server}
    (h : ((system cfg).under LeavesNothing).Reachable s) : Listed s := by
  refine h.invariant_with (fun s hr => reachable_wired hr.of_under) (fun s hs => ?_)
    (fun lbl s s' hn hw hi => listed_step hn.2 hn.1 hw hi)
  subst hs
  exact listed_init cfg

/-- A freed client is named by no table. -/
theorem freed_not_named {cfg : Config} {s : Server}
    (h : ((system cfg).under LeavesNothing).Reachable s) :
    ∀ c ∈ s.reg.freed, ¬Names s.world c := fun c hc hnames =>
  (reachable_listed h c hnames).2
    ((reachable_wired h.of_under).base.reg.freed_removed c hc)

/-! ## Runs -/

instance (realloc : Int → Option Nat) (elemSize : Int) {ε : Type} (t : Table ε) :
    Decidable (HasRoom realloc elemSize t) :=
  inferInstanceAs (Decidable (¬ (_ ∧ _)))

instance (type : TaskType) (env : Env) (request : CStr) (w : World) :
    Decidable (Creates type env request w) :=
  match type with
  | .CREATE_CANVAS | .CREATE_SPRITE | .CREATE_RECTANGLE | .CREATE_CIRCLE | .PLACE_SPRITE =>
    inferInstanceAs (Decidable (_ ∧ _ ∧ HasRoom _ _ _))
  | .HANDSHAKE | .AUTHORISE | .DESTROY_CANVAS | .DESTROY_SPRITE | .PLACEMENT_UP
  | .PLACEMENT_DOWN | .PLACEMENT_TOP | .PLACEMENT_BOTTOM | .DESTROY_PLACEMENT
  | .SET_ANIM_PARAM | .GENERATE | .SHARE | .BARRIER =>
    inferInstanceAs (Decidable (_ ∧ False))

instance (env : Env) (s : Server) (task : Task) : Decidable (CreatesForDead env s task) :=
  match task with
  | ⟨_, type, .rpc client request⟩ => inferInstanceAs
      (Decidable ((s.reg.mem client).dead = true ∧ Creates type env request s.world))
  | ⟨_, _, .handshake _ _ _⟩ => inferInstanceAs (Decidable False)

instance (w : World) (c : ClientRef) (i : Nat) : Decidable (∀ e ∈ w.canvases.entryAt i,
    e.ptr ≠ none → e.owner ≠ some c → c ∉ e.shared) := inferInstance

instance (w : World) (c : ClientRef) : Decidable (Unshared w c) :=
  Nat.decidableBallLT _ _

instance (lbl : ServerLbl) (s : Server) : Decidable (LeavesNothing lbl s) :=
  match lbl with
  | .finish w env => inferInstanceAs
      (Decidable (∀ task ∈ s.workers[w]?.join, ¬CreatesForDead env s task))
  | .poll revents => inferInstanceAs
      (Decidable (∀ c ∈ departing (.poll revents) s, Unshared s.world c))
  | .handshake pid alloc => inferInstanceAs
      (Decidable (∀ c ∈ departing (.handshake pid alloc) s, Unshared s.world c))
  | .request i cmd alloc => inferInstanceAs
      (Decidable (∀ c ∈ departing (.request i cmd alloc) s, Unshared s.world c))
  | .hangup i => inferInstanceAs (Decidable (∀ c ∈ departing (.hangup i) s, Unshared s.world c))
  | .dequeue w => inferInstanceAs (Decidable (∀ c ∈ departing (.dequeue w) s, Unshared s.world c))
  | .deliver ins => inferInstanceAs
      (Decidable (∀ c ∈ departing (.deliver ins) s, Unshared s.world c))

/-- A request that is answered before anything else happens. -/
def exchange (slot : Nat) (cmd : String) (env : Env) : List ServerLbl :=
  .request slot cmd.toList true :: answers env ++ [.deliver ⟨true, true, true⟩]

/-- Client 0 shares its canvas with client 1, who has logged in. -/
def sharing : List ServerLbl :=
  connection ++
    .handshake 43 true :: answers { Env.allSucceed 7 with hsk := some (12, 13) } ++
    .deliver ⟨true, true, true⟩ ::
    exchange 2 "create_canvas 1 1 0" (Env.allSucceed 7) ++
    exchange 3 "Login bob" { Env.allSucceed 7 with usertxt := some "bob 10\n".toList } ++
    exchange 2 "share_canvas 0 bob" (Env.allSucceed 7)

theorem freed_not_named_ownerFirst :
    ∃ s : Server, s.reg.freed = [1, 0] ∧ ∀ c ∈ s.reg.freed, ¬Names s.world c := by
  obtain ⟨s, hs, hp⟩ := exists_reachable_of_run (init oneWorker)
    (guarded LeavesNothing (step oneWorker)) (sharing ++ [.hangup 2, .hangup 2])
    (fun s => decide (s.reg.freed = [1, 0])) (by decide)
  rw [← under_ofStep] at hs
  exact ⟨s, of_decide_eq_true hp, freed_not_named hs⟩

/-- Client 1 leaves first, and stays in the list of the canvas. -/
theorem departed_stays_shared :
    ¬ ∀ cfg s, (system cfg).Reachable s → ∀ c ∈ s.reg.freed, ¬Names s.world c := by
  intro h
  obtain ⟨s, hs, hp⟩ := exists_reachable_of_run (init oneWorker) (step oneWorker)
    (sharing ++ [.hangup 3])
    (fun s => decide (1 ∈ s.reg.freed ∧ 0 < s.world.canvases.count ∧
      ∃ e ∈ s.world.canvases.entryAt 0, e.ptr ≠ none ∧ 1 ∈ e.shared)) (by decide)
  rcases of_decide_eq_true hp with ⟨hfreed, hcount, e, he, hptr, hshared⟩
  exact h _ s hs 1 hfreed (Or.inr (Or.inr (Or.inr ⟨e, ⟨0, hcount, he, hptr⟩, hshared⟩)))

end AnimateServer.Departed
