import AnimateServer.Verify.Departed
import AnimateServer.Model.Client
import AnimateServer.Verify.InFlight

/-!
# Who may change the tables

`handle_command` looks at `logged_in` for `Login` only. What the server does
check is that the client is there: a task is accepted from a client in a poll
slot that has not been removed. Everything a command does comes from a task
accepted like this, and from a logged-in client as long as the processes hold
back, as `authorise` of the client does, until they are logged in.
-/

namespace AnimateServer.LoginGate

open CLib Server ServerSteps ServerInv Descriptors Records InFlight TableOwners Transition
  Accounting Departed

/-! ## Acceptances -/

/-- A task that `handle_command` has enqueued, with the client's record at that moment. -/
structure Acceptance where
  task : Task
  client : ClientRef
  record : ActiveClient
deriving DecidableEq, Repr

/-- The history of acceptances: each request adds the tasks it has linked. -/
def accept (lbl : ServerLbl) (s s' : Server) (log : List Acceptance) : List Acceptance :=
  match lbl with
  | .request i _ _ =>
    match s.clientAt i with
    | some c =>
      log ++ (s'.history.accepted.drop s.history.accepted.length).map (⟨·, c, s.reg.mem c⟩)
    | none => log
  | _ => log

/-- The log of the acceptances grows. -/
theorem subset_accept (lbl : ServerLbl) (s s' : Server) (log : List Acceptance) :
    log ⊆ accept lbl s s' log := by
  cases lbl with
  | request i cmd alloc =>
    simp only [accept]
    split
    · exact List.subset_append_left _ _
    · exact List.Subset.refl _
  | _ => exact List.Subset.refl _

/-- The task that is logged is the one that has been linked. -/
theorem accept_enqueued {s s' : Server} {i : Nat} {cmd : CStr} {alloc : Bool} {c : ClientRef}
    {t : Task} {log : List Acceptance} (hc : s.clientAt i = some c)
    (haccepted : s'.history.accepted = s.history.accepted ++ [t]) :
    accept (.request i cmd alloc) s s' log = log ++ [⟨t, c, s.reg.mem c⟩] := by
  simp only [accept, hc, haccepted, List.drop_left]
  rfl

/-- A client that is not logged in sends `Login` and `Disconnect` only. -/
def HoldsBack : ServerLbl → Server → Prop
  | .request i cmd _, s =>
    ∀ c ∈ s.clientAt i, (s.reg.mem c).loggedIn = false → IsLogin cmd ∨ IsDisconnect cmd
  | _, _ => True

/-- What the client sends first is a `Login`. -/
theorem isLogin_of_authorise {inputs rest : List CStr} {message : Client.Message}
    (h : Client.authorise inputs = some (message, rest)) : IsLogin message.text := by
  induction inputs with
  | nil => cases h
  | cons input inputs ih =>
    -- the loop returns the first line that starts with Login
    unfold Client.authorise at h
    split at h
    · rename_i m hline
      obtain ⟨rfl, -⟩ : m = message ∧ inputs = rest := by simpa using h
      unfold Client.authoriseLine at hline
      dsimp only at hline
      split at hline
      · cases hline
      · split at hline
        · cases hline
        · rename_i hlogin
          cases hline
          simpa [IsLogin] using hlogin
    · exact ih h

/-- The client that comes with the server holds back: its first message is a `Login`, and
there is no second one unless the server lets it in. -/
theorem session_holdsBack (reply : Option CStr) (inputs : List CStr) :
    (∀ m ∈ (Client.session reply inputs).head?, IsLogin m.text) ∧
      (Client.loggedIn reply = false → (Client.session reply inputs).length ≤ 1) := by
  unfold Client.session
  cases h : Client.authorise inputs with
  | none => simp
  | some mr =>
    rcases mr with ⟨message, rest⟩
    constructor
    · intro m hm
      obtain rfl : message = m := by simpa using hm
      exact isLogin_of_authorise h
    · intro hout
      simp [hout]

/-- Every queued or running task of a client has been accepted from a client with `good`. -/
def Vouched (good : TaskType → ActiveClient → Prop) (s : Server) (log : List Acceptance) : Prop :=
  ∀ t ∈ s.queue ++ s.running, ∀ c, t.client? = some c →
    ∃ a ∈ log, a.task = t ∧ a.client = c ∧ a.record.dead = false ∧ good t.type a.record

/-- What is vouched for stays so, and a new task is vouched for by the acceptance that is
logged with it. -/
theorem vouched_step {cfg : Config} {ok : ServerLbl → Server → Prop}
    {good : TaskType → ActiveClient → Prop}
    (hgood : ∀ i cmd alloc s c type, ok (.request i cmd alloc) s → s.clientAt i = some c →
      Enqueues c cmd s → LeadsTo cmd type → good type (s.reg.mem c))
    {lbl : ServerLbl} {s s' : Server} {log : List Acceptance} (hs : step cfg lbl s = some s')
    (hok : ok lbl s) (hwired : Wired cfg s) (h : Vouched good s log) :
    Vouched good s' (accept lbl s s' log) := by
  intro t ht c hc
  rcases work_step hs hwired ht with hold | ⟨hacc, haccepted⟩
  · rcases h t hold c hc with ⟨a, ha, hvouched⟩
    exact ⟨a, subset_accept lbl s s' log ha, hvouched⟩
  · cases hacc with
    | handshake pid => cases hc
    | @request _ i cmd d type args hslot hlt hyes hleads =>
      obtain rfl : d = c := by
        rw [client_newTask, if_neg hleads.ne_handshake] at hc
        exact Option.some.inj hc
      -- the slot's client is registered, so it is not dead
      have hlive : (s.reg.mem d).dead = false := by
        rw [Bool.eq_false_iff, Ne, hwired.base.reg.dead d hlt]
        exact (hwired.clientAt hslot).2
      refine ⟨⟨newTask s.history.stamp type 0 args d, d, s.reg.mem d⟩, ?_, rfl, rfl, hlive, ?_⟩
      · rw [accept_enqueued hslot haccepted]
        exact List.mem_append_right _ (List.mem_singleton_self _)
      · rw [type_newTask]
        exact hgood i cmd true s d type hok hslot hyes hleads

/-- A task that is accepted under a condition on its client's record is in the log with it. -/
theorem reachable_vouched {cfg : Config} {ok : ServerLbl → Server → Prop}
    {good : TaskType → ActiveClient → Prop}
    (hgood : ∀ i cmd alloc s c type, ok (.request i cmd alloc) s → s.clientAt i = some c →
      Enqueues c cmd s → LeadsTo cmd type → good type (s.reg.mem c))
    {p : Server × List Acceptance}
    (h : (((system cfg).under ok).recording [] accept).Reachable p) :
    Vouched good p.1 p.2 := by
  refine h.invariant_with (fun p hr => reachable_wired hr.of_recording.of_under) (fun p hp => ?_)
    (fun lbl p p' hn hw hi => ?_)
  · intro t ht
    rw [show p.1 = init cfg from hp.1] at ht
    simp [init, Server.running] at ht
  · rw [hn.2]
    exact vouched_step hgood hn.1.2 hn.1.1 hw hi

/-! ## Owners are logged in -/

/-- The search finds clients that are logged in. -/
theorem loggedIn_of_findUser {mem : ClientRef → ActiveClient} {user : CStr} :
    ∀ (n : Nat) (h : Option ClientRef), ∀ c ∈ (findUser mem user n h).2, (mem c).loggedIn = true
  | _, none => by simp [findUser]
  | 0, some _ => by simp [findUser]
  | n + 1, some c => by
    unfold findUser
    split
    · rename_i hc
      simpa using hc.1
    · exact loggedIn_of_findUser n (mem c).next

/-- Besides its own client a command makes the tables name logged-in clients only. -/
theorem names_share {request : CStr} {r : ClientRegistry} {w : World} {c : ClientRef}
    (hc : Names (share request r w).world c) : Names w c ∨ (r.mem c).loggedIn = true := by
  unfold share at hc
  split at hc
  · exact Or.inl hc
  · rename_i cid user _
    cases hlook : w.canvases.lookup (toInt cid) with
    | none =>
      simp only [hlook] at hc
      exact Or.inl hc
    | some i =>
      simp only [hlook] at hc
      cases hce : w.canvases.entryAt i with
      | none =>
        simp only [hce] at hc
        exact Or.inl hc
      | some ce =>
        simp only [hce] at hc
        split at hc
        · exact Or.inl hc
        · rename_i hptr
          cases htarget : (findUser r.mem user r.brk r.clients).2 with
          | none =>
            simp only [htarget] at hc
            exact Or.inl hc
          | some target =>
            simp only [htarget] at hc
            split at hc
            · exact Or.inl hc
            · rcases TableOwners.names_share (Table.lookup_eq_some hlook).2 hce hptr hc with
                hc | rfl
              · exact Or.inl hc
              · -- the new name is the client found, and the search passes over those not logged in
                exact Or.inr (loggedIn_of_findUser _ _ c htarget)

/-- Whom a handler names has been named before, sends the request, or is logged in. -/
theorem names_runRpc {type : TaskType} {env : Env} {client : ClientRef} {request : CStr}
    {r : ClientRegistry} {w : World} {c : ClientRef}
    (hc : Names (runRpc type env client request r w).world c) :
    Names w c ∨ c = client ∨ (r.mem c).loggedIn = true := by
  by_cases ht : type = .SHARE
  · subst ht
    exact (names_share hc).imp_right Or.inr
  · -- no other command looks at the registry
    have hreg : runRpc type env client request r w = runRpc type env client request .init w := by
      cases type <;> first | rfl | exact absurd rfl ht
    rw [hreg] at hc
    rcases (contained_runRpc env client request Registry.regList_init type).names c hc with
      hold | ⟨hself, -⟩ | hmem
    · exact Or.inl hold
    · exact Or.inr (Or.inl hself)
    · simp at hmem

/-- The clients that the tables name are logged in. -/
def Named (s : Server) : Prop :=
  ∀ c, Names s.world c → c < s.reg.brk ∧ (s.reg.mem c).loggedIn = true

/-- Who is named is logged in, as long as a step names nobody else. -/
theorem Named.step {cfg : Config} {lbl : ServerLbl} {s s' : Server} (h : Named s)
    (hs : step cfg lbl s = some s') (hwired : Wired cfg s)
    (hnames : ∀ c, Names s'.world c → Names s.world c ∨
      (c < s.reg.brk ∧ (s.reg.mem c).loggedIn = true)) : Named s' := by
  intro c hc
  have hold : c < s.reg.brk ∧ (s.reg.mem c).loggedIn = true := (hnames c hc).elim (h c) id
  have hrecorded := recorded_step hs hwired
  refine ⟨?_, hrecorded.loggedIn hold.1 hold.2⟩
  exact Nat.lt_of_lt_of_le hold.1 hrecorded.brk_le

/-! ## What a step does outside -/

section Cleanup

variable {ε : Type} [Entry ε]

/-- The cleanup for a client without objects does nothing. -/
theorem cleanupLoop_of_not_owns (client : ClientRef) (p : TableOwners.Part ε)
    (we : World × List Effect)
    (h : ¬Owns (p.get we.1) client) : cleanupLoop client p.get p.put p.remove we = we := by
  -- no entry is the client's, so no turn destroys one
  have hturn : ∀ i < (p.get we.1).count, cleanupTurn client p.get p.put p.remove we i = we := by
    intro i hi
    unfold cleanupTurn
    split
    · rfl
    · rename_i e he
      apply if_neg
      rintro ⟨hptr, howner⟩
      exact h ⟨e, ⟨i, hi, he, hptr⟩, howner⟩
  have hfold : ∀ is : List Nat, (∀ i ∈ is, i < (p.get we.1).count) →
      is.foldl (cleanupTurn client p.get p.put p.remove) we = we := by
    intro is
    induction is with
    | nil => exact fun _ => rfl
    | cons i is ih =>
      intro his
      rw [List.foldl_cons, hturn i (his i List.mem_cons_self)]
      exact ih fun j hj => his j (List.mem_cons_of_mem _ hj)
  exact hfold _ fun i hi => List.mem_range.mp hi

end Cleanup

/-- There is nothing to clean up after a client that owns nothing. -/
theorem destroyOwned_of_not_names {client : ClientRef} {w : World} (h : ¬Names w client) :
    destroyOwned client w = (w, []) := by
  have hcanvases := cleanupLoop_of_not_owns client canvasPart (w, [])
    fun howns => h (Or.inl howns)
  have hsprites := cleanupLoop_of_not_owns client spritePart (w, [])
    fun howns => h (Or.inr (Or.inl howns))
  have hplacements := cleanupLoop_of_not_owns client placementPart (w, [])
    fun howns => h (Or.inr (Or.inr (Or.inl howns)))
  simp only [canvasPart, spritePart, placementPart] at hcanvases hsprites hplacements
  simp only [destroyOwned, hcanvases, hsprites, hplacements]

/-- Calls of libanimate and generated files of a step: those of the task that is finished,
or of the cleanup after a client that is removed. -/
def stepEffects (lbl : ServerLbl) (s s' : Server) : List Effect :=
  match lbl with
  | .finish w env =>
    match s.workers[w]? with
    | some (some task) => (workerRoutine env s.reg s.world task).1.effects
    | _ => []
  | _ =>
    (s'.history.removed.take (s'.history.removed.length - s.history.removed.length)).flatMap
      fun c => (destroyOwned c s.world).2

/-- A removal, or nothing as far as the tables are concerned. -/
def RemovesOnly (s s' : Server) : Prop :=
  (s'.world = s.world ∧ s'.history.removed = s.history.removed) ∨
    ∃ c, s'.world = (destroyOwned c s.world).1 ∧ s'.history.removed = c :: s.history.removed

/-- A removal touches no table. -/
theorem removesOnly_cregRemove {s s' : Server} (c : ClientRef) (hworld : s'.world = s.world)
    (hremoved : s'.history.removed = s.history.removed) : RemovesOnly s (s'.cregRemove c) := by
  refine Or.inr ⟨c, ?_, ?_⟩
  · rw [Server.cregRemove, hworld]
  · rw [Server.cregRemove, hremoved]

/-- A result touches no table, but for the removal in it. -/
theorem removesOnly_handleResult (ins : Inserts) (res : TaskResult) (s : Server) :
    RemovesOnly s (s.handleResult ins res) := by
  rcases res with ⟨stamp, body⟩
  -- a failed insertion and the two refusals remove the client
  cases body with
  | HSK_OK pid c2s s2c =>
    rcases handshakeDone_cases ins pid c2s s2c s with heq | ⟨slots, ⟨-, heq⟩ | ⟨-, heq⟩⟩
    · rw [show s.handleResult ins ⟨stamp, .HSK_OK pid c2s s2c⟩ = _ from heq]
      exact Or.inl ⟨rfl, rfl⟩
    · rw [show s.handleResult ins ⟨stamp, .HSK_OK pid c2s s2c⟩ = _ from heq]
      exact Or.inl ⟨rfl, rfl⟩
    · rw [show s.handleResult ins ⟨stamp, .HSK_OK pid c2s s2c⟩ = _ from heq]
      exact removesOnly_cregRemove _ rfl rfl
  | AUTH_OK c username balance => exact Or.inl ⟨rfl, rfl⟩
  | AUTH_NO c => exact removesOnly_cregRemove c rfl rfl
  | AUTH_UN c => exact removesOnly_cregRemove c rfl rfl
  | RPC_DONE c rv => exact Or.inl ⟨rfl, rfl⟩

/-- A step finishes a task or changes the tables by a removal only. -/
theorem finish_or_removesOnly {cfg : Config} {lbl : ServerLbl} {s s' : Server}
    (hs : step cfg lbl s = some s') (hwired : Wired cfg s) :
    (∃ w env task, lbl = .finish w env ∧ s.workers[w]? = some (some task) ∧
      s'.world = (workerRoutine env s.reg s.world task).1.world) ∨
    ((∀ w env, lbl ≠ .finish w env) ∧ RemovesOnly s s') := by
  -- only the end of a handler runs one
  cases hwired.step_moves hs with
  | poll | ignored | dequeue => exact Or.inr ⟨fun _ _ => ServerLbl.noConfusion, Or.inl ⟨rfl, rfl⟩⟩
  | handshake pid alloc =>
    refine Or.inr ⟨fun _ _ => ServerLbl.noConfusion, Or.inl ?_⟩
    cases alloc <;> exact ⟨rfl, rfl⟩
  | request i cmd alloc =>
    refine Or.inr ⟨fun _ _ => ServerLbl.noConfusion, Or.inl ?_⟩
    cases alloc <;> exact ⟨rfl, rfl⟩
  | disconnect i cmd alloc c =>
    exact Or.inr ⟨fun _ _ => ServerLbl.noConfusion, removesOnly_cregRemove c rfl rfl⟩
  | hangup i c =>
    exact Or.inr ⟨fun _ _ => ServerLbl.noConfusion, removesOnly_cregRemove c rfl rfl⟩
  | posts w env task body hw =>
    refine Or.inl ⟨w, env, task, rfl, hw, ?_⟩
    rw [postResult_eq]
    split <;> rfl
  | silent w env task hw => exact Or.inl ⟨w, env, task, rfl, hw, rfl⟩
  | deliver ins res pipe =>
    exact Or.inr ⟨fun _ _ => ServerLbl.noConfusion, removesOnly_handleResult ins res { s with
      pipe
      history := { s.history with handled := s.history.handled ++ [res] } }⟩

/-- The step changes a table, calls libanimate or writes a file. -/
def Acts (lbl : ServerLbl) (s s' : Server) : Prop :=
  s'.world ≠ s.world ∨ stepEffects lbl s s' ≠ []

/-- A task that does anything runs a command of a client. -/
theorem isRpc_of_acts {w : Nat} {env : Env} {task : Task} {s s' : Server}
    (hw : s.workers[w]? = some (some task))
    (hworld : s'.world = (workerRoutine env s.reg s.world task).1.world)
    (hacts : Acts (.finish w env) s s') :
    IsRpc task.type ∧ ∃ client request, task.info = .rpc client request := by
  simp only [Acts, stepEffects, hw, hworld] at hacts
  rcases workerRoutine_cases env s.reg s.world task with ⟨-, heq, -⟩ |
    ⟨client, request, hinfo, ⟨-, heq⟩ | ⟨-, heq⟩ | ⟨hrpc, -⟩⟩
  · simp [heq, World.untouched] at hacts
  · simp [heq, World.untouched] at hacts
  · simp [heq, World.untouched] at hacts
  · exact ⟨hrpc, client, request, hinfo⟩

/-- Whoever was logged in at an acceptance still is. -/
def Remembered (s : Server) (log : List Acceptance) : Prop :=
  ∀ a ∈ log, a.client < s.reg.brk ∧
    (a.record.loggedIn = true → (s.reg.mem a.client).loggedIn = true)

/-- What has been accepted stays in the log. -/
theorem remembered_step {cfg : Config} {lbl : ServerLbl} {s s' : Server} {log : List Acceptance}
    (hs : step cfg lbl s = some s') (hwired : Wired cfg s) (h : Remembered s log) :
    Remembered s' (accept lbl s s' log) := by
  have hrecorded := recorded_step hs hwired
  have hbrk := hrecorded.brk_le
  -- records only ever go from logged out to logged in
  have hlater : ∀ a ∈ log, a.client < s'.reg.brk ∧
      (a.record.loggedIn = true → (s'.reg.mem a.client).loggedIn = true) := by
    intro a ha
    rcases h a ha with ⟨hlt, hin⟩
    exact ⟨Nat.lt_of_lt_of_le hlt hbrk, fun hlogged => hrecorded.loggedIn hlt (hin hlogged)⟩
  intro a ha
  cases lbl with
  | request i cmd alloc =>
    simp only [accept] at ha
    cases hc : s.clientAt i with
    | none => exact hlater a (by simpa only [hc] using ha)
    | some c =>
      simp only [hc] at ha
      rcases List.mem_append.mp ha with ha | ha
      · exact hlater a ha
      · rcases List.mem_map.mp ha with ⟨t, -, rfl⟩
        have hlt := (hwired.clientAt hc).1
        exact ⟨Nat.lt_of_lt_of_le hlt hbrk, fun hlogged => hrecorded.loggedIn hlt hlogged⟩
  | _ => exact hlater a ha

/-- Every step names clients that are logged in only. -/
theorem named_step {cfg : Config} {lbl : ServerLbl} {s s' : Server} {log : List Acceptance}
    (hs : step cfg lbl s = some s') (hwired : Wired cfg s)
    (hvouched : Vouched (fun type a => type ≠ .AUTHORISE → a.loggedIn = true) s log)
    (hremembered : Remembered s log)
    (h : Named s) : Named s' := by
  apply h.step hs hwired
  intro c hc
  -- a handler that finishes, or a removal
  rcases finish_or_removesOnly hs hwired with
    ⟨w, env, task, rfl, hw, hworld⟩ | ⟨-, ⟨hworld, -⟩ | ⟨d, hworld, -⟩⟩
  · rw [hworld] at hc
    rcases workerRoutine_cases env s.reg s.world task with ⟨-, heq, -⟩ |
      ⟨client, request, hinfo, ⟨-, heq⟩ | ⟨-, heq⟩ | ⟨hrpc, heq, -⟩⟩
    · exact Or.inl (by simpa [heq, World.untouched] using hc)
    · exact Or.inl (by simpa [heq, World.untouched] using hc)
    · exact Or.inl (by simpa [heq, World.untouched] using hc)
    · have hclient : task.client? = some client := by simp [Task.client?, hinfo]
      rw [heq] at hc
      rcases names_runRpc hc with hold | rfl | hin
      · exact Or.inl hold
      · obtain ⟨a, ha, -, rfl, -, hgood⟩ :=
          hvouched task (List.mem_append_right _ (mem_running hw)) c hclient
        rcases hremembered a ha with ⟨hlt, hin⟩
        exact Or.inr ⟨hlt, hin (hgood hrpc.1)⟩
      · -- the client the canvas is shared with is listed
        rcases hwired.base.reg.list with ⟨l, hl, hmem⟩
        rcases (contained_runRpc env client request hl task.type).names c hc with
          hold | ⟨rfl, -⟩ | hlisted
        · exact Or.inl hold
        · exact Or.inr ⟨hwired.base.old.running task (mem_running hw) _ hclient, hin⟩
        · exact Or.inr ⟨((hmem c).mp hlisted).1, hin⟩
  · exact Or.inl (hworld ▸ hc)
  · rw [hworld] at hc
    exact Or.inl ((swept_destroyOwned d s.world).names hc)

theorem named_init (cfg : Config) : Named (init cfg) := by
  intro c hc
  simp [Names, Owns, SharedWith, Live, init, World.init, Table.empty] at hc

/-- While the processes hold back, commands are accepted from logged-in clients only. -/
theorem loggedIn_of_holdsBack {i : Nat} {cmd : CStr} {alloc : Bool} {s : Server} {c : ClientRef}
    {type : TaskType} (hok : HoldsBack (.request i cmd alloc) s) (hc : s.clientAt i = some c)
    (hyes : Enqueues c cmd s) (hleads : LeadsTo cmd type) (ht : type ≠ .AUTHORISE) :
    (s.reg.mem c).loggedIn = true := by
  have hlogin : ¬IsLogin cmd := mt hleads.authorise_iff.mpr ht
  by_contra hin
  rcases hok c hc (Bool.eq_false_iff.mpr hin) with h | h
  · exact hlogin h
  · have hdisc : strncmpEq cmd "Disconnect".toList 10 = true := h
    have hother : ¬strncmpEq cmd "Login ".toList 6 = true := hlogin
    rw [Enqueues, if_neg hother, hdisc] at hyes
    exact Bool.noConfusion hyes.1

/-- What the tables and the log look like while the processes hold back. -/
structure Gated (s : Server) (log : List Acceptance) : Prop where
  vouched : Vouched (fun type a => type ≠ .AUTHORISE → a.loggedIn = true) s log
  remembered : Remembered s log
  named : Named s

/-- So nothing happens for a client that is not logged in, if the clients hold back. -/
theorem reachable_gated {cfg : Config} {p : Server × List Acceptance}
    (h : (((system cfg).under HoldsBack).recording [] accept).Reachable p) : Gated p.1 p.2 := by
  refine h.invariant_with (fun p hr => reachable_wired hr.of_recording.of_under) (fun p hp => ?_)
    (fun lbl p p' hn hwired hi => ?_)
  · rcases p with ⟨s, log⟩
    obtain ⟨rfl, rfl⟩ : s = init cfg ∧ log = [] := hp
    exact ⟨fun t ht => by simp [init, Server.running] at ht, fun a ha => by simp at ha,
      named_init cfg⟩
  · rcases hn with ⟨⟨hok, hs⟩, hlog⟩
    -- HoldsBack keeps the other requests of a client back until it is logged in
    have hgood : ∀ i cmd alloc s c type, HoldsBack (.request i cmd alloc) s →
        s.clientAt i = some c → Enqueues c cmd s → LeadsTo cmd type → type ≠ .AUTHORISE →
        (s.reg.mem c).loggedIn = true :=
      fun _ _ _ _ _ _ hok hc hyes hleads ht => loggedIn_of_holdsBack hok hc hyes hleads ht
    have hvouched := vouched_step hgood hs hok hwired hi.vouched
    rw [hlog]
    exact ⟨hvouched, remembered_step hs hwired hi.remembered,
      named_step hs hwired hi.vouched hi.remembered hi.named⟩

/-! ## Where effects come from -/

/-- The step finishes a task that was accepted from a client with `good`, or removes such a
client. -/
def CausedBy (good : ActiveClient → Prop) (log : List Acceptance) (lbl : ServerLbl)
    (s s' : Server) : Prop :=
  (∃ w env task, lbl = .finish w env ∧ s.workers[w]? = some (some task) ∧
    ∃ a ∈ log, a.task = task ∧ task.client? = some a.client ∧ a.record.dead = false ∧
      good a.record) ∨
  ∃ c, s'.history.removed = c :: s.history.removed ∧ good (s.reg.mem c)

/-- Every effect comes from a task accepted from a client that was there, or from the removal
of a client; and from a logged-in client, in the runs whose processes hold back. -/
theorem effects_accepted {cfg : Config} {p : Server × List Acceptance} {lbl : ServerLbl}
    {s' : Server} (h : ((system cfg).recording [] accept).Reachable p)
    (hs : step cfg lbl p.1 = some s') (hacts : Acts lbl p.1 s') :
    CausedBy (fun _ => True) p.2 lbl p.1 s' ∧
      ((((system cfg).under HoldsBack).recording [] accept).Reachable p →
        CausedBy (fun a => a.loggedIn = true) p.2 lbl p.1 s') := by
  rcases p with ⟨s, log⟩
  have hwired : Wired cfg s := reachable_wired h.of_recording
  rcases finish_or_removesOnly hs hwired with
    ⟨w, env, task, rfl, hw, hworld⟩ | ⟨hne, ⟨hworld, hremoved⟩ | ⟨c, hworld, hremoved⟩⟩
  · rcases isRpc_of_acts hw hworld hacts with ⟨hrpc, client, request, hinfo⟩
    have hclient : task.client? = some client := by simp [Task.client?, hinfo]
    have htask : task ∈ s.queue ++ s.running := List.mem_append_right _ (mem_running hw)
    constructor
    · rw [← LTS.under_true (system cfg)] at h
      have hvouched : Vouched (fun _ _ => True) s log :=
        reachable_vouched (fun _ _ _ _ _ _ _ _ _ _ => trivial) h
      rcases hvouched task htask client hclient with ⟨a, ha, heq, rfl, hlive, -⟩
      exact Or.inl ⟨w, env, task, rfl, hw, a, ha, heq, hclient, hlive, trivial⟩
    · intro hgated
      obtain ⟨a, ha, heq, rfl, hlive, hin⟩ :=
        (reachable_gated hgated).vouched task htask client hclient
      exact Or.inl ⟨w, env, task, rfl, hw, a, ha, heq, hclient, hlive, hin hrpc.1⟩
  · -- nothing has happened
    have heffects : stepEffects lbl s s' = [] := by
      cases lbl with
      | finish w env => exact absurd rfl (hne w env)
      | _ => simp [stepEffects, hremoved]
    exact absurd hacts (by simp [Acts, hworld, heffects])
  · refine ⟨Or.inr ⟨c, hremoved, trivial⟩, fun hgated => Or.inr ⟨c, hremoved, ?_⟩⟩
    by_contra hin
    have hnames : ¬Names s.world c := fun hc => hin ((reachable_gated hgated).named c hc).2
    have heffects : stepEffects lbl s s' = [] := by
      cases lbl with
      | finish w env => exact absurd rfl (hne w env)
      | _ => simp [stepEffects, hremoved, destroyOwned_of_not_names hnames]
    rw [destroyOwned_of_not_names hnames] at hworld
    exact absurd hacts (by simp [Acts, hworld, heffects])

instance (cmd : CStr) : Decidable (IsLogin cmd) :=
  inferInstanceAs (Decidable (strncmpEq cmd "Login ".toList 6 = true))

instance (cmd : CStr) : Decidable (IsDisconnect cmd) :=
  inferInstanceAs (Decidable (strncmpEq cmd "Disconnect".toList 10 = true))

instance (lbl : ServerLbl) (s : Server) : Decidable (HoldsBack lbl s) :=
  match lbl with
  | .request i cmd _ => inferInstanceAs (Decidable (∀ c ∈ s.clientAt i,
      (s.reg.mem c).loggedIn = false → IsLogin cmd ∨ IsDisconnect cmd))
  | .poll _ | .handshake _ _ | .hangup _ | .dequeue _ | .finish _ _ | .deliver _ =>
    inferInstanceAs (Decidable True)

/-- A client asks for a canvas, and a worker takes the task. -/
def canvasTaken : List ServerLbl := [.request 2 "create_canvas 1 1 0".toList true, .dequeue 0]

theorem effects_accepted_canvas :
    ∃ (p : Server × List Acceptance) (s' : Server),
      stepEffects (.finish 0 (Env.allSucceed 7)) p.1 s' = [.createCanvas 1 1 0 (some 7)] ∧
      CausedBy (fun a => a.loggedIn = true) p.2 (.finish 0 (Env.allSucceed 7)) p.1 s' := by
  -- bob logs in, then asks for a canvas, and a worker has the task
  obtain ⟨p, hp, hb⟩ := exists_reachable_of_run (init oneWorker, [])
    (recordStep accept (guarded HoldsBack (step oneWorker)))
    (connection ++
      exchange 2 "Login bob" { Env.allSucceed 7 with usertxt := some "bob 10\n".toList } ++
      canvasTaken)
    (fun p => decide ((step oneWorker (.finish 0 (Env.allSucceed 7)) p.1).isSome ∧
      stepEffects (.finish 0 (Env.allSucceed 7)) p.1 p.1 = [.createCanvas 1 1 0 (some 7)]))
    (by decide)
  rcases of_decide_eq_true hb with ⟨hsome, heffects⟩
  rcases Option.isSome_iff_exists.mp hsome with ⟨s', hs⟩
  rw [← recording_ofStep, ← under_ofStep] at hp
  refine ⟨p, s', heffects, (effects_accepted hp.recording_of_under hs (Or.inr ?_)).2 hp⟩
  rw [show stepEffects (.finish 0 (Env.allSucceed 7)) p.1 s' = _ from heffects]
  exact List.cons_ne_nil _ _

/-- The server does not ask a client to log in before it creates a canvas. -/
theorem canvas_without_login :
    ¬ ∀ (cfg : Config) (p : Server × List Acceptance) (w : Nat) (env : Env) (task : Task)
      (s' : Server), ((system cfg).recording [] accept).Reachable p →
      step cfg (.finish w env) p.1 = some s' → p.1.workers[w]? = some (some task) →
      Acts (.finish w env) p.1 s' → ∃ a ∈ p.2, a.task = task ∧ a.record.loggedIn = true := by
  intro h
  -- the client asks for a canvas and never logs in
  obtain ⟨p, hp, hb⟩ := exists_reachable_of_run (init oneWorker, [])
    (recordStep accept (step oneWorker)) (connection ++ canvasTaken)
    (fun p => decide ((step oneWorker (.finish 0 (Env.allSucceed 7)) p.1).isSome ∧
      stepEffects (.finish 0 (Env.allSucceed 7)) p.1 p.1 ≠ [] ∧
      (p.1.workers[0]?.join).isSome ∧ ∀ a ∈ p.2, a.record.loggedIn = false)) (by decide)
  rcases of_decide_eq_true hb with ⟨hsome, heffects, htask, hout⟩
  rcases Option.isSome_iff_exists.mp hsome with ⟨s', hs⟩
  rcases Option.isSome_iff_exists.mp htask with ⟨task, htask⟩
  rw [← recording_ofStep] at hp
  obtain ⟨a, ha, -, hin⟩ := h oneWorker p 0 (Env.allSucceed 7) task s' hp hs
    (Option.join_eq_some_iff.mp htask) (Or.inr heffects)
  rw [hout a ha] at hin
  cases hin

end AnimateServer.LoginGate
