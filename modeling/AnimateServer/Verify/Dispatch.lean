import AnimateServer.Verify.Accounting

/-!
# The dispatch of requests

`handle_command` compares a request with one prefix after the other, and the comparisons do
not exclude each other in the code. The names do: none of them continues another one. So a
request makes at most one task. The lengths that the comparisons have are those of the names,
and what follows the name fits into the task.
-/

namespace AnimateServer.Dispatch

open CLib Server Registry ServerSteps

/-! ### The names -/

/-- The commands that make a task: the name with the space behind it, and the type. -/
def commands : List (CStr × TaskType) :=
  [("Login ".toList, .AUTHORISE),
    ("create_canvas ".toList, .CREATE_CANVAS), ("destroy_canvas ".toList, .DESTROY_CANVAS),
    ("create_sprite ".toList, .CREATE_SPRITE), ("create_rectangle ".toList, .CREATE_RECTANGLE),
    ("create_circle ".toList, .CREATE_CIRCLE), ("destroy_sprite ".toList, .DESTROY_SPRITE),
    ("place_sprite ".toList, .PLACE_SPRITE), ("placement_up ".toList, .PLACEMENT_UP),
    ("placement_down ".toList, .PLACEMENT_DOWN), ("placement_top ".toList, .PLACEMENT_TOP),
    ("placement_bottom ".toList, .PLACEMENT_BOTTOM),
    ("destroy_placement ".toList, .DESTROY_PLACEMENT),
    ("set_animation_params ".toList, .SET_ANIM_PARAM), ("generate ".toList, .GENERATE),
    ("share_canvas ".toList, .SHARE), ("barrier ".toList, .BARRIER)]

/-- The tests of the code are for these names, `Login` first. -/
theorem commands_eq : commands =
    ("Login ".toList, .AUTHORISE) :: rpcCommands.map fun c => (c.name, c.type) := by decide

theorem mem_commands {e : CStr × TaskType} (he : e ∈ commands) :
    e = ("Login ".toList, .AUTHORISE) ∨ ∃ c ∈ rpcCommands, e = (c.name, c.type) := by
  rw [commands_eq] at he
  rcases List.mem_cons.mp he with rfl | he
  · exact Or.inl rfl
  · rcases List.mem_map.mp he with ⟨c, hc, rfl⟩
    exact Or.inr ⟨c, hc, rfl⟩

theorem rpc_mem_commands {c : RpcCommand} (hc : c ∈ rpcCommands) : (c.name, c.type) ∈ commands := by
  rw [commands_eq]
  exact List.mem_cons_of_mem _ (List.mem_map.mpr ⟨c, hc, rfl⟩)

theorem commands_apart : commands.Pairwise fun e e' => Apart e.1 e'.1 = true := by decide

theorem disconnect_apart : ∀ e ∈ commands, Apart "Disconnect".toList e.1 = true := by decide

/-- No request matches two of them. -/
theorem unique_match {cmd : CStr} {e e' : CStr × TaskType} (he : e ∈ commands)
    (he' : e' ∈ commands) (hm : e.1 <+: cmd) (hm' : e'.1 <+: cmd) : e = e' := by
  have hpw : commands.Pairwise fun e e' => e.1 <+: cmd → e'.1 <+: cmd → e = e' := by
    refine commands_apart.imp ?_
    intro e e' hapart hm hm'
    have hno := not_both_match hapart (strncmpEq_length_iff.mpr hm)
    rw [strncmpEq_length_iff.mpr hm'] at hno
    cases hno
  have hflip := hpw.imp fun h hm hm' => (h hm' hm).symm
  exact hpw.forall_of_forall_of_flip (fun _ _ _ _ => rfl) hflip he he' hm hm'

/-- `Disconnect` is none of them. -/
theorem not_disconnect {cmd : CStr} {e : CStr × TaskType} (he : e ∈ commands)
    (hm : e.1 <+: cmd) : ¬"Disconnect".toList <+: cmd := by
  intro hdisc
  have hno := not_both_match (disconnect_apart e he) (strncmpEq_length_iff.mpr hdisc)
  rw [strncmpEq_length_iff.mpr hm] at hno
  cases hno

/-- `handle_command` comes to `creg_acquire_client` with this entry: a client that is logged
in is not logged in again. -/
def Selects (client : ClientRef) (cmd : CStr) (s : Server) (e : CStr × TaskType) : Prop :=
  e ∈ commands ∧ e.1 <+: cmd ∧ (e.2 = .AUTHORISE → (s.reg.mem client).loggedIn = false)

section Dispatch

variable {client : ClientRef} {cmd : CStr} {s : Server}

theorem touch_eq (client : ClientRef) (s : Server) :
    (s.touch client).queue = s.queue ∧ (s.touch client).reg.mem = s.reg.mem := by
  simp [Server.touch]

/-- A request with a name goes to the enqueue of that name. -/
theorem handleCommand_selects {e : CStr × TaskType} (h : Selects client cmd s e) (alloc : Bool) :
    ∃ s', (s' = s ∨ s' = s.touch client) ∧ s.handleCommand alloc client cmd =
      s'.acquireAndEnqueue alloc e.2 (cmd.drop e.1.length) client := by
  rcases h with ⟨he, hm, hin⟩
  rcases mem_commands he with rfl | ⟨c, hc, rfl⟩
  · -- `Login`
    refine ⟨s.touch client, Or.inr rfl, ?_⟩
    have hlogin : strncmpEq cmd "Login ".toList 6 = true := strncmpEq_length_iff.mpr hm
    have hout : ((s.touch client).reg.mem client).loggedIn = false := by
      rw [(touch_eq client s).2]
      exact hin rfl
    unfold handleCommand
    rw [if_pos hlogin]
    exact if_neg (by simp [hout])
  · refine ⟨s, Or.inl rfl, ?_⟩
    have hlogin : strncmpEq cmd "Login ".toList 6 = false := by
      by_contra hl
      have hprefix : "Login ".toList <+: cmd :=
        strncmpEq_length_iff.mp (by simpa using hl)
      have heq := unique_match he (List.mem_cons_self (l := _)) hm hprefix
      exact (rpcCommands_types c hc).2.1 (congrArg Prod.snd heq)
    have hdisc : strncmpEq cmd "Disconnect".toList 10 = false := by
      by_contra hd
      exact not_disconnect he hm (strncmpEq_length_iff.mp (by simpa using hd))
    unfold handleCommand
    rw [hlogin, hdisc, if_neg Bool.false_ne_true, if_neg Bool.false_ne_true]
    rcases runRpcCommands_cases alloc client cmd s with ⟨hnone, -⟩ | ⟨c', hc', hm', heq⟩
    · have hno := hnone c hc
      rw [(match_iff hc).mpr hm] at hno
      cases hno
    · -- the test that matches is that of the same name
      have hsame := unique_match he (rpc_mem_commands hc') hm ((match_iff hc').mp hm')
      rw [heq, (rpcCommands_counted c' hc').skip]
      rcases Prod.mk.inj hsame with ⟨hname, htype⟩
      rw [hname, htype]

/-- Any other request changes nothing, and `Disconnect` asks for the removal. -/
theorem handleCommand_no_selects (h : ¬∃ e, Selects client cmd s e) (alloc : Bool) :
    ∃ s', (s' = s ∨ s' = s.touch client) ∧ s.handleCommand alloc client cmd =
      (decide ("Disconnect".toList <+: cmd), s') := by
  cases hlogin : strncmpEq cmd "Login ".toList 6 with
  | true =>
    have hprefix : "Login ".toList <+: cmd := strncmpEq_length_iff.mp hlogin
    -- a Login that selects nothing comes from a client that is logged in
    have hin : (s.reg.mem client).loggedIn = true := by
      by_contra hout
      exact h ⟨_, List.mem_cons_self, hprefix, fun _ => by simpa using hout⟩
    refine ⟨s.touch client, Or.inr rfl, ?_⟩
    rw [decide_eq_false (not_disconnect List.mem_cons_self hprefix)]
    unfold handleCommand
    rw [if_pos hlogin]
    exact if_pos (by rw [(touch_eq client s).2, hin])
  | false =>
    refine ⟨s, Or.inl rfl, ?_⟩
    unfold handleCommand
    rw [hlogin, if_neg Bool.false_ne_true]
    cases hdisc : strncmpEq cmd "Disconnect".toList 10 with
    | true => rw [decide_eq_true (strncmpEq_length_iff.mp hdisc), if_pos rfl]
    | false =>
      -- no branch: Disconnect, or one of the RPC commands, or nothing
      have hno : ¬"Disconnect".toList <+: cmd := by
        intro hd
        have htrue : strncmpEq cmd "Disconnect".toList 10 = true := strncmpEq_length_iff.mpr hd
        rw [hdisc] at htrue
        cases htrue
      rw [decide_eq_false hno, if_neg Bool.false_ne_true]
      rcases runRpcCommands_cases alloc client cmd s with ⟨-, heq⟩ | ⟨c, hc, hm, -⟩
      · exact heq
      · exact absurd ⟨_, rpc_mem_commands hc, (match_iff hc).mp hm,
          fun ht => absurd ht (rpcCommands_types c hc).2.1⟩ h

/-- What the enqueue of a command does when `malloc` succeeds. -/
theorem acquireAndEnqueue_dead (hdead : (s.reg.mem client).dead = true) (type : TaskType)
    (request : CStr) : ∃ s', s.acquireAndEnqueue true type request client = (true, s') ∧
      s'.queue = s.queue ∧ s'.reg.mem = s.reg.mem := by
  refine ⟨{ s with reg := s.reg.touch client }, ?_, rfl, by simp⟩
  rw [acquireAndEnqueue, cregAcquireClient_dead hdead]

theorem acquireAndEnqueue_live (hlive : (s.reg.mem client).dead = false) (type : TaskType)
    (request : CStr) : ∃ s', s.acquireAndEnqueue true type request client = (false, s') ∧
      s'.queue = s.queue ++ [newTask s.history.stamp type 0 request client] ∧
      (s'.reg.mem client).refcount = (s.reg.mem client).refcount + 1 := by
  refine ⟨(acquired client s).taskEnqueue true type 0 request client, ?_, rfl, ?_⟩
  · rw [acquireAndEnqueue, cregAcquireClient_live hlive]
    rfl
  · simp [taskEnqueue, acquired, Server.modify]

/-- Selected and dead: no task, no reference, and the client goes. -/
theorem handleCommand_selects_dead {e : CStr × TaskType} (h : Selects client cmd s e)
    (hdead : (s.reg.mem client).dead = true) :
    ∃ s', s.handleCommand true client cmd = (true, s') ∧ s'.queue = s.queue ∧
      s'.reg.mem = s.reg.mem := by
  rcases handleCommand_selects h true with ⟨t, rfl | rfl, heq⟩
  · rw [heq]
    exact acquireAndEnqueue_dead hdead e.2 (cmd.drop e.1.length)
  · rcases touch_eq client s with ⟨hqueue, hmem⟩
    rw [heq, ← hqueue, ← hmem]
    exact acquireAndEnqueue_dead (hmem ▸ hdead) e.2 (cmd.drop e.1.length)

/-- Selected and alive: one task and one reference. -/
theorem handleCommand_selects_live {e : CStr × TaskType} (h : Selects client cmd s e)
    (hlive : (s.reg.mem client).dead = false) :
    ∃ s', s.handleCommand true client cmd = (false, s') ∧
      s'.queue = s.queue ++ [newTask s.history.stamp e.2 0 (cmd.drop e.1.length) client] ∧
      (s'.reg.mem client).refcount = (s.reg.mem client).refcount + 1 := by
  rcases handleCommand_selects h true with ⟨t, rfl | rfl, heq⟩
  · rw [heq]
    exact acquireAndEnqueue_live hlive e.2 (cmd.drop e.1.length)
  · rcases touch_eq client s with ⟨hqueue, hmem⟩
    rw [heq, ← hqueue, ← hmem]
    exact acquireAndEnqueue_live (hmem ▸ hlive) e.2 (cmd.drop e.1.length)

/-- Not selected: nothing is enqueued. -/
theorem handleCommand_selects_none (h : ¬∃ e, Selects client cmd s e) :
    ∃ s', s.handleCommand true client cmd = (decide ("Disconnect".toList <+: cmd), s') ∧
      s'.queue = s.queue ∧ s'.reg.mem = s.reg.mem := by
  rcases handleCommand_no_selects h true with ⟨t, rfl | rfl, heq⟩
  · exact ⟨_, heq, rfl, rfl⟩
  · exact ⟨_, heq, touch_eq client s⟩

/-- The task has room for the arguments of any request that the reader hands over. -/
theorem newTask_info {e : CStr × TaskType} (he : e ∈ commands)
    (hlen : cmd.length ≤ MAX_RPC_BUF_LEN - 1) (stamp : Nat) :
    (newTask stamp e.2 0 (cmd.drop e.1.length) client).type = e.2 ∧
      (newTask stamp e.2 0 (cmd.drop e.1.length) client).info =
        .rpc client (cmd.drop e.1.length) := by
  have hne : e.2 ≠ .HANDSHAKE := by
    rcases mem_commands he with rfl | ⟨c, hc, rfl⟩
    · decide
    · exact (rpcCommands_types c hc).1
  -- the arguments are shorter than the line, which fits
  have hfits : strncpyBuf MAX_RPC_BUF_LEN (cmd.drop e.1.length) = cmd.drop e.1.length := by
    apply List.take_of_length_le
    rw [List.length_drop]
    omega
  have hnew : newTask stamp e.2 0 (cmd.drop e.1.length) client =
      rpcTask stamp e.2 (cmd.drop e.1.length) client := by
    unfold newTask
    split
    · contradiction
    · rfl
  rw [hnew]
  exact ⟨rfl, congrArg (TaskInfo.rpc client) hfits⟩

end Dispatch

/-- `handle_command` enqueues at most one task, exactly for a request with the name of a
command from a client that is not dead (and, for `Login`, not logged in). The task is of the
type of the only name that matches and carries all that follows it, the client gets one
reference for it, and the client is to be removed exactly on `Disconnect` and when no
reference could be acquired. -/
theorem handleCommand_exact (client : ClientRef) (cmd : CStr) (s : Server)
    (hlen : cmd.length ≤ MAX_RPC_BUF_LEN - 1) :
    ∃ tasks : List Task,
      (s.handleCommand true client cmd).2.queue = s.queue ++ tasks ∧
      tasks.length ≤ 1 ∧
      (tasks.length = 1 ↔ (s.reg.mem client).dead = false ∧ ∃ e, Selects client cmd s e) ∧
      (∀ t ∈ tasks, ∃ e ∈ commands, e.1 <+: cmd ∧
        (∀ e' ∈ commands, e'.1 <+: cmd → e' = e) ∧
        t.type = e.2 ∧ t.info = .rpc client (cmd.drop e.1.length)) ∧
      ((s.handleCommand true client cmd).2.reg.mem client).refcount =
        (s.reg.mem client).refcount + tasks.length ∧
      ((s.handleCommand true client cmd).1 = true ↔ "Disconnect".toList <+: cmd ∨
        (s.reg.cregAcquireClient client).1 = .FAIL ∧ ∃ e, Selects client cmd s e) := by
  by_cases hsel : ∃ e, Selects client cmd s e
  · rcases hsel with ⟨e, he⟩
    have hdisc := not_disconnect he.1 he.2.1
    cases hdead : (s.reg.mem client).dead with
    | true =>
      rcases handleCommand_selects_dead he hdead with ⟨s', heq, hqueue, hmem⟩
      rw [heq]
      refine ⟨[], ?_, Nat.zero_le _, ?_, ?_, ?_, ?_⟩
      · rw [hqueue, List.append_nil]
      · simp
      · simp
      · rw [hmem]
        rfl
      · rw [cregAcquireClient_dead hdead]
        exact iff_of_true rfl (Or.inr ⟨rfl, e, he⟩)
    | false =>
      rcases handleCommand_selects_live he hdead with ⟨s', heq, hqueue, href⟩
      rw [heq]
      refine ⟨[newTask s.history.stamp e.2 0 (cmd.drop e.1.length) client], hqueue,
        Nat.le_refl _, ?_, ?_, href, ?_⟩
      · exact iff_of_true rfl ⟨rfl, e, he⟩
      · intro t ht
        obtain rfl := List.mem_singleton.mp ht
        exact ⟨e, he.1, he.2.1, fun e' he' hm' => unique_match he' he.1 hm' he.2.1,
          newTask_info he.1 hlen _⟩
      · refine iff_of_false Bool.false_ne_true ?_
        rintro (hd | ⟨hfail, -⟩)
        · exact hdisc hd
        · rw [cregAcquireClient_live hdead] at hfail
          cases hfail
  · -- neither a task nor a reference
    rcases handleCommand_selects_none hsel with ⟨s', heq, hqueue, hmem⟩
    rw [heq]
    refine ⟨[], ?_, Nat.zero_le _, ?_, ?_, ?_, ?_⟩
    · rw [hqueue, List.append_nil]
    · simp only [hsel, and_false, List.length_nil, Nat.zero_ne_one]
    · simp
    · rw [hmem]
      rfl
    · simp only [hsel, and_false, or_false, decide_eq_true_iff]

/-- One task for a `create_canvas` of a client that has connected. -/
theorem handleCommand_exact_create :
    ∃ s : Server, s.clientAt 2 = some 0 ∧ ∃ tasks : List Task, tasks.length = 1 ∧
      (s.handleCommand true 0 "create_canvas 1 2 3".toList).2.queue = s.queue ++ tasks ∧
      ((s.handleCommand true 0 "create_canvas 1 2 3".toList).2.reg.mem 0).refcount =
        (s.reg.mem 0).refcount + 1 := by
  obtain ⟨s, -, hp⟩ := Transition.exists_reachable_of_run (Server.init Accounting.oneWorker)
    (Server.step Accounting.oneWorker) Accounting.connection
    (fun s => decide (s.clientAt 2 = some 0 ∧ (s.reg.mem 0).dead = false)) (by decide)
  rcases of_decide_eq_true hp with ⟨hclient, hlive⟩
  obtain ⟨tasks, hqueue, -, hone, -, href, -⟩ :=
    handleCommand_exact 0 "create_canvas 1 2 3".toList s (by decide)
  have hsel : Selects 0 "create_canvas 1 2 3".toList s ("create_canvas ".toList, .CREATE_CANVAS) :=
    ⟨by decide, by decide, nofun⟩
  have hlength := hone.mpr ⟨hlive, _, hsel⟩
  exact ⟨s, hclient, tasks, hlength, hqueue, hlength ▸ href⟩

end AnimateServer.Dispatch
