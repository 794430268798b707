import AnimateServer.Verify.Answers
import AnimateServer.Verify.ClientRequests

/-!
# Clients that run the client program

A client sends one `Login`, waits for the answer, and sends commands only if it has been let
in. So the server, among its clients, is in a run in which the processes hold back and no
`Login` overtakes another one; and what a client reads are the answers to its own requests.
-/

namespace AnimateServer.Sessions

open CLib Client Server ServerSteps Descriptors Records InFlight Transition Accounting LoginGate
  LoginIdentity Answers ClientRequests ClientSide Session

/-! ## FIFOs -/

section Fifo

variable {text rest fifo request : CStr}

/-- A call reads a text, and leaves the bytes behind it. -/
theorem readText_of {tail : CStr}
    (h : readUntilDelim MAX_RPC_BUF_LEN '\n' [] (fifo.map .byte) =
      some (.SUCCESS, text, tail.map .byte)) (hfifo : ∃ head, fifo = head ++ tail) :
    readText fifo = some (text, tail) := by
  rcases hfifo with ⟨head, rfl⟩
  unfold readText
  rw [h]
  simp

/-- The reader takes a line up to its newline, whatever is behind it. -/
theorem readText_line (h : Fits text) : readText (text ++ '\n' :: rest) = some (text, rest) := by
  have hread := readUntilDelim_line (rest.map .byte) h.1 h.2
  refine readText_of ?_ ⟨text ++ ['\n'], by simp⟩
  simpa using hread

/-- A text that fills the buffer is taken without a newline. -/
theorem readText_full (hnl : '\n' ∉ text) (hlen : text.length = MAX_RPC_BUF_LEN - 1) :
    readText (text ++ rest) = some (text, rest) := by
  have hread := readUntilDelim_full (rest.map .byte) hnl hlen
  refine readText_of ?_ ⟨text, rfl⟩
  simpa using hread

theorem readText_nil : readText [] = none := by decide

/-- The messages in a FIFO, perhaps behind the newline of one that has filled the reader's
buffer. -/
def Stream (fifo : CStr) (ms : List Message) : Prop :=
  fifo = (ms.map Message.bytes).flatten ∨ fifo = '\n' :: (ms.map Message.bytes).flatten

/-- What a client writes goes to the end of its FIFO. -/
theorem Stream.write {ms : List Message} (h : Stream fifo ms) (m : Message) :
    Stream (fifo ++ m.bytes) (ms ++ [m]) := by
  rcases h with rfl | rfl
  · exact Or.inl (by simp)
  · exact Or.inr (by simp)

/-- The server reads the next text, or an empty one. -/
theorem Stream.read {ms : List Message} (h : Stream fifo ms) (hframed : ∀ m ∈ ms, Framed m)
    (hread : readText fifo = some (request, rest)) :
    (request = [] ∧ Stream rest ms) ∨
      ∃ m ms', ms = m :: ms' ∧ request = m.text ∧ Stream rest ms' := by
  rcases h with rfl | rfl
  · cases ms with
    | nil =>
      rw [List.map_nil, List.flatten_nil, readText_nil] at hread
      cases hread
    | cons m ms =>
      have hm := hframed m List.mem_cons_self
      refine Or.inr ⟨m, ms, rfl, ?_⟩
      rw [List.map_cons, List.flatten_cons] at hread
      rcases hm.bytes with hbytes | ⟨hbytes, hfull⟩
      · rw [hbytes, List.append_assoc] at hread
        rcases Nat.lt_or_eq_of_le hm.length_le with hlt | hfull
        · rw [List.singleton_append, readText_line ⟨hm.newline, hlt⟩] at hread
          obtain ⟨rfl, rfl⟩ := Prod.mk.inj (Option.some.inj hread)
          exact ⟨rfl, Or.inl rfl⟩
        · -- the newline stays
          rw [readText_full hm.newline hfull] at hread
          obtain ⟨rfl, rfl⟩ := Prod.mk.inj (Option.some.inj hread)
          exact ⟨rfl, Or.inr rfl⟩
      · rw [hbytes, readText_full hm.newline hfull] at hread
        obtain ⟨rfl, rfl⟩ := Prod.mk.inj (Option.some.inj hread)
        exact ⟨rfl, Or.inl rfl⟩
  · have hline := @readText_line _ (ms.map Message.bytes).flatten fits_nil
    rw [List.nil_append] at hline
    rw [hline] at hread
    obtain ⟨rfl, rfl⟩ := Prod.mk.inj (Option.some.inj hread)
    exact Or.inl ⟨rfl, Or.inl rfl⟩

end Fifo

/-- What a client has sent is what the server has read, and the messages in the FIFO. -/
structure Outgoing (cl : ClientSide) (ms : List Message) : Prop where
  framed : ∀ m ∈ ms, Framed m
  stream : Stream cl.c2s ms
  sent : cl.sent = cl.served.filter (· ≠ []) ++ ms.map Message.text

/-- What a client has heard and the lines in the FIFO are of results of its own, in order. The
first one answers its `Login`. -/
structure Incoming (s : Server) (c : ClientRef) (cl : ClientSide) (hs ls : List TaskResult) :
    Prop where
  heard : cl.heard = hs.map fun r => textOf r.body
  fifo : cl.s2c = (ls.map fun r => textOf r.body ++ ['\n']).flatten
  answers : (hs ++ ls).Sublist (answersTo c s.history.handled)
  first : ∀ r ∈ hs.head?, resultLogin r.body = some c

/-! ## Logins -/

/-- The name that the server keeps of a `Login`. -/
def loginName (cmd : CStr) : CStr := strncpyBuf MAX_USERNAME_LEN (cmd.drop 6)

/-- The name a task looks up, with the client. -/
def taskName (t : Task) : Option (ClientRef × CStr) :=
  match t.type, t.info with
  | .AUTHORISE, .rpc client request => some (client, strncpyBuf MAX_USERNAME_LEN request)
  | _, _ => none

/-- The name a result writes into the record of the client. -/
def resultName : ResultBody → Option (ClientRef × CStr)
  | .AUTH_OK client username _ => some (client, username)
  | _ => none

/-- The names of the logins that are under way. -/
def names (s : Server) : List (ClientRef × CStr) := inFlight taskName resultName s

section Logins

variable {s s' : Server} {cfg : Config} {lbl : ServerLbl} {c : ClientRef}

/-- The result of a login carries the name of the task, or it is a rejection. -/
theorem resultName_posted {env : Env} {r : ClientRegistry} {w : World} {task : Task}
    {body : ResultBody} (h : (workerRoutine env r w task).2 = .posts body) :
    resultName body = taskName task ∨ resultName body = none := by
  rcases workerRoutine_cases env r w task with ⟨-, -, hs | ⟨pid, c2s, s2c, hp⟩⟩ |
    ⟨client, request, hinfo, ⟨ht, heq⟩ | ⟨-, heq⟩ | ⟨-, -, hu | ⟨rv, hp⟩⟩⟩
  · rw [hs] at h
    cases h
  · rw [hp] at h
    cases h
    exact Or.inr rfl
  · rw [heq] at h
    cases h
    -- only AUTH_OK carries the name on
    unfold authorise
    split
    · exact Or.inl (by simp [resultName, taskName, ht, hinfo])
    · exact Or.inr rfl
    · exact Or.inr rfl
  · rw [heq] at h
    cases h
  · rw [hu] at h
    cases h
  · rw [hp] at h
    cases h
    exact Or.inr rfl

/-- A command is accepted as one task at most. -/
theorem accepted_acquireAndEnqueue (alloc : Bool) (type : TaskType) (request : CStr)
    (c : ClientRef) (s : Server) :
    (s.acquireAndEnqueue alloc type request c).2.history.accepted = s.history.accepted ∨
      (s.acquireAndEnqueue alloc type request c).2.history.accepted =
        s.history.accepted ++ [newTask s.history.stamp type 0 request c] := by
  unfold acquireAndEnqueue
  split
  · exact Or.inl rfl
  · cases alloc
    · exact Or.inl rfl
    · exact Or.inr rfl

/-- A `Login` that is accepted looks up its name. -/
theorem request_login {i : Nat} {cmd : CStr} {alloc : Bool}
    (hs : Server.step cfg (.request i cmd alloc) s = some s') (hlogin : IsLogin cmd)
    (hc : s.clientAt i = some c) :
    s'.history.accepted = s.history.accepted ∨ ∃ stamp, s'.history.accepted =
      s.history.accepted ++ [newTask stamp .AUTHORISE 0 (cmd.drop 6) c] := by
  rcases request_cases hs with ⟨d, hd, rfl⟩
  obtain rfl : c = d := Option.some.inj (hc.symm.trans hd)
  have hlogin' : strncmpEq cmd "Login ".toList 6 = true := hlogin
  -- Login is the first prefix that is compared
  have hcmd : s.handleCommand alloc c cmd =
      if ((s.touch c).reg.mem c).loggedIn then (false, s.touch c)
      else (s.touch c).acquireAndEnqueue alloc .AUTHORISE (cmd.drop 6) c := by
    unfold handleCommand
    rw [if_pos hlogin']
  have hkept : ∀ (removes : Bool) (t : Server),
      (if removes then t.removeAt i c else t).history.accepted = t.history.accepted := by
    intro removes t
    cases removes <;> rfl
  rw [hkept, hcmd]
  split
  · exact Or.inl rfl
  · exact (accepted_acquireAndEnqueue alloc .AUTHORISE _ c _).imp_right fun h => ⟨_, h⟩

/-- An empty line is no `Login`. -/
theorem not_isLogin_nil : ¬ IsLogin [] := by decide

/-- The empty request leads to nothing. -/
theorem ne_nil_of_leadsTo {cmd : CStr} {type : TaskType} (h : LeadsTo cmd type) : cmd ≠ [] := by
  rintro rfl
  rcases h with ⟨hlogin, -⟩ | ⟨-, e, he, hm, -⟩
  · exact not_isLogin_nil hlogin
  · have hnone : ∀ e ∈ rpcCommands, strncmpEq [] e.name e.len = false := by decide
    rw [hnone e he] at hm
    cases hm

/-- The task of a `Login` carries the name that the request gives. -/
theorem taskName_login (stamp : Nat) (cmd : CStr) (c : ClientRef) :
    taskName (newTask stamp .AUTHORISE 0 (cmd.drop 6) c) = some (c, loginName cmd) := by
  have htake : strncpyBuf MAX_USERNAME_LEN (strncpyBuf MAX_RPC_BUF_LEN (cmd.drop 6)) =
      loginName cmd := by
    unfold loginName strncpyBuf MAX_USERNAME_LEN MAX_RPC_BUF_LEN
    rw [List.take_take]
    rfl
  exact congrArg (fun name => some (c, name)) htake

/-- A name under way was under way before, or has just been sent. -/
theorem names_step (hs : Server.step cfg lbl s = some s') (hwired : Wired cfg s) {name : CStr}
    (h : (c, name) ∈ names s') : (c, name) ∈ names s ∨
      (s.reg.mem c).loggedIn = false ∧ ∃ i cmd alloc, lbl = .request i cmd alloc ∧
        s.clientAt i = some c ∧ IsLogin cmd ∧ name = loginName cmd := by
  have hflow : Flow taskName resultName lbl s s' :=
    inFlight_step hs hwired fun _ _ _ _ _ h => resultName_posted h
  -- only an accepted Login brings a new name
  cases hflow with
  | @accepted t hacc _ haccepted _ hperm =>
    rcases List.mem_append.mp (hperm.mem_iff.mp h) with hnew | hold
    · right
      have hname : taskName t = some (c, name) := Option.mem_toList.mp hnew
      cases hacc with
      | handshake pid => cases hname
      | @request _ i cmd d type args hslot hlt hyes hleads =>
        -- no other type carries a name
        have ht : type = .AUTHORISE := by
          by_contra hne
          cases type <;> first | exact hne rfl | cases hname
        subst ht
        have hlogin : IsLogin cmd := hleads.authorise_iff.mp rfl
        rcases request_login hs hlogin hslot with hsame | ⟨stamp, hlast⟩
        · rw [hsame] at haccepted
          exact absurd haccepted (by simp)
        · rw [hlast] at haccepted
          have heq := List.append_cancel_left haccepted
          rw [← List.singleton_inj.mp heq, taskName_login] at hname
          obtain ⟨rfl, rfl⟩ := Prod.mk.inj (Option.some.inj hname)
          have hlogin' : strncmpEq cmd "Login ".toList 6 = true := hlogin
          rw [Enqueues, if_pos hlogin'] at hyes
          exact ⟨hyes, i, cmd, true, rfl, hslot, hlogin, rfl⟩
    · exact Or.inl hold
  | other _ _ hperm => exact Or.inl (hperm.mem_iff.mpr (List.mem_append_right _ h))
  | handled _ _ _ hperm => exact Or.inl (hperm.mem_iff.mpr (List.mem_append_right _ h))

/-- The clients that a login has been decided of. -/
def decided (s : Server) : List ClientRef :=
  s.history.handled.filterMap fun r => resultLogin r.body

/-- Only a `Login` that is accepted adds to the logins of its client. -/
theorem logins_step (hs : Server.step cfg lbl s = some s') (hwired : Wired cfg s) :
    (decided s' ++ logins s').count c ≤ (decided s ++ logins s).count c ∨
      (s.reg.mem c).loggedIn = false ∧
        (decided s' ++ logins s').count c = (decided s ++ logins s).count c + 1 ∧
        ∃ i cmd alloc, lbl = .request i cmd alloc ∧ s.clientAt i = some c ∧ IsLogin cmd := by
  have hflow : Flow taskLogin resultLogin lbl s s' :=
    inFlight_step hs hwired fun _ _ _ _ _ h => Or.inl (resultLogin_posted h)
  -- as long as no result is handled, what counts is what is under way
  have hcount : ∀ {new : List ClientRef}, s'.history.handled = s.history.handled →
      (logins s').Perm (new ++ logins s) →
      (decided s' ++ logins s').count c = (decided s ++ logins s).count c + new.count c := by
    intro new hhandled hperm
    have hp := hperm.count_eq c
    unfold decided
    rw [hhandled]
    simp only [List.count_append] at hp ⊢
    omega
  -- a task is accepted, a result is lost or moves on, or a result is handled
  cases hflow with
  | @accepted t hacc _ _ hhandled hperm =>
    have heq := hcount hhandled hperm
    cases ht : taskLogin t with
    | none =>
      rw [ht] at heq
      exact Or.inl heq.le
    | some d =>
      rw [ht] at heq
      by_cases hd : d = c
      · subst hd
        refine Or.inr ⟨(taskLogin_accepted hacc ht).2, by simpa using heq, ?_⟩
        cases hacc with
        | handshake pid => cases ht
        | @request _ i cmd e type args hslot hlt hyes hleads =>
          rw [taskLogin, type_newTask] at ht
          split at ht
          · rename_i htype
            subst htype
            obtain rfl : e = d := Option.some.inj ht
            exact ⟨i, cmd, true, rfl, hslot, hleads.authorise_iff.mp rfl⟩
          · cases ht
      · left
        have hzero : ((some d).toList : List ClientRef).count c = 0 := by simp [hd]
        omega
  | @other gone _ hhandled hperm =>
    left
    have hp : (logins s).count c = (gone ++ inFlight taskLogin resultLogin s').count c :=
      hperm.count_eq c
    unfold decided logins at *
    rw [hhandled]
    simp only [List.count_append] at hp ⊢
    omega
  | @handled res _ _ hhandled hperm =>
    left
    have hp : (logins s).count c =
        ((resultLogin res.body).toList ++ inFlight taskLogin resultLogin s').count c :=
      hperm.count_eq c
    have hdecided : decided s' = decided s ++ (resultLogin res.body).toList := by
      unfold decided
      rw [hhandled, List.filterMap_append, filterMap_result]
    rw [hdecided]
    unfold logins at *
    simp only [List.count_append] at hp ⊢
    omega

end Logins

/-! ## A client among the others -/

/-- What holds of the client `c` and of what the server knows of it. -/
structure Behaved (s : Server) (c : ClientRef) (cl : ClientSide) : Prop where
  login : ∀ t ∈ cl.sent.head?, IsLogin t
  begins : cl.phase = .authorise → cl.sent = []
  waits : cl.phase = .reply → cl.sent.length = 1
  unheard : cl.phase = .authorise ∨ cl.phase = .reply → cl.heard = [] ∧ cl.receiver = false
  receives : cl.receiver = true → cl.heard ≠ []
  few : cl.sent.length ≤ 1 ∨ LoggedIn s c
  letIn : cl.phase = .requests ∨ cl.receiver = true → LoggedIn s c
  once : (decided s ++ logins s).count c ≤ 1
  undecided : ¬ LoggedIn s c →
    (decided s ++ logins s).count c ≤ (cl.served.filter (· ≠ [])).length
  noCommand : cl.sent.length ≤ 1 →
    c ∉ commands s ∧ ∀ r ∈ s.history.handled, resultCommand r.body ≠ some c
  name : ∀ n, (c, n) ∈ names s → ∃ t ∈ cl.sent.head?, n = loginName t
  username : LoggedIn s c → ∃ t ∈ cl.sent.head?, (s.reg.mem c).username = loginName t

/-- Between `cl` and `cl'` the server has perhaps read a request, and written lines. -/
structure Served (lbl : ServerLbl) (s : Server) (c : ClientRef) (cl cl' : ClientSide) : Prop where
  phase : cl'.phase = cl.phase
  receiver : cl'.receiver = cl.receiver
  sent : cl'.sent = cl.sent
  heard : cl'.heard = cl.heard
  other : (∀ i cmd alloc, lbl = .request i cmd alloc → s.clientAt i ≠ some c) →
    cl'.served = cl.served
  read : ∀ i cmd alloc, lbl = .request i cmd alloc → s.clientAt i = some c →
    cl'.served = cl.served ++ [cmd] ∧ (cmd ≠ [] → cmd ∈ cl.sent)
  bound : (cl'.served.filter (· ≠ [])).length ≤ cl'.sent.length

section Behaved

variable {s s' : Server} {cfg : Config} {lbl : ServerLbl} {c : ClientRef} {cl cl' : ClientSide}

/-- A result that is handled now was under way. -/
theorem mem_inFlight_of_pending {α : Type} {f : Task → Option α} {g : ResultBody → Option α}
    {body : ResultBody} {a : α} (hp : pending lbl s = some body) (ha : g body = some a) :
    a ∈ inFlight f g s := by
  cases lbl with
  | deliver ins =>
    rcases Option.map_eq_some_iff.mp hp with ⟨res, hres, rfl⟩
    exact List.mem_append_right _
      (List.mem_filterMap.mpr ⟨res, List.mem_of_mem_head? hres, ha⟩)
  | _ => cases hp

/-- No `AUTH_OK` of a logged-in client is under way. -/
theorem not_pending_of_loggedIn (hsingle : Single s) (hin : LoggedIn s c) (username : CStr)
    (balance : Int) : pending lbl s ≠ some (.AUTH_OK c username balance) := by
  intro hp
  have hmem : c ∈ logins s := mem_inFlight_of_pending hp rfl
  have hout := hsingle.out c hmem
  rw [hin.2] at hout
  cases hout

/-- The requests that have been served only grow. -/
theorem Served.served_le (h : Served lbl s c cl cl') :
    (cl.served.filter (· ≠ [])).length ≤ (cl'.served.filter (· ≠ [])).length := by
  by_cases hread : ∃ i cmd alloc, lbl = .request i cmd alloc ∧ s.clientAt i = some c
  · rcases hread with ⟨i, cmd, alloc, hlbl, hc⟩
    rw [(h.read i cmd alloc hlbl hc).1, List.filter_append, List.length_append]
    exact Nat.le_add_right _ _
  · rw [h.other fun i cmd alloc hlbl hc => hread ⟨i, cmd, alloc, hlbl, hc⟩]

/-- A client that has sent one message has sent a `Login`. -/
theorem Behaved.isLogin (h : Behaved s c cl) (hlen : cl.sent.length ≤ 1) {cmd : CStr}
    (hcmd : cmd ∈ cl.sent) : cmd ∈ cl.sent.head? ∧ IsLogin cmd := by
  have hhead : cmd ∈ cl.sent.head? := by
    cases hsent : cl.sent with
    | nil =>
      rw [hsent] at hcmd
      cases hcmd
    | cons t ts =>
      rw [hsent] at hcmd hlen
      have hnil : ts = [] := List.eq_nil_of_length_eq_zero (by simpa using hlen)
      rw [hnil] at hcmd
      rw [List.mem_singleton.mp hcmd]
      rfl
  exact ⟨hhead, h.login cmd hhead⟩

/-- Before it is let in, a client has at most one login per request that was served. -/
theorem Behaved.undecided_step (h : Behaved s c cl) (hs : Server.step cfg lbl s = some s')
    (hwired : Wired cfg s) (hserved : Served lbl s c cl cl') (hout : ¬ LoggedIn s c) :
    (decided s' ++ logins s').count c ≤ (cl'.served.filter (· ≠ [])).length := by
  have hold := h.undecided hout
  rcases logins_step (c := c) hs hwired with hle | ⟨-, heq, i, cmd, alloc, hlbl, hc, hlogin⟩
  · exact hle.trans (hold.trans hserved.served_le)
  · have hne : cmd ≠ [] := by
      rintro rfl
      exact not_isLogin_nil hlogin
    rw [(hserved.read i cmd alloc hlbl hc).1, List.filter_append, List.length_append]
    have hone : ([cmd].filter (· ≠ [])).length = 1 := by simp [hne]
    omega

/-- No client has two logins decided or under way. -/
theorem Behaved.once_step (h : Behaved s c cl) (hs : Server.step cfg lbl s = some s')
    (hwired : Wired cfg s) (hserved : Served lbl s c cl cl') :
    (decided s' ++ logins s').count c ≤ 1 := by
  rcases logins_step (c := c) hs hwired with hle | ⟨hout, -⟩
  · exact hle.trans h.once
  · have hno : ¬ LoggedIn s c := fun hin => by
      rw [hin.2] at hout
      cases hout
    have hlen : cl.sent.length ≤ 1 := h.few.resolve_right hno
    have hbound := hserved.bound
    rw [hserved.sent] at hbound
    exact (h.undecided_step hs hwired hserved hno).trans (hbound.trans hlen)

/-- A client that has sent nothing but its `Login` has no command under way. -/
theorem Behaved.noCommand_step (h : Behaved s c cl) (hs : Server.step cfg lbl s = some s')
    (hwired : Wired cfg s) (hserved : Served lbl s c cl cl') (hlen : cl.sent.length ≤ 1) :
    c ∉ commands s' ∧ ∀ r ∈ s'.history.handled, resultCommand r.body ≠ some c := by
  have hflow : Flow taskCommand resultCommand lbl s s' :=
    inFlight_step hs hwired fun _ _ _ _ _ h => Or.inl (resultCommand_posted h)
  rcases h.noCommand hlen with ⟨hno, hanswered⟩
  cases hflow with
  | @accepted t hacc _ _ hhandled hperm =>
    refine ⟨fun hc => ?_, hhandled ▸ hanswered⟩
    rcases List.mem_append.mp (hperm.mem_iff.mp hc) with hnew | hold
    · have hcommand : taskCommand t = some c := Option.mem_toList.mp hnew
      cases hacc with
      | handshake pid => cases hcommand
      | @request _ i cmd d type args hslot hlt hyes hleads =>
        -- the only request so far was a `Login`
        rw [taskCommand, type_newTask] at hcommand
        split at hcommand
        · cases hcommand
        · rename_i htype
          rw [ServerInv.client_newTask, if_neg hleads.ne_handshake] at hcommand
          obtain rfl : d = c := Option.some.inj hcommand
          have hcmd := (hserved.read i cmd true rfl hslot).2 (ne_nil_of_leadsTo hleads)
          exact htype (hleads.authorise_iff.mpr (h.isLogin hlen hcmd).2)
    · exact hno hold
  | other _ hhandled hperm =>
    exact ⟨fun hc => hno (hperm.mem_iff.mpr (List.mem_append_right _ hc)), hhandled ▸ hanswered⟩
  | @handled res _ _ hhandled hperm =>
    refine ⟨fun hc => hno (hperm.mem_iff.mpr (List.mem_append_right _ hc)), fun r hr hc => ?_⟩
    rw [hhandled] at hr
    rcases List.mem_append.mp hr with hr | hr
    · exact hanswered r hr hc
    · rw [List.mem_singleton.mp hr] at hc
      refine hno (hperm.mem_iff.mpr ?_)
      rw [hc]
      exact List.mem_cons_self

/-- The name in a login under way is that of the first message. -/
theorem Behaved.name_step (h : Behaved s c cl) (hs : Server.step cfg lbl s = some s')
    (hwired : Wired cfg s) (hserved : Served lbl s c cl cl') {n : CStr} (hn : (c, n) ∈ names s') :
    ∃ t ∈ cl.sent.head?, n = loginName t := by
  rcases names_step hs hwired hn with hold | ⟨hout, i, cmd, alloc, hlbl, hc, hlogin, rfl⟩
  · exact h.name n hold
  · have hno : ¬ LoggedIn s c := fun hin => by
      rw [hin.2] at hout
      cases hout
    have hne : cmd ≠ [] := by
      rintro rfl
      exact not_isLogin_nil hlogin
    have hcmd := (hserved.read i cmd alloc hlbl hc).2 hne
    exact ⟨cmd, (h.isLogin (h.few.resolve_right hno) hcmd).1, rfl⟩

/-- A client is let in under the name of its first message. -/
theorem Behaved.username_step (h : Behaved s c cl) (hs : Server.step cfg lbl s = some s')
    (hwired : Wired cfg s) (hsingle : Single s) (hin : LoggedIn s' c) :
    ∃ t ∈ cl.sent.head?, (s'.reg.mem c).username = loginName t := by
  rcases loggedIn_cases hs hwired hin with hold | ⟨username, balance, hpending, heq⟩
  · rw [Answers.username_step hs hwired hold.1 (not_pending_of_loggedIn hsingle hold)]
    exact h.username hold
  · rcases h.name username (mem_inFlight_of_pending hpending rfl) with ⟨t, ht, rfl⟩
    refine ⟨t, ht, heq.trans ?_⟩
    unfold loginName strncpyBuf
    rw [List.take_take, min_self]

/-- A step of the server keeps what is known of a client that behaves. -/
theorem Behaved.server (h : Behaved s c cl) (hs : Server.step cfg lbl s = some s')
    (hwired : Wired cfg s) (hsingle : Single s) (hserved : Served lbl s c cl cl') :
    Behaved s' c cl' where
  -- the client itself has not moved; only the served requests may have grown
  login := hserved.sent ▸ h.login
  begins := by
    rw [hserved.phase, hserved.sent]
    exact h.begins
  waits := by
    rw [hserved.phase, hserved.sent]
    exact h.waits
  unheard := by
    rw [hserved.phase, hserved.heard, hserved.receiver]
    exact h.unheard
  receives := by
    rw [hserved.heard, hserved.receiver]
    exact h.receives
  few := by
    rw [hserved.sent]
    exact h.few.imp_right fun hin => hin.step hs hwired
  letIn := by
    rw [hserved.phase, hserved.receiver]
    exact fun hp => (h.letIn hp).step hs hwired
  once := h.once_step hs hwired hserved
  undecided := fun hout =>
    h.undecided_step hs hwired hserved fun hin => hout (hin.step hs hwired)
  noCommand := by
    rw [hserved.sent]
    exact h.noCommand_step hs hwired hserved
  name := by
    rw [hserved.sent]
    exact fun n hn => h.name_step hs hwired hserved hn
  username := by
    rw [hserved.sent]
    exact h.username_step hs hwired hsingle

end Behaved

/-- All that holds of a client. -/
structure Known (s : Server) (c : ClientRef) (cl : ClientSide) : Prop where
  outgoing : ∃ ms, Outgoing cl ms
  incoming : ∃ hs ls, Incoming s c cl hs ls
  behaved : Behaved s c cl

/-! ### Steps of the server -/

section ServerSteps

variable {s s' : Server} {cfg : Config} {lbl : ServerLbl} {c : ClientRef} {cl cl' : ClientSide}
  {room : Bool} {σ σ' : Session}

/-- The server has read no more requests than have been sent. -/
theorem Outgoing.bound {ms : List Message} (h : Outgoing cl ms) :
    (cl.served.filter (· ≠ [])).length ≤ cl.sent.length := by
  rw [h.sent, List.length_append]
  exact Nat.le_add_right _ _

/-- The server reads a request. -/
theorem Outgoing.read {ms : List Message} (h : Outgoing cl ms) {request rest : CStr}
    (hread : readText cl.c2s = some (request, rest)) :
    (request ≠ [] → request ∈ cl.sent) ∧
      ∃ ms', Outgoing { cl with c2s := rest, served := cl.served ++ [request] } ms' := by
  rcases h.stream.read h.framed hread with ⟨rfl, hrest⟩ | ⟨m, ms', rfl, rfl, hrest⟩
  · exact ⟨fun hne => absurd rfl hne, ms, h.framed, hrest, by simpa using h.sent⟩
  · have hne := (h.framed m List.mem_cons_self).text_ne
    refine ⟨fun _ => ?_, ms', fun m' hm' => h.framed m' (List.mem_cons_of_mem _ hm'), hrest, ?_⟩
    · rw [h.sent]
      exact List.mem_append_right _ List.mem_cons_self
    · rw [h.sent]
      simp [hne]

/-- More results do not matter to what is in the FIFO. -/
theorem Incoming.mono {hs ls rs : List TaskResult} (h : Incoming s c cl hs ls)
    (hhandled : s'.history.handled = s.history.handled ++ rs) (hheard : cl'.heard = cl.heard)
    (hfifo : cl'.s2c = cl.s2c) : Incoming s' c cl' hs ls where
  heard := hheard.trans h.heard
  fifo := hfifo.trans h.fifo
  answers := by
    rw [hhandled, answersTo_append]
    exact h.answers.trans (List.sublist_append_left _ _)
  first := h.first

/-- The lines of the results that are handled go into the FIFO, or are lost. -/
theorem Incoming.answer {clients : ClientRef → ClientSide} {hs ls : List TaskResult}
    (h : Incoming s c (clients c) hs ls) (hs' : Server.step cfg lbl s = some s')
    (hwired : Wired cfg s) :
    ∃ ls', Incoming s' c (Session.answer room s s' clients c) hs ls' := by
  rcases sent_step hs' hwired with ⟨rs, hhandled, hsent, -⟩
  unfold Session.answer
  split
  swap
  · exact ⟨ls, h.mono hhandled rfl rfl⟩
  · refine ⟨ls ++ answersTo c rs, h.heard, ?_, ?_, h.first⟩
    · show (clients c).s2c ++ ((linesTo c s').drop (linesTo c s).length).flatten = _
      rw [linesTo_append hsent, List.drop_left, h.fifo, List.map_append, List.flatten_append]
    · rw [hhandled, answersTo_append, ← List.append_assoc]
      exact h.answers.append (List.Sublist.refl _)

/-- What a step of the server does to the clients. -/
theorem serverStep_cases (h : σ.serverStep cfg lbl room = some σ') :
    Server.step cfg lbl σ.server = some σ'.server ∧
      ((∃ i cmd alloc c rest, lbl = .request i cmd alloc ∧ σ.server.clientAt i = some c ∧
          readText (σ.clients c).c2s = some (cmd, rest) ∧
          σ'.clients = Function.update σ.clients c { σ.clients c with
            c2s := rest
            served := (σ.clients c).served ++ [cmd] }) ∨
        ((∀ i cmd alloc, lbl ≠ .request i cmd alloc) ∧ Typed lbl σ.server = true ∧
          σ'.clients = Session.answer room σ.server σ'.server σ.clients)) := by
  -- every step but a request leaves the FIFOs to the clients alone
  have hother :
      (if Typed lbl σ.server then
        (Server.step cfg lbl σ.server).map fun s =>
          (⟨s, Session.answer room σ.server s σ.clients⟩ : Session)
      else none) = some σ' →
      Server.step cfg lbl σ.server = some σ'.server ∧ Typed lbl σ.server = true ∧
        σ'.clients = Session.answer room σ.server σ'.server σ.clients := by
    intro heq
    rcases Option.ite_none_right_eq_some.mp heq with ⟨htyped, heq⟩
    rcases Option.map_eq_some_iff.mp heq with ⟨s', hs', rfl⟩
    exact ⟨hs', htyped, rfl⟩
  cases lbl with
  | request i cmd alloc =>
    simp only [serverStep] at h
    split at h
    · cases h
    · rename_i c hc
      split at h
      · cases h
      · rename_i request rest hread
        rcases Option.ite_none_right_eq_some.mp h with ⟨rfl, h⟩
        rcases Option.map_eq_some_iff.mp h with ⟨s', hs', rfl⟩
        exact ⟨hs', Or.inl ⟨i, _, alloc, c, rest, rfl, hc, hread, rfl⟩⟩
  | _ =>
    rcases hother h with ⟨hs', htyped, hclients⟩
    exact ⟨hs', Or.inr ⟨nofun, htyped, hclients⟩⟩

/-- A step of the server keeps what holds of a client. -/
theorem Known.server (h : ∀ c, Known σ.server c (σ.clients c))
    (hs : σ.serverStep cfg lbl room = some σ') (hwired : Wired cfg σ.server)
    (hsingle : Single σ.server) (c : ClientRef) : Known σ'.server c (σ'.clients c) := by
  rcases h c with ⟨⟨ms, hout⟩, ⟨hsd, ls, hin⟩, hbehaved⟩
  rcases serverStep_cases hs with
    ⟨hs', ⟨i, cmd, alloc, d, rest, rfl, hd, hread, hclients⟩ | ⟨hno, -, hclients⟩⟩
  · rcases sent_step hs' hwired with ⟨rs, hhandled, -, -⟩
    rw [hclients]
    by_cases hdc : c = d
    · subst hdc
      rw [Function.update_self]
      rcases hout.read hread with ⟨hmem, ms', hout'⟩
      refine ⟨⟨ms', hout'⟩, ⟨hsd, ls, hin.mono hhandled rfl rfl⟩,
        hbehaved.server hs' hwired hsingle ⟨rfl, rfl, rfl, rfl, fun hno => ?_, ?_, hout'.bound⟩⟩
      · exact absurd hd (hno i cmd alloc rfl)
      · rintro _ _ _ ⟨⟩ _
        exact ⟨rfl, hmem⟩
    · -- another client has sent the request
      rw [Function.update_of_ne hdc]
      refine ⟨⟨ms, hout⟩, ⟨hsd, ls, hin.mono hhandled rfl rfl⟩,
        hbehaved.server hs' hwired hsingle ⟨rfl, rfl, rfl, rfl, fun _ => rfl, ?_, hout.bound⟩⟩
      rintro _ _ _ ⟨⟩ hc
      exact absurd (Option.some.inj (hc.symm.trans hd)) hdc
  · -- no request: what the clients have sent is untouched, and an answer may have been written
    rw [hclients]
    have hsame : (Session.answer room σ.server σ'.server σ.clients c).phase = (σ.clients c).phase ∧
        (Session.answer room σ.server σ'.server σ.clients c).receiver =
          (σ.clients c).receiver ∧
        (Session.answer room σ.server σ'.server σ.clients c).c2s = (σ.clients c).c2s ∧
        (Session.answer room σ.server σ'.server σ.clients c).sent = (σ.clients c).sent ∧
        (Session.answer room σ.server σ'.server σ.clients c).heard = (σ.clients c).heard ∧
        (Session.answer room σ.server σ'.server σ.clients c).served = (σ.clients c).served := by
      unfold Session.answer
      split <;> exact ⟨rfl, rfl, rfl, rfl, rfl, rfl⟩
    rcases hsame with ⟨hphase, hreceiver, hc2s, hsent, hheard, hserved⟩
    have hout' : Outgoing (Session.answer room σ.server σ'.server σ.clients c) ms :=
      ⟨hout.framed, hc2s ▸ hout.stream, by rw [hsent, hserved]; exact hout.sent⟩
    rcases hin.answer hs' hwired with ⟨ls', hin'⟩
    refine ⟨⟨ms, hout'⟩, ⟨hsd, ls', hin'⟩, hbehaved.server hs' hwired hsingle
      ⟨hphase, hreceiver, hsent, hheard, fun _ => hserved, fun i cmd alloc hlbl => ?_,
        hout'.bound⟩⟩
    exact absurd hlbl (hno i cmd alloc)

/-- The empty request is ignored. -/
theorem request_nil {i : Nat} {alloc : Bool}
    (hs : Server.step cfg (.request i [] alloc) s = some s') : s' = s := by
  have hreq : s.request i [] alloc = some s' := hs
  rcases request_cases hreq with ⟨c, -, heq⟩
  have hcmd : s.handleCommand alloc c [] = (false, s) := rfl
  rw [hcmd] at heq
  exact heq

/-- Clients that behave are courteous. -/
theorem Known.courteous (h : ∀ c, Known σ.server c (σ.clients c))
    (hs : σ.serverStep cfg lbl room = some σ') :
    Courteous lbl σ.server ∨ σ'.server = σ.server := by
  rcases serverStep_cases hs with
    ⟨hs', ⟨i, cmd, alloc, c, rest, rfl, hc, hread, -⟩ | ⟨hno, htyped, -⟩⟩
  · by_cases hne : cmd = []
    · subst hne
      exact Or.inr (request_nil hs')
    · refine Or.inl ⟨⟨?_, trivial⟩, rfl⟩
      intro d hd hout
      obtain rfl : c = d := Option.some.inj (hc.symm.trans hd)
      rcases h c with ⟨⟨ms, houtgoing⟩, -, hbehaved⟩
      -- a client that is not logged in has sent its first line at most
      have hlen : (σ.clients c).sent.length ≤ 1 := by
        refine hbehaved.few.resolve_right fun hin => ?_
        rw [hin.2] at hout
        cases hout
      exact Or.inl (hbehaved.isLogin hlen ((houtgoing.read hread).1 hne)).2
  · refine Or.inl ⟨⟨?_, ?_⟩, htyped⟩
    · cases lbl with
      | request i cmd alloc => exact absurd rfl (hno i cmd alloc)
      | _ => trivial
    · cases lbl with
      | deliver ins =>
        intro res hres c hauth
        have hmem : c ∈ logins σ.server :=
          List.mem_append_right _ (List.mem_filterMap.mpr
            ⟨res, List.mem_of_mem_head? hres, resultLogin_of_authOk hauth⟩)
        -- the Login counted here is the only one, so its client is not logged in yet
        have hpos := List.count_pos_iff.mpr hmem
        have honce := (h c).behaved.once
        rw [List.count_append] at honce
        omega
      | _ => trivial

end ServerSteps

/-! ### Steps of a client -/

section ClientSteps

variable {s : Server} {c : ClientRef} {cl cl' : ClientSide}

/-- A client that writes a message has one more on the way. -/
theorem Outgoing.write {ms : List Message} (h : Outgoing cl ms) {m : Message} (hm : Framed m) :
    Outgoing (cl.write m) (ms ++ [m]) where
  framed := by
    intro m' hm'
    rcases List.mem_append.mp hm' with hold | hnew
    · exact h.framed m' hold
    · rw [List.mem_singleton.mp hnew]
      exact hm
  stream := h.stream.write m
  sent := by
    show cl.sent ++ [m.text] = cl.served.filter (· ≠ []) ++ _
    rw [h.sent, List.map_append, List.append_assoc]
    rfl

/-- What `authorise` writes is a `Login`. -/
theorem isLogin_authoriseLine {input : CStr} {m : Message} (h : authoriseLine input = some m) :
    IsLogin m.text := by
  have hall : Client.authorise [input] = some (m, []) := by
    unfold Client.authorise
    rw [h]
  exact isLogin_of_authorise hall

/-- The first message of a client is its `Login`. -/
theorem Known.authorise (h : Known s c cl) {input : CStr}
    (hs : clientStep cl (.authorise c input) = some cl') : Known s c cl' := by
  rcases Option.ite_none_right_eq_some.mp hs with ⟨⟨hphase, hlen⟩, hs⟩
  split at hs
  · rename_i m hm
    obtain rfl := Option.some.inj hs
    rcases h with ⟨⟨ms, hout⟩, ⟨hsd, ls, hin⟩, hb⟩
    have hsent : cl.sent = [] := hb.begins hphase
    have hwrite := hout.write (framed_authoriseLine hlen hm)
    refine ⟨⟨ms ++ [m], hwrite.framed, hwrite.stream, hwrite.sent⟩,
      ⟨hsd, ls, hin.heard, hin.fifo, hin.answers, hin.first⟩, ?_⟩
    have hone : (cl.sent ++ [m.text]).length ≤ 1 := by rw [hsent]; exact le_refl _
    -- nothing is known of a name that has not been sent
    have hnone : ∀ t, t ∉ cl.sent.head? := by
      intro t ht
      rw [hsent] at ht
      cases ht
    exact {
      login := fun t ht => by
        have ht' : t ∈ (cl.sent ++ [m.text]).head? := ht
        rw [hsent] at ht'
        obtain rfl := Option.some.inj ht'
        exact isLogin_authoriseLine hm
      begins := fun hp => by cases hp
      waits := fun _ => by
        show (cl.sent ++ [m.text]).length = 1
        rw [hsent]
        rfl
      unheard := fun _ => hb.unheard (Or.inl hphase)
      receives := hb.receives
      few := Or.inl hone
      letIn := fun hp => hb.letIn (hp.imp_left fun hp => by cases hp)
      once := hb.once
      undecided := hb.undecided
      noCommand := fun _ => hb.noCommand (by rw [hsent]; exact Nat.zero_le 1)
      name := fun n hn => by
        rcases hb.name n hn with ⟨t, ht, -⟩
        exact absurd ht (hnone t)
      username := fun hl => by
        rcases hb.username hl with ⟨t, ht, -⟩
        exact absurd ht (hnone t) }
  · obtain rfl := Option.some.inj hs
    exact h

/-- The client reads the next line. -/
theorem Incoming.read {hs ls : List TaskResult} (h : Incoming s c cl hs ls)
    (hsend : SendableAll s) {text rest : CStr} (hread : readText cl.s2c = some (text, rest)) :
    ∃ r ls', ls = r :: ls' ∧ text = textOf r.body ∧ r ∈ answersTo c s.history.handled ∧
      rest = (ls'.map fun r => textOf r.body ++ ['\n']).flatten := by
  rw [h.fifo] at hread
  cases ls with
  | nil =>
    rw [List.map_nil, List.flatten_nil, readText_nil] at hread
    cases hread
  | cons r ls =>
    -- the line read is the answer of the first result that waits
    have hmem : r ∈ answersTo c s.history.handled :=
      h.answers.subset (List.mem_append_right _ List.mem_cons_self)
    have hfits : Fits (textOf r.body) :=
      fits_textOf (hsend r (List.mem_append_left _ (List.mem_filter.mp hmem).1))
    rw [List.map_cons, List.flatten_cons, List.append_assoc, List.singleton_append,
      readText_line hfits] at hread
    obtain ⟨rfl, rfl⟩ := Prod.mk.inj (Option.some.inj hread)
    exact ⟨r, ls, rfl, rfl, hmem, rfl⟩

/-- A result of a client answers a login or a command of it. -/
theorem resultLogin_or_resultCommand {r : TaskResult} (h : r.client? = some c) :
    resultLogin r.body = some c ∨ resultCommand r.body = some c := by
  rcases r with ⟨stamp, body⟩
  cases body with
  | HSK_OK pid c2s s2c => cases h
  | RPC_DONE client rv => exact Or.inr h
  | _ => exact Or.inl h

/-- The client is let in by an `AUTH_OK`. -/
theorem loggedIn_text {r : TaskResult} (hlogin : resultLogin r.body = some c)
    (h : Client.loggedIn (some (textOf r.body)) = true) : c ∈ authOk r.body := by
  rcases r with ⟨stamp, body⟩
  cases body with
  | HSK_OK pid c2s s2c => cases hlogin
  | RPC_DONE client rv => cases hlogin
  | AUTH_OK client username balance =>
    obtain rfl : client = c := Option.some.inj hlogin
    rfl
  | AUTH_NO client =>
    have hreject : Client.loggedIn (some "Reject BALANCE".toList) = true := h
    exact absurd hreject (by decide)
  | AUTH_UN client =>
    have hreject : Client.loggedIn (some "Reject UNAUTHORISED".toList) = true := h
    exact absurd hreject (by decide)

/-- A client that reads `AUTH_OK` has been let in before. -/
theorem Known.reply (h : Known s c cl) (hsend : SendableAll s) (hsingle : Single s)
    (hs : clientStep cl (.reply c) = some cl') : Known s c cl' := by
  simp only [clientStep] at hs
  split at hs
  · rename_i text rest hphase hread
    obtain rfl := Option.some.inj hs
    rcases h with ⟨⟨ms, hout⟩, ⟨hsd, ls, hin⟩, hb⟩
    rcases hin.read hsend hread with ⟨r, ls', rfl, rfl, hmem, rfl⟩
    rcases List.mem_filter.mp hmem with ⟨hhandled, hclient⟩
    have hclient : r.client? = some c := of_decide_eq_true hclient
    rcases hb.unheard (Or.inr hphase) with ⟨hnil, -⟩
    have hsd : hsd = [] := by
      have hheard := hin.heard
      rw [hnil] at hheard
      exact List.map_eq_nil_iff.mp hheard.symm
    subst hsd
    have hone : cl.sent.length ≤ 1 := (hb.waits hphase).le
    -- the only request so far is the `Login`
    have hlogin : resultLogin r.body = some c :=
      (resultLogin_or_resultCommand hclient).resolve_right ((hb.noCommand hone).2 r hhandled)
    have hletIn : Client.loggedIn (some (textOf r.body)) = true → LoggedIn s c := fun hl =>
      hsingle.applied r hhandled c (loggedIn_text hlogin hl)
    refine ⟨⟨ms, hout.framed, hout.stream, hout.sent⟩, ⟨[r], ls', ?_, rfl, hin.answers, ?_⟩, ?_⟩
    · show cl.heard ++ [textOf r.body] = _
      rw [hnil]
      rfl
    · rintro r' ⟨⟩
      exact hlogin
    · exact { hb with
        begins := fun hp => by
          dsimp only at hp
          split at hp <;> cases hp
        waits := fun hp => by
          dsimp only at hp
          split at hp <;> cases hp
        unheard := fun hp => by
          dsimp only at hp
          split at hp <;> rcases hp with hp | hp <;> cases hp
        receives := fun _ => by simp
        letIn := fun hp => by
          dsimp only at hp
          by_cases hl : Client.loggedIn (some (textOf r.body)) = true
          · exact hletIn hl
          · rw [if_neg hl] at hp
            rcases hp with hp | hp
            · cases hp
            · exact absurd hp hl }
  · cases hs

/-- What the receiver reads answers a command of the client. -/
theorem Known.receive (h : Known s c cl) (hsend : SendableAll s)
    (hs : clientStep cl (.receive c) = some cl') : Known s c cl' := by
  simp only [clientStep] at hs
  split at hs
  · rename_i text rest hreceiver hread
    obtain rfl := Option.some.inj hs
    rcases h with ⟨⟨ms, hout⟩, ⟨hsd, ls, hin⟩, hb⟩
    rcases hin.read hsend hread with ⟨r, ls', rfl, rfl, -, rfl⟩
    refine ⟨⟨ms, hout.framed, hout.stream, hout.sent⟩, ⟨hsd ++ [r], ls', ?_, rfl, ?_, ?_⟩, ?_⟩
    · show cl.heard ++ [textOf r.body] = _
      rw [hin.heard, List.map_append]
      rfl
    · rw [List.append_assoc]
      exact hin.answers
    · -- it is not the first line
      intro r' hr'
      apply hin.first r'
      cases hsd with
      | nil => exact absurd hin.heard (hb.receives hreceiver)
      | cons r₀ hsd => exact hr'
    · exact { hb with
        unheard := fun hp => absurd hreceiver (by rw [(hb.unheard hp).2]; exact Bool.noConfusion)
        receives := fun _ => by simp
        letIn := fun _ => hb.letIn (Or.inr hreceiver) }
  · cases hs

/-- When the receiver ends, nothing more is heard. -/
theorem Known.receiverEnds (h : Known s c cl)
    (hs : clientStep cl (.receiverEnds c) = some cl') : Known s c cl' := by
  rcases Option.ite_none_right_eq_some.mp hs with ⟨hreceiver, hs⟩
  obtain rfl := Option.some.inj hs
  rcases h with ⟨⟨ms, hout⟩, ⟨hsd, ls, hin⟩, hb⟩
  refine ⟨⟨ms, hout.framed, hout.stream, hout.sent⟩,
    ⟨hsd, ls, hin.heard, hin.fifo, hin.answers, hin.first⟩, ?_⟩
  exact { hb with
    unheard := fun hp => ⟨(hb.unheard hp).1, rfl⟩
    receives := fun hp => by cases hp
    letIn := fun _ => hb.letIn (Or.inr hreceiver) }

/-- A client that leaves its session is known as before. -/
theorem Known.leave (h : Known s c cl) : Known s c { cl with phase := .teardown } := by
  rcases h with ⟨⟨ms, hout⟩, ⟨hsd, ls, hin⟩, hb⟩
  refine ⟨⟨ms, hout.framed, hout.stream, hout.sent⟩,
    ⟨hsd, ls, hin.heard, hin.fifo, hin.answers, hin.first⟩, ?_⟩
  exact { hb with
    begins := fun hp => by cases hp
    waits := fun hp => by cases hp
    unheard := fun hp => by rcases hp with hp | hp <;> cases hp
    letIn := fun hp => hb.letIn (Or.inr (hp.resolve_left nofun)) }

theorem Known.close (h : Known s c cl) (hs : clientStep cl (.close c) = some cl') :
    Known s c cl' := by
  rcases Option.ite_none_right_eq_some.mp hs with ⟨-, hs⟩
  obtain rfl := Option.some.inj hs
  rcases h with ⟨⟨ms, hout⟩, ⟨hsd, ls, hin⟩, hb⟩
  exact ⟨⟨ms, hout.framed, hout.stream, hout.sent⟩,
    ⟨hsd, ls, hin.heard, hin.fifo, hin.answers, hin.first⟩, { hb with }⟩

/-- A client that is logged in sends a request. -/
theorem Known.write (h : Known s c cl) (hphase : cl.phase = .requests) {m : Message}
    (hm : Framed m) : Known s c (cl.write m) := by
  rcases h with ⟨⟨ms, hout⟩, ⟨hsd, ls, hin⟩, hb⟩
  have hlogged := hb.letIn (Or.inl hphase)
  rcases hb.username hlogged with ⟨t, ht, -⟩
  -- the Login stays the first line that was sent
  have hhead : (cl.sent ++ [m.text]).head? = cl.sent.head? := by
    rw [List.head?_append, Option.mem_def.mp ht]
    rfl
  have htwo : 1 < (cl.sent ++ [m.text]).length := by
    have hpos : cl.sent ≠ [] := by
      rintro hnil
      rw [hnil] at ht
      cases ht
    have hlen := List.length_pos_iff.mpr hpos
    rw [List.length_append, List.length_singleton]
    omega
  refine ⟨⟨ms ++ [m], hout.write hm⟩,
    ⟨hsd, ls, hin.heard, hin.fifo, hin.answers, hin.first⟩, ?_⟩
  exact { hb with
    login := fun t ht => hb.login t (hhead ▸ ht)
    begins := fun hp => absurd (hphase.symm.trans hp) nofun
    waits := fun hp => absurd (hphase.symm.trans hp) nofun
    few := Or.inr hlogged
    noCommand := fun hlen => absurd hlen (Nat.not_le_of_lt htwo)
    name := fun n hn => hhead ▸ hb.name n hn
    username := fun hl => hhead ▸ hb.username hl }

/-- A line of input becomes one message, or ends the session. -/
theorem Known.input (h : Known s c cl) {line : Option CStr}
    (hs : clientStep cl (.input c line) = some cl') : Known s c cl' := by
  rcases Option.ite_none_right_eq_some.mp hs with ⟨⟨hphase, hlen⟩, hs⟩
  -- a line that makes no message leaves the client as it was
  have hmessage : Known s c (cl.writeSome (sendUserInput line).2) := by
    cases hm : (sendUserInput line).2 with
    | none => exact h
    | some m =>
      cases line with
      | none => cases hm
      | some line => exact h.write hphase (framed_sendUserInput (hlen line rfl) m hm)
  have heq : (if (sendUserInput line).1 = 1 then cl.writeSome (sendUserInput line).2
      else { cl.writeSome (sendUserInput line).2 with phase := .teardown }) = cl' :=
    Option.some.inj hs
  rw [← heq]
  split
  · exact hmessage
  · exact hmessage.leave

/-- Each of the client's own steps. -/
theorem Known.client (h : Known s c cl) (hsend : SendableAll s) (hsingle : Single s)
    {lbl : SessionLbl} (hactor : actor lbl = some c) (hs : clientStep cl lbl = some cl') :
    Known s c cl' := by
  cases lbl with
  | server lbl room => cases hactor
  | authorise d input => exact h.authorise hs
  | reply d => exact h.reply hsend hsingle hs
  | input d line => exact h.input hs
  | receive d => exact h.receive hsend hs
  | receiverEnds d => exact h.receiverEnds hs
  | leave d =>
    obtain rfl := Option.some.inj hs
    exact h.leave
  | close d => exact h.close hs

end ClientSteps

/-! ### Runs -/

section Runs

variable {cfg : Config} {σ σ' : Session} {c : ClientRef}

/-- A client that has not begun has sent and heard nothing. -/
theorem known_init (cfg : Config) (c : ClientRef) :
    Known (Server.init cfg) c ClientSide.init where
  outgoing := ⟨[], nofun, Or.inl rfl, rfl⟩
  incoming := ⟨[], [], rfl, rfl, List.nil_sublist _, nofun⟩
  -- nothing sent, nothing heard, and no task of this client anywhere
  behaved := {
    login := fun t ht => by cases ht
    begins := fun _ => rfl
    waits := fun hp => by cases hp
    unheard := fun _ => ⟨rfl, rfl⟩
    receives := fun hp => by cases hp
    few := Or.inl (Nat.zero_le 1)
    letIn := fun hp => by rcases hp with hp | hp <;> cases hp
    once := by simp [decided, logins, inFlight, Server.init, Server.running]
    undecided := fun _ => by simp [decided, logins, inFlight, Server.init, Server.running]
    noCommand := fun _ => ⟨by simp [commands, inFlight, Server.init, Server.running], nofun⟩
    name := fun n hn => by simp [names, inFlight, Server.init, Server.running] at hn
    username := fun hl => absurd hl.1 (Nat.not_lt_zero c) }

/-- The runs of the server in which the clients are courteous. -/
abbrev courteous (cfg : Config) : LTS Server ServerLbl := (Server.system cfg).under Courteous

/-- In the runs at hand all results can be sent. -/
theorem sendableAll_of_courteous {s : Server} (h : (courteous cfg).Reachable s) :
    SendableAll s := by
  refine h.invariant_with (fun s hr => reachable_wired hr.of_under) (fun s hs => ?_)
    (fun lbl s s' hn hw hi => sendableAll_step hn.2 hn.1.2 hw hi)
  obtain rfl : s = Server.init cfg := hs
  exact fun r hr => by cases hr

theorem single_of_courteous {s : Server} (h : (courteous cfg).Reachable s) : Single s :=
  reachable_single (h.under_mono fun _ _ hok => hok.1.2)

/-- The server is in a run with courteous clients, and all clients are such. -/
structure InSession (cfg : Config) (σ : Session) : Prop where
  server : (courteous cfg).Reachable σ.server
  clients : ∀ c, Known σ.server c (σ.clients c)

/-- The server holds back, and every client is known. -/
theorem inSession_step {lbl : SessionLbl} (h : InSession cfg σ)
    (hs : Session.step cfg lbl σ = some σ') : InSession cfg σ' := by
  have hwired := reachable_wired h.server.of_under
  have hsingle := single_of_courteous h.server
  cases hactor : actor lbl with
  | none =>
    -- a step is the server's or that of one client
    cases lbl with
    | server lbl room =>
      have hserver : σ.serverStep cfg lbl room = some σ' := hs
      refine ⟨?_, fun c => Known.server h.clients hserver hwired hsingle c⟩
      rcases Known.courteous h.clients hserver with hok | hsame
      · exact .step h.server ⟨hok, (serverStep_cases hserver).1⟩
      · exact hsame ▸ h.server
    | _ => cases hactor
  | some d =>
    have hclient : (clientStep (σ.clients d) lbl).map (fun cl => σ.modify d cl) = some σ' := by
      cases lbl with
      | server lbl room => cases hactor
      | _ =>
        obtain rfl := Option.some.inj hactor
        exact hs
    rcases Option.map_eq_some_iff.mp hclient with ⟨cl, hcl, rfl⟩
    refine ⟨h.server, fun c => ?_⟩
    by_cases hc : c = d
    · subst hc
      have hcl' : ((σ.modify c cl).clients c) = cl := Function.update_self ..
      rw [hcl']
      exact (h.clients c).client (sendableAll_of_courteous h.server) hsingle hactor hcl
    · have hcl' : ((σ.modify d cl).clients c) = σ.clients c := Function.update_of_ne hc ..
      rw [hcl']
      exact h.clients c

/-- In every joint run the server is one that holds back, and every client is known. -/
theorem reachable_inSession (h : (Session.system cfg).Reachable σ) : InSession cfg σ := by
  refine h.invariant (fun σ hσ => ?_) (fun lbl σ σ' hn hi => inSession_step hi hn)
  obtain rfl : σ = Session.init cfg := hσ
  exact ⟨.init rfl, known_init cfg⟩

/-- The server reads a request of the client in slot 2, and a worker runs it. -/
def exchangeOf (request : String) (env : Env) : List SessionLbl :=
  (.server (.request 2 request.toList true) true) ::
    (answers env ++ [ServerLbl.deliver ⟨true, true, true⟩]).map fun lbl => .server lbl true

/-- The client connects, logs in as bob and has a canvas made. -/
def bobSession : List SessionLbl :=
  connection.map (fun lbl => .server lbl true) ++ [.authorise 0 "Login  bob\n".toList] ++
    exchangeOf "Login bob" twoUsers ++
    [.reply 0, .input 0 (some "create_canvas 1 1 0\n".toList)] ++
    exchangeOf "create_canvas 1 1 0" (Env.allSucceed 7) ++ [.receive 0]

/-- Two results that decide a login of one client. -/
theorem two_le_decided {s : Server} {r r' : TaskResult} (hne : r ≠ r')
    (hr : r ∈ s.history.handled) (hr' : r' ∈ s.history.handled)
    (hlogin : resultLogin r.body = some c) (hlogin' : resultLogin r'.body = some c) :
    2 ≤ (decided s).count c := by
  have hperm := (List.perm_cons_erase hr).trans
    ((List.perm_cons_erase ((List.mem_erase_of_ne hne.symm).mpr hr')).cons r)
  have hcount := (hperm.filterMap fun r => resultLogin r.body).count_eq c
  rw [decided, hcount]
  simp only [List.filterMap_cons, hlogin, hlogin', List.count_cons_self]
  omega

/-- What the client has heard: the answer to its `Login`, and, if that was an `AUTH_OK`,
answers to its commands, in the order in which they were written. Every line answers a request
of its own, no two lines the same one, and the client finds the numbers that were sent. -/
theorem session_answers (h : (Session.system cfg).Reachable σ) (c : ClientRef) :
    ∃ rs : List TaskResult, rs.Sublist (answersTo c σ.server.history.handled) ∧
      (σ.clients c).heard = rs.map (fun r => textOf r.body) ∧
      (rs.map TaskResult.stamp).Nodup ∧
      (∀ r ∈ rs, ∃ t ∈ σ.server.history.accepted, t.stamp = r.stamp ∧ t.client? = some c) ∧
      ∀ r rs', rs = r :: rs' → resultLogin r.body = some c ∧ (rs' = [] ∨ c ∈ authOk r.body) ∧
        ∀ r' ∈ rs', ∃ rv, r'.body = .RPC_DONE c rv ∧
          scanInts 3 (sanitiseWhitespace (textOf r'.body)) = ReplyRoundTrip.sentFields rv := by
  have hin := reachable_inSession h
  have hserver := hin.server.of_under
  have hstamped := Stamps.reachable_stamped hserver
  have hsend := sendableAll_of_courteous hin.server
  have hinvited := reachable_invited (hin.server.under_mono fun _ _ hok => hok.1.1)
  rcases (Replies.reachable_delivered hserver).1 with ⟨hwritten, -⟩
  rcases hin.clients c with ⟨-, ⟨rs, ls, hincoming⟩, hb⟩
  have hsub : rs.Sublist (answersTo c σ.server.history.handled) :=
    (List.sublist_append_left rs ls).trans hincoming.answers
  have hhandled : rs.Sublist σ.server.history.handled := hsub.trans List.filter_sublist
  have hposted : rs.Sublist σ.server.history.posted :=
    hhandled.trans ((List.sublist_append_left _ _).trans hwritten)
  have hclient : ∀ r ∈ rs, r.client? = some c := fun r hr =>
    of_decide_eq_true (List.mem_filter.mp (hsub.subset hr)).2
  have honce : (decided σ.server).count c ≤ 1 := by
    have htotal := hb.once
    rw [List.count_append] at htotal
    omega
  refine ⟨rs, hsub, hincoming.heard, hstamped.posted_nodup.sublist (hposted.map _),
    fun r hr => ?_, ?_⟩
  · rcases hstamped.task (hposted.subset hr) with ⟨t, ht, hstamp, heq⟩
    exact ⟨t, ht, hstamp, heq.trans (hclient r hr)⟩
  · rintro r rs' rfl
    have hlogin : resultLogin r.body = some c := hincoming.first r rfl
    have hr : r ∈ σ.server.history.handled := hhandled.subset List.mem_cons_self
    have hnodup : (r :: rs').Nodup :=
      List.Nodup.of_map _ (hstamped.posted_nodup.sublist (hposted.map _))
    -- another login would be a second one
    have hcommand : ∀ r' ∈ rs', resultCommand r'.body = some c := by
      intro r' hr'
      refine (resultLogin_or_resultCommand (hclient r' (List.mem_cons_of_mem _ hr'))).resolve_left
        fun hlogin' => ?_
      have hne : r ≠ r' := fun heq => (List.nodup_cons.mp hnodup).1 (heq ▸ hr')
      have htwo := two_le_decided hne hr (hhandled.subset (List.mem_cons_of_mem _ hr')) hlogin
        hlogin'
      omega
    refine ⟨hlogin, ?_, fun r' hr' => ?_⟩
    · cases rs' with
      | nil => exact Or.inl rfl
      | cons r' rs'' =>
        -- a command has been answered, so an `AUTH_OK` has been handled, which is the only login
        right
        have hr'' := hhandled.subset (List.mem_cons_of_mem _ List.mem_cons_self)
        have hlogged := hinvited.answered r' hr'' c (hcommand r' List.mem_cons_self)
        rcases hinvited.told c hlogged with ⟨q, hq, hauth⟩
        by_cases hqr : r = q
        · exact hqr ▸ hauth
        · have htwo := two_le_decided hqr hr hq hlogin (resultLogin_of_authOk hauth)
          omega
    · have hsendable := hsend r' (List.mem_append_left _
        (hhandled.subset (List.mem_cons_of_mem _ hr')))
      have hc := hcommand r' hr'
      cases hbody : r'.body with
      | RPC_DONE client rv =>
        rw [hbody] at hc hsendable
        obtain rfl : client = c := Option.some.inj hc
        exact ⟨rv, rfl, scanInts_textOf hsendable⟩
      | _ =>
        rw [hbody] at hc
        cases hc

theorem session_answers_bob :
    ∃ (σ : Session) (r r' : TaskResult),
      (σ.clients 0).heard = [textOf r.body, textOf r'.body] ∧ 0 ∈ authOk r.body ∧
      ∃ rv, r'.body = .RPC_DONE 0 rv ∧
        scanInts 3 (sanitiseWhitespace (textOf r'.body)) = ReplyRoundTrip.sentFields rv := by
  obtain ⟨σ, h, hp⟩ := exists_reachable_of_run (Session.init oneWorker)
    (Session.step oneWorker) bobSession
    (fun σ => decide ((σ.clients 0).heard = ["10".toList, "0 0".toList])) (by decide)
  have hheard : (σ.clients 0).heard = ["10".toList, "0 0".toList] := of_decide_eq_true hp
  rcases session_answers h 0 with ⟨rs, -, heq, -, -, hall⟩
  have htwo : (rs.map fun r => textOf r.body).length = 2 := by rw [← heq, hheard]; rfl
  rw [List.length_map] at htwo
  rcases List.length_eq_two.mp htwo with ⟨r, r', rfl⟩
  -- the first answer is the balance, the second the canvas
  rcases hall r [r'] rfl with ⟨-, hauth, hcommands⟩
  exact ⟨σ, r, r', heq, hauth.resolve_left (List.cons_ne_nil _ _),
    hcommands r' List.mem_cons_self⟩

end Runs

end AnimateServer.Sessions
