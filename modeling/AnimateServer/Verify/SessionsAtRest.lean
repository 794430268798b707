import AnimateServer.Verify.Quiescence
import AnimateServer.Verify.Sessions

/-!
# No client waits in vain

As long as no FIFO to a client is full and there is memory for the tasks, what a client has read
and what is in its FIFO is all that the server has written to it: a client in its session has
not closed the FIFO, and the server has not closed it either unless it has removed the client.
So when the server is at rest, every request that it has accepted is answered by one line, which
the client has heard or can read; and who waits for the answer to its `Login` finds it there.
-/

namespace AnimateServer.SessionsAtRest

open CLib Client Server ServerSteps Descriptors Records Transition Accounting LoginGate
  LoginIdentity Answers Sessions ClientSide Session

/-- The task can be allocated, the FIFO that a client has not closed has room for the line that
is written, and the server finds the end of a FIFO only where the client has closed it. -/
def roomy : SessionLbl → Session → Bool
  | .server (.request _ _ alloc) _, _ => alloc
  | .server (.deliver _) room, σ =>
    (σ.server.pipe.head?.bind TaskResult.client?).all fun c => room || (σ.clients c).closed
  | .server (.hangup i) _, σ => (σ.server.clientAt i).all fun c => (σ.clients c).closed
  | _, _ => true

/-- The bytes of the lines of results. -/
def lines (rs : List TaskResult) : CStr := (rs.map fun r => textOf r.body ++ ['\n']).flatten

/-! ### Lines -/

section Lines

variable {rs rs' : List TaskResult}

/-- The lines of two lists of results follow each other. -/
theorem lines_append (rs rs' : List TaskResult) : lines (rs ++ rs') = lines rs ++ lines rs' := by
  simp [lines]

theorem length_lines_cons (r : TaskResult) (rs : List TaskResult) :
    (lines (r :: rs)).length = (textOf r.body).length + 1 + (lines rs).length := by
  rw [lines, List.map_cons, List.flatten_cons, List.length_append, List.length_append]
  rfl

/-- Fewer results have fewer bytes. -/
theorem length_lines_le (h : rs.Sublist rs') : (lines rs).length ≤ (lines rs').length := by
  induction h with
  | slnil => exact le_refl _
  | cons r _ ih =>
    rw [length_lines_cons]
    omega
  | cons_cons r _ ih =>
    rw [length_lines_cons, length_lines_cons]
    omega

/-- No line is empty, so where no byte is missing no line is. -/
theorem eq_of_lines (h : rs.Sublist rs') (heq : lines rs = lines rs') : rs = rs' := by
  induction h with
  | slnil => rfl
  | @cons rs rs' r h ih =>
    have hle := length_lines_le h
    rw [heq, length_lines_cons] at hle
    omega
  | @cons_cons rs rs' r h ih =>
    have hrest : lines [r] ++ lines rs = lines [r] ++ lines rs' := by
      rw [← lines_append, ← lines_append]
      exact heq
    rw [ih (List.append_cancel_left hrest)]

end Lines

/-! ### The server -/

section Server

variable {cfg : Config} {s s' : Server} {lbl : ServerLbl} {c : ClientRef}

/-- A request handles no result. -/
theorem handled_request {i : Nat} {cmd : CStr} {alloc : Bool}
    (hs : Server.step cfg (.request i cmd alloc) s = some s') (hwired : Wired cfg s) :
    s'.history.handled = s.history.handled := by
  cases hwired.step_moves hs with
  | ignored | disconnect => rfl
  | request => cases alloc <;> rfl

/-- A `Login` of the client has been accepted. -/
def Asked (s : Server) (c : ClientRef) : Prop :=
  ∃ t ∈ s.history.accepted, t.type = .AUTHORISE ∧ t.client? = some c

/-- A task or result that asks for a client does not get lost, only handled or dropped. -/
theorem Asked.step (h : Asked s c) (hs : Server.step cfg lbl s = some s') (hwired : Wired cfg s) :
    Asked s' c := by
  rcases h with ⟨t, ht, hlogin⟩
  exact ⟨t, (Stamps.accepted_step hs hwired).subset ht, hlogin⟩

/-- The `Login` of a client that is not logged in is accepted. -/
theorem asked_request {i : Nat} {cmd : CStr}
    (hs : Server.step cfg (.request i cmd true) s = some s') (hwired : Wired cfg s)
    (hc : s.clientAt i = some c) (hlogin : IsLogin cmd) (hout : ¬ LoggedIn s c) : Asked s' c := by
  rcases hwired.request_leadsTo hs with
    ⟨d, hd, hlt, -, ⟨hno, -⟩ | ⟨-, type, args, hleads, rfl⟩⟩
  all_goals obtain rfl : c = d := Option.some.inj (hc.symm.trans hd)
  · refine absurd ?_ hno
    have hlogin' : strncmpEq cmd "Login ".toList 6 = true := hlogin
    rw [Enqueues, if_pos hlogin', Bool.eq_false_iff]
    exact fun hin => hout ⟨hlt, hin⟩
  · obtain rfl : type = .AUTHORISE := hleads.authorise_iff.mpr hlogin
    exact ⟨_, List.mem_append_right _ (List.mem_singleton_self _), rfl, rfl⟩

/-- Why a step removes the client `c`: it has hung up or sent a `Disconnect`, its `Login` has
been rejected, or it has just come and there is no slot for it. -/
inductive Removes (lbl : ServerLbl) (s s' : Server) (c : ClientRef) : Prop where
  | hangup (i : Nat) (hlbl : lbl = .hangup i) (hc : s.clientAt i = some c)
  | disconnect (i : Nat) (cmd : CStr) (alloc : Bool) (hlbl : lbl = .request i cmd alloc)
      (hc : s.clientAt i = some c) (hdisc : IsDisconnect cmd) (hno : ¬ Enqueues c cmd s)
  | rejected (hdecided : c ∈ decided s')
  | unslotted (hnew : c = s.reg.brk)

/-- A login whose result has been handled is decided. -/
theorem mem_decided {r : TaskResult} (hr : r ∈ s.history.handled)
    (hlogin : resultLogin r.body = some c) : c ∈ decided s :=
  List.mem_filterMap.mpr ⟨r, hr, hlogin⟩

/-- A step removes one client at most, for one of the reasons that `Removes` lists. -/
theorem removed_step (hs : Server.step cfg lbl s = some s') (hwired : Wired cfg s) :
    s'.history.removed = s.history.removed ∨
      ∃ c, s'.history.removed = c :: s.history.removed ∧ Removes lbl s s' c := by
  -- removals come from a request, a hang-up, a rejection or a handshake without a slot
  cases hwired.step_moves hs with
  | poll | ignored | dequeue | silent => exact Or.inl rfl
  | handshake pid alloc => cases alloc <;> exact Or.inl rfl
  | request i cmd alloc => cases alloc <;> exact Or.inl rfl
  | disconnect i cmd alloc c hc _ _ hno hdisc =>
    exact Or.inr ⟨c, rfl, .disconnect i cmd alloc rfl hc hdisc hno⟩
  | hangup i c hc => exact Or.inr ⟨c, rfl, .hangup i rfl hc⟩
  | posts =>
    rw [postResult_eq]
    split <;> exact Or.inl rfl
  | deliver ins res pipe hp =>
    have hhandled := (sameWork_handleResult ins res { s with
      pipe
      history := { s.history with handled := s.history.handled ++ [res] } }).handled
    have hmem : res ∈ s.history.handled ++ [res] :=
      List.mem_append_right _ (List.mem_singleton_self res)
    have hrejected : ∀ c, resultLogin res.body = some c →
        Removes (.deliver ins) s (({ s with
          pipe
          history := { s.history with
            handled := s.history.handled ++ [res] } } : Server).handleResult ins res) c :=
      fun c hlogin => .rejected (mem_decided (hhandled ▸ hmem) hlogin)
    rcases res with ⟨stamp, body⟩
    cases body with
    | AUTH_OK c username balance => exact Or.inl rfl
    | RPC_DONE c rv => exact Or.inl rfl
    | AUTH_NO c => exact Or.inr ⟨c, rfl, hrejected c rfl⟩
    | AUTH_UN c => exact Or.inr ⟨c, rfl, hrejected c rfl⟩
    | HSK_OK pid c2s s2c =>
      rcases ServerInv.handshakeDone_cases ins pid c2s s2c { s with
          pipe
          history := { s.history with
            handled := s.history.handled ++ [⟨stamp, .HSK_OK pid c2s s2c⟩] } } with
        heq | ⟨slots, ⟨-, heq⟩ | ⟨-, heq⟩⟩
      · exact Or.inl (congrArg (fun s => s.history.removed) heq)
      · exact Or.inl (congrArg (fun s => s.history.removed) heq)
      · exact Or.inr ⟨s.reg.brk, congrArg (fun s => s.history.removed) heq, .unslotted rfl⟩

/-- Who has been removed stays so. -/
theorem removed_mono (hs : Server.step cfg lbl s = some s') (hwired : Wired cfg s)
    (hc : c ∈ s.history.removed) : c ∈ s'.history.removed := by
  rcases removed_step hs hwired with heq | ⟨d, heq, -⟩
  · rwa [heq]
  · rw [heq]
    exact List.mem_cons_of_mem d hc

/-- Before a line is written to a client that has not been removed, its descriptors are not
closed. -/
theorem notMem_freed_release (hwired : Wired cfg s) (hlt : c < s.reg.brk)
    (hc : c ∉ s.history.removed) : c ∉ (s.release c).reg.freed := fun hf =>
  hc ((hwired.base.reg.release hlt).freed_removed c hf)

end Server

/-! ### Nothing is lost -/

/-- The server has let the client in, and has not removed it since; or it has not let it in. -/
def Stays (s : Server) (c : ClientRef) : Prop := LoggedIn s c → c ∉ s.history.removed

/-- What is known of a client. In its session it has read, or can read, the lines of all results
of its own that have been handled, and it has been removed only after its `Login` had been
decided or before anything of it was read. -/
structure Answered (s : Server) (c : ClientRef) (cl : ClientSide) : Prop where
  closed : cl.closed = true → cl.phase = .teardown
  removed : cl.phase ≠ .teardown → c ∈ s.history.removed →
    c ∈ decided s ∨ cl.served.filter (· ≠ []) = []
  written : cl.phase ≠ .teardown → Stays s c →
    (cl.heard.map fun text => text ++ ['\n']).flatten ++ cl.s2c =
      lines (answersTo c s.history.handled)
  asked : cl.served.filter (· ≠ []) ≠ [] → c < s.reg.brk ∧ (LoggedIn s c ∨ Asked s c)

section Answered

variable {cfg : Config} {s s' : Server} {lbl : ServerLbl} {c : ClientRef} {cl cl' : ClientSide}
  {room : Bool} {σ σ' : Session}

/-- A step of the client that reads nothing and does not go back to its session. -/
theorem Answered.congr (h : Answered s c cl) (hheard : cl'.heard = cl.heard)
    (hs2c : cl'.s2c = cl.s2c) (hserved : cl'.served = cl.served)
    (hphase : cl'.phase ≠ .teardown → cl.phase ≠ .teardown ∧ cl'.closed = cl.closed) :
    Answered s c cl' where
  closed := fun hclosed => by
    by_contra hne
    rcases hphase hne with ⟨hne', heq⟩
    exact hne' (h.closed (heq ▸ hclosed))
  removed := fun hp => hserved ▸ h.removed (hphase hp).1
  written := fun hp => by
    rw [hheard, hs2c]
    exact h.written (hphase hp).1
  asked := by
    rw [hserved]
    exact h.asked

/-- Who stays has not been removed before. -/
theorem Stays.of_step (h : Stays s' c) (hs : Server.step cfg lbl s = some s')
    (hwired : Wired cfg s) : Stays s c := fun hin hc =>
  h (hin.step hs hwired) (removed_mono hs hwired hc)

/-- What has been decided stays so. -/
theorem decided_mono (hs : Server.step cfg lbl s = some s') (hwired : Wired cfg s)
    (hc : c ∈ decided s) : c ∈ decided s' := by
  rcases sent_step hs hwired with ⟨rs, hhandled, -, -⟩
  rcases List.mem_filterMap.mp hc with ⟨r, hr, hlogin⟩
  exact mem_decided (hhandled ▸ List.mem_append_left rs hr) hlogin

/-- Once something of a client has been read it is let in or asks to be. -/
theorem Answered.asked_step (h : Answered s c cl) (hs : Server.step cfg lbl s = some s')
    (hwired : Wired cfg s) (hserved : cl.served.filter (· ≠ []) ≠ []) :
    c < s'.reg.brk ∧ (LoggedIn s' c ∨ Asked s' c) := by
  rcases h.asked hserved with ⟨hlt, hasked⟩
  exact ⟨Nat.lt_of_lt_of_le hlt (recorded_step hs hwired).brk_le,
    hasked.imp (fun hin => hin.step hs hwired) fun hasked => hasked.step hs hwired⟩

/-- A client in its session is removed only when its `Login` has been decided, or before it has
a slot. -/
theorem Answered.removed_cases (h : Answered s c cl) (hknown : Known s c cl)
    (hinvited : Invited s) (hs : Server.step cfg lbl s = some s') (hwired : Wired cfg s)
    (hgone : ∀ i, lbl = .hangup i → s.clientAt i = some c → cl.closed = true)
    (hsent : ∀ i cmd alloc, lbl = .request i cmd alloc → s.clientAt i = some c → cmd ≠ [] →
      cmd ∈ cl.sent)
    (hphase : cl.phase ≠ .teardown) (hc : c ∈ s'.history.removed) :
    c ∈ decided s' ∨ c ∈ s.history.removed ∨ c = s.reg.brk := by
  rcases removed_step hs hwired with heq | ⟨d, heq, hwhy⟩
  · exact Or.inr (Or.inl (heq ▸ hc))
  rw [heq] at hc
  rcases List.mem_cons.mp hc with rfl | hc
  swap
  · exact Or.inr (Or.inl hc)
  cases hwhy with
  | hangup i hlbl hslot => exact absurd (h.closed (hgone i hlbl hslot)) hphase
  | disconnect i cmd alloc hlbl hslot hdisc hno =>
    have hin : LoggedIn s c := by
      by_contra hout
      have hne : cmd ≠ [] := by
        rintro rfl
        exact absurd hdisc (by unfold IsDisconnect; decide)
      -- the first request of all is a `Login`
      have hb := hknown.behaved
      have hlogin : strncmpEq cmd "Login ".toList 6 = true :=
        (hb.isLogin (hb.few.resolve_right hout) (hsent i cmd alloc hlbl hslot hne)).2
      rw [Enqueues, if_pos hlogin, Bool.not_eq_false] at hno
      exact hout ⟨(hwired.clientAt hslot).1, hno⟩
    rcases hinvited.told c hin with ⟨r, hr, hauth⟩
    exact Or.inl (decided_mono hs hwired (mem_decided hr (resultLogin_of_authOk hauth)))
  | rejected hdecided => exact Or.inl hdecided
  | unslotted hnew => exact Or.inr (Or.inr hnew)

/-- The server reads a request of the client. -/
theorem Answered.read (h : Answered s c cl) (hknown : Known s c cl) (hinvited : Invited s)
    {i : Nat} {cmd rest : CStr}
    (hs : Server.step cfg (.request i cmd true) s = some s') (hwired : Wired cfg s)
    (hc : s.clientAt i = some c) (hread : readText cl.c2s = some (cmd, rest)) :
    Answered s' c { cl with c2s := rest, served := cl.served ++ [cmd] } where
  closed := h.closed
  removed := by
    intro hphase hrem
    rcases hknown.outgoing with ⟨ms, hout⟩
    rcases h.removed_cases hknown hinvited hs hwired (fun j hlbl _ => by cases hlbl)
      (fun j cmd' alloc hlbl _ hne => by
        cases hlbl
        exact (hout.read hread).1 hne) hphase hrem with hdecided | hrem | hnew
    · exact Or.inl hdecided
    · exact absurd hrem (hwired.clientAt hc).2
    · exact absurd (hwired.clientAt hc).1 (hnew ▸ Nat.lt_irrefl _)
  written := fun hphase hstays => by
    rw [handled_request hs hwired]
    exact h.written hphase (hstays.of_step hs hwired)
  asked := by
    intro hserved
    have hbrk := (recorded_step hs hwired).brk_le
    refine ⟨Nat.lt_of_lt_of_le (hwired.clientAt hc).1 hbrk, ?_⟩
    by_cases hin : LoggedIn s c
    · exact Or.inl (hin.step hs hwired)
    by_cases hcmd : cmd = []
    · subst hcmd
      refine (h.asked_step hs hwired ?_).2
      rwa [List.filter_append, show [([] : CStr)].filter (· ≠ []) = [] from rfl,
        List.append_nil] at hserved
    · -- the first request of all is a `Login`
      rcases hknown with ⟨⟨ms, hout⟩, -, hb⟩
      have hsent := (hout.read hread).1 hcmd
      have hlogin := (hb.isLogin (hb.few.resolve_right hin) hsent).2
      exact Or.inr (asked_request hs hwired hc hlogin hin)

/-- A step in which the server reads nothing of the client. -/
theorem Answered.idle (h : Answered s c cl) (hknown : Known s c cl) (hinvited : Invited s)
    (hs : Server.step cfg lbl s = some s') (hwired : Wired cfg s)
    (hgone : ∀ i, lbl = .hangup i → s.clientAt i = some c → cl.closed = true)
    (hother : ∀ i cmd alloc, lbl = .request i cmd alloc → s.clientAt i ≠ some c)
    (hphase : cl'.phase = cl.phase) (hclosed : cl'.closed = cl.closed)
    (hserved : cl'.served = cl.served)
    (hwritten : cl.phase ≠ .teardown → Stays s' c →
      (cl'.heard.map fun text => text ++ ['\n']).flatten ++ cl'.s2c =
        lines (answersTo c s'.history.handled)) : Answered s' c cl' where
  closed := by
    rw [hclosed, hphase]
    exact h.closed
  removed := by
    rw [hphase, hserved]
    intro hp hc
    rcases h.removed_cases hknown hinvited hs hwired hgone
      (fun i cmd alloc hlbl hslot => absurd hslot (hother i cmd alloc hlbl)) hp hc with
      hdecided | hrem | hnew
    · exact Or.inl hdecided
    · exact (h.removed hp hrem).imp_left fun hd => decided_mono hs hwired hd
    · -- a client that did not exist yet has had nothing served
      refine Or.inr ?_
      by_contra hne
      exact Nat.lt_irrefl _ (hnew ▸ (h.asked hne).1)
  written := by
    rw [hphase]
    exact hwritten
  asked := by
    rw [hserved]
    exact h.asked_step hs hwired

/-- A client that is to get a line has not been removed. -/
theorem Answered.notMem_removed (h : Answered s c cl) (hknown : Known s c cl)
    (hinvited : Invited s) (hphase : cl.phase ≠ .teardown) (hstays : Stays s c)
    {res : TaskResult} (hres : res ∈ s.pipe) (hclient : res.client? = some c) :
    c ∉ s.history.removed := by
  intro hrem
  have hout : ¬ LoggedIn s c := fun hin => hstays hin hrem
  have hb := hknown.behaved
  have hlogin : c ∈ logins s := by
    rcases resultLogin_or_resultCommand hclient with hlogin | hcommand
    · exact List.mem_append_right _ (List.mem_filterMap.mpr ⟨res, hres, hlogin⟩)
    · have hmem : c ∈ commands s :=
        List.mem_append_right _ (List.mem_filterMap.mpr ⟨res, hres, hcommand⟩)
      exact absurd (hinvited.underWay c hmem) hout
  have hpos := List.count_pos_iff.mpr hlogin
  rcases h.removed hphase hrem with hdecided | hserved
  · -- another `Login` of it has been decided
    have hone := List.count_pos_iff.mpr hdecided
    have honce := hb.once
    rw [List.count_append] at honce
    omega
  · have hbound := hb.undecided hout
    rw [hserved, List.count_append] at hbound
    simp only [List.length_nil] at hbound
    omega

/-- The line of a result goes into the FIFO of a client in its session. -/
theorem Answered.answer (h : Answered s c cl) (hknown : Known s c cl) (hinvited : Invited s)
    (hs : Server.step cfg lbl s = some s') (hwired : Wired cfg s)
    {clients : ClientRef → ClientSide} (hcl : clients c = cl) (hroom : ∀ ins, lbl = .deliver ins →
      (s.pipe.head?.bind TaskResult.client?).all fun d => room || (clients d).closed)
    (hphase : cl.phase ≠ .teardown) (hstays : Stays s' c) :
    ((Session.answer room s s' clients c).heard.map fun text => text ++ ['\n']).flatten ++
      (Session.answer room s s' clients c).s2c = lines (answersTo c s'.history.handled) := by
  subst hcl
  have hstays := hstays.of_step hs hwired
  have hwritten := h.written hphase hstays
  have hopen : (clients c).closed = false := by
    by_contra hclosed
    exact hphase (h.closed (by simpa using hclosed))
  rcases sent_step hs hwired with ⟨rs, hhandled, hsent, hrs⟩
  rw [hhandled, answersTo_append, lines_append, ← hwritten, List.append_assoc]
  have hlines := linesTo_append hsent c
  unfold Session.answer
  by_cases hnone : answersTo c rs = []
  · -- nothing is written to it
    rw [hnone, List.map_nil, List.append_nil] at hlines
    rw [hlines, List.drop_length, hnone]
    split
    · rfl
    · simp [lines]
  · rcases List.exists_mem_of_ne_nil _ hnone with ⟨r, hr⟩
    rcases List.mem_filter.mp hr with ⟨hr, hclient⟩
    have hclient : r.client? = some c := of_decide_eq_true hclient
    rcases hrs with rfl | ⟨ins, res, hlbl, hhead, rfl⟩
    · cases hr
    obtain rfl := List.mem_singleton.mp hr
    have hnot := h.notMem_removed hknown hinvited hphase hstays
      (List.mem_of_mem_head? hhead) hclient
    have hlt : c < s.reg.brk := hwired.base.old.pipe r (List.mem_of_mem_head? hhead) c hclient
    have hfull : room = true := by
      have hall := hroom ins hlbl
      rw [hhead] at hall
      simpa [hclient, hopen] using hall
    have htakes : takes room s c (clients c) = true := by
      simp [takes, hfull, reads, hopen, notMem_freed_release hwired hlt hnot]
    rw [if_pos htakes, hlines, List.drop_left]
    rfl

/-- A step of the server writes the line of each result that it handles. -/
theorem Answered.server (h : ∀ c, Answered σ.server c (σ.clients c))
    (hknown : ∀ c, Known σ.server c (σ.clients c)) (hinvited : Invited σ.server)
    (hs : σ.serverStep cfg lbl room = some σ') (hwired : Wired cfg σ.server)
    (hroom : roomy (.server lbl room) σ = true) (c : ClientRef) :
    Answered σ'.server c (σ'.clients c) := by
  -- a hang-up is seen of clients that have closed only
  have hgone : ∀ i, lbl = .hangup i → σ.server.clientAt i = some c →
      (σ.clients c).closed = true := by
    rintro i rfl hslot
    have hroom : (σ.server.clientAt i).all (fun c => (σ.clients c).closed) = true := hroom
    rw [hslot] at hroom
    exact hroom
  rcases serverStep_cases hs with
    ⟨hs', ⟨i, cmd, alloc, d, rest, rfl, hd, hread, hclients⟩ | ⟨hno, -, hclients⟩⟩
  · obtain rfl : alloc = true := hroom
    rw [hclients]
    by_cases hcd : c = d
    · subst hcd
      rw [Function.update_self]
      exact (h c).read (hknown c) hinvited hs' hwired hd hread
    · rw [Function.update_of_ne hcd]
      refine (h c).idle (hknown c) hinvited hs' hwired hgone ?_ rfl rfl rfl fun hp hstays => ?_
      · rintro _ _ _ ⟨⟩ hc
        exact hcd (Option.some.inj (hc.symm.trans hd))
      · rw [handled_request hs' hwired]
        exact (h c).written hp (hstays.of_step hs' hwired)
  · rw [hclients]
    -- an answer is written to the FIFO and changes nothing else of the client
    have hsame : (Session.answer room σ.server σ'.server σ.clients c).phase = (σ.clients c).phase ∧
        (Session.answer room σ.server σ'.server σ.clients c).closed = (σ.clients c).closed ∧
        (Session.answer room σ.server σ'.server σ.clients c).served = (σ.clients c).served := by
      unfold Session.answer
      split <;> exact ⟨rfl, rfl, rfl⟩
    refine (h c).idle (hknown c) hinvited hs' hwired hgone
      (fun i cmd alloc hlbl => absurd hlbl (hno i cmd alloc)) hsame.1 hsame.2.1 hsame.2.2
      fun hp hstays => (h c).answer (hknown c) hinvited hs' hwired rfl ?_ hp hstays
    rintro ins rfl
    exact hroom

/-- A line that is read moves from the FIFO to what has been heard. -/
theorem Answered.hear (h : Answered s c cl) (hknown : Known s c cl) (hsend : SendableAll s)
    {text rest : CStr} (hread : readText cl.s2c = some (text, rest))
    (hheard : cl'.heard = cl.heard ++ [text]) (hs2c : cl'.s2c = rest)
    (hserved : cl'.served = cl.served) (hclosed : cl'.closed = cl.closed)
    (hphase : cl'.phase ≠ .teardown → cl.phase ≠ .teardown)
    (hdown : cl.phase = .teardown → cl'.phase = .teardown) : Answered s c cl' where
  closed := fun hcl => hdown (h.closed (hclosed ▸ hcl))
  removed := fun hp => hserved ▸ h.removed (hphase hp)
  written := fun hp hstays => by
    rcases hknown.incoming with ⟨hs, ls, hin⟩
    -- the line heard is the first one that was in the FIFO
    rcases hin.read hsend hread with ⟨r, ls', rfl, rfl, -, rfl⟩
    rw [← h.written (hphase hp) hstays, hheard, hs2c, hin.fifo]
    simp
  asked := by
    rw [hserved]
    exact h.asked

/-- A client reads lines in the order in which they were written, or leaves its session. -/
theorem Answered.client (h : Answered s c cl) (hknown : Known s c cl) (hsend : SendableAll s)
    {lbl : SessionLbl} (hs : clientStep cl lbl = some cl') : Answered s c cl' := by
  -- the steps that read a line, those that leave the session, and those that do neither
  cases lbl with
  | server lbl room => cases hs
  | authorise d input =>
    rcases Option.ite_none_right_eq_some.mp hs with ⟨⟨hphase, -⟩, hs⟩
    split at hs
    · obtain rfl := Option.some.inj hs
      exact h.congr rfl rfl rfl fun _ => ⟨by rw [hphase]; decide, rfl⟩
    · obtain rfl := Option.some.inj hs
      exact h
  | reply d =>
    simp only [clientStep] at hs
    split at hs
    · rename_i text rest hphase hread
      obtain rfl := Option.some.inj hs
      refine h.hear hknown hsend hread rfl rfl rfl rfl (fun _ => by rw [hphase]; decide)
        fun hp => ?_
      rw [hphase] at hp
      cases hp
    · cases hs
  | input d line =>
    rcases Option.ite_none_right_eq_some.mp hs with ⟨⟨hphase, -⟩, hs⟩
    have hmessage : Answered s c (cl.writeSome (sendUserInput line).2) := by
      cases (sendUserInput line).2 with
      | none => exact h
      | some m => exact h.congr rfl rfl rfl fun hp => ⟨hp, rfl⟩
    have heq : (if (sendUserInput line).1 = 1 then cl.writeSome (sendUserInput line).2
        else { cl.writeSome (sendUserInput line).2 with phase := .teardown }) = cl' :=
      Option.some.inj hs
    rw [← heq]
    split
    · exact hmessage
    · exact hmessage.congr rfl rfl rfl fun hp => absurd rfl hp
  | receive d =>
    simp only [clientStep] at hs
    split at hs
    · rename_i text rest hreceiver hread
      obtain rfl := Option.some.inj hs
      exact h.hear hknown hsend hread rfl rfl rfl rfl id id
    · cases hs
  | receiverEnds d =>
    rcases Option.ite_none_right_eq_some.mp hs with ⟨-, hs⟩
    obtain rfl := Option.some.inj hs
    exact h.congr rfl rfl rfl fun hp => ⟨hp, rfl⟩
  | leave d =>
    obtain rfl := Option.some.inj hs
    exact h.congr rfl rfl rfl fun hp => absurd rfl hp
  | close d =>
    rcases Option.ite_none_right_eq_some.mp hs with ⟨hphase, hs⟩
    obtain rfl := Option.some.inj hs
    exact h.congr rfl rfl rfl fun hp => absurd hphase hp

end Answered

/-! ### Runs -/

section Runs

variable {cfg : Config} {σ σ' : Session} {c : ClientRef}

/-- The runs in which no FIFO to a client is full, no allocation of a task fails, and no client
is taken to have gone that is still there. -/
abbrev roomySystem (cfg : Config) : LTS Session SessionLbl :=
  (Session.system cfg).under fun lbl σ => roomy lbl σ = true

/-- In a joint run the server is one that holds back. -/
theorem invited_of_inSession (hin : InSession cfg σ) : Invited σ.server :=
  reachable_invited (hin.server.under_mono fun _ _ hok => hok.1.1)

/-- Every step of a run without a full FIFO. -/
theorem answered_step {lbl : SessionLbl} (hok : roomy lbl σ = true)
    (hs : Session.step cfg lbl σ = some σ') (hin : InSession cfg σ)
    (h : ∀ c, Answered σ.server c (σ.clients c)) (c : ClientRef) :
    Answered σ'.server c (σ'.clients c) := by
  have hwired := reachable_wired hin.server.of_under
  cases hactor : actor lbl with
  | none =>
    cases lbl with
    | server lbl room =>
      exact Answered.server h hin.clients (invited_of_inSession hin) hs hwired hok c
    | _ => cases hactor
  | some d =>
    -- a client's own step leaves the server and the others alone
    have hclient : (clientStep (σ.clients d) lbl).map (fun cl => σ.modify d cl) = some σ' := by
      cases lbl with
      | server lbl room => cases hactor
      | _ =>
        obtain rfl := Option.some.inj hactor
        exact hs
    rcases Option.map_eq_some_iff.mp hclient with ⟨cl, hcl, rfl⟩
    show Answered σ.server c (Function.update σ.clients d cl c)
    by_cases hc : c = d
    · subst hc
      rw [Function.update_self]
      exact (h c).client (hin.clients c) (sendableAll_of_courteous hin.server) hcl
    · rw [Function.update_of_ne hc]
      exact h c

/-- In every run without a full FIFO, every client is known with the lines it has been sent. -/
theorem reachable_answered (h : (roomySystem cfg).Reachable σ) :
    ∀ c, Answered σ.server c (σ.clients c) := by
  refine h.invariant_with (fun σ hr => reachable_inSession hr.of_under) (fun σ hσ => ?_)
    (fun lbl σ σ' hn hin hi => answered_step hn.1 hn.2 hin hi)
  obtain rfl : σ = Session.init cfg := hσ
  intro c
  refine ⟨fun hclosed => ?_, fun _ hrem => ?_, fun _ _ => rfl, fun hne => absurd rfl hne⟩
  · cases hclosed
  · cases hrem

/-- A login is answered to the client that is let in. -/
theorem client_of_authOk {r : TaskResult} (h : c ∈ authOk r.body) : r.client? = some c := by
  rcases r with ⟨stamp, body⟩
  cases body <;> first | exact h | cases h

/-- In every run in which no FIFO to a client is full, no allocation of a task fails and the
server finds the end of a FIFO only where the client has closed it, when the server is at rest:
of a client that is in its session and that the server, if it has let it in, has not removed,
what it has heard and what is in its FIFO are the lines of all results of its own that have been
handled. Every `Login` and every command but `barrier` that has been accepted from it is
answered by one of them, if its result was not lost in the pipe of the server. So a client that
waits for the answer to its `Login` can read it, also when it has been rejected. -/
theorem session_complete (h : (roomySystem cfg).Reachable σ) (hqueue : σ.server.queue = [])
    (hrunning : σ.server.running = []) (hpipe : σ.server.pipe = []) (c : ClientRef)
    (hphase : (σ.clients c).phase ≠ .teardown)
    (hstays : LoggedIn σ.server c → c ∉ σ.server.history.removed) :
    ∃ hs ls, answersTo c σ.server.history.handled = hs ++ ls ∧
      (σ.clients c).heard = hs.map (fun r => textOf r.body) ∧
      (σ.clients c).s2c = lines ls ∧
      (∀ t ∈ σ.server.history.accepted, t.client? = some c → t.type ≠ .HANDSHAKE →
        t.type ≠ .BARRIER → (∃! r, r ∈ hs ++ ls ∧ r.stamp = t.stamp) ∨
          ∃ r ∈ σ.server.history.dropped, r.stamp = t.stamp) ∧
      ((σ.clients c).phase = .reply → (σ.clients c).served.filter (· ≠ []) ≠ [] →
        (∃ cl, clientStep (σ.clients c) (.reply c) = some cl) ∨
          ∃ t ∈ σ.server.history.accepted, t.type = .AUTHORISE ∧ t.client? = some c ∧
            ∃ r ∈ σ.server.history.dropped, r.stamp = t.stamp) := by
  have hin := reachable_inSession h.of_under
  have hserver := hin.server.of_under
  have hstamped := Stamps.reachable_stamped hserver
  have hplaced := Quiescence.reachable_placed hserver
  have hanswered := reachable_answered h c
  have hposted : σ.server.history.handled.Sublist σ.server.history.posted :=
    (List.sublist_append_left _ _).trans (Replies.reachable_delivered hserver).1.written
  rcases hin.clients c with ⟨-, ⟨hs, ls, hincoming⟩, hb⟩
  -- no line is missing
  have hall : answersTo c σ.server.history.handled = hs ++ ls := by
    refine (eq_of_lines hincoming.answers ?_).symm
    rw [← hanswered.written hphase hstays, hincoming.heard, hincoming.fifo, lines_append,
      List.map_map]
    rfl
  have hmem : ∀ r, r ∈ hs ++ ls ↔ r ∈ σ.server.history.handled ∧ r.client? = some c := fun r => by
    rw [← hall, answersTo, List.mem_filter, decide_eq_true_iff]
  have hone : ∀ t ∈ σ.server.history.accepted, t.client? = some c → t.type ≠ .HANDSHAKE →
      t.type ≠ .BARRIER → (∃! r, r ∈ hs ++ ls ∧ r.stamp = t.stamp) ∨
        ∃ r ∈ σ.server.history.dropped, r.stamp = t.stamp := by
    intro t ht hclient hhsk hbar
    rcases hplaced.accepted t ht hhsk hbar with hwaits | hruns | ⟨r, hr, hstamp⟩
    · rw [hqueue] at hwaits
      cases hwaits
    · rw [hrunning] at hruns
      cases hruns
    · rw [Quiescence.results, hpipe, List.append_nil] at hr
      rcases List.mem_append.mp hr with hr | hr
      · left
        have hto := (hstamped.client ht (hposted.subset hr) hstamp).trans hclient
        refine ⟨r, ⟨(hmem r).mpr ⟨hr, hto⟩, hstamp⟩, fun r' hr' => ?_⟩
        exact List.inj_on_of_nodup_map (hstamped.posted_nodup.sublist (hposted.map _))
          ((hmem r').mp hr'.1).1 hr (hr'.2.trans hstamp.symm)
      · exact Or.inr ⟨r, hr, hstamp⟩
  refine ⟨hs, ls, hall, hincoming.heard, hincoming.fifo, hone, fun hreply hserved => ?_⟩
  -- a client in this phase has heard nothing yet
  have hnil : hs = [] := by
    have hheard := hincoming.heard
    rw [(hb.unheard (Or.inr hreply)).1] at hheard
    exact List.map_eq_nil_iff.mp hheard.symm
  have hreads : ∀ r ∈ hs ++ ls, ∃ cl, clientStep (σ.clients c) (.reply c) = some cl := by
    intro r hr
    rw [hnil, List.nil_append] at hr
    rcases List.exists_cons_of_ne_nil (List.ne_nil_of_mem hr) with ⟨r₀, ls', rfl⟩
    have hhandled : r₀ ∈ σ.server.history.handled :=
      ((hmem r₀).mp (List.mem_append_right _ List.mem_cons_self)).1
    have hfits := fits_textOf (sendableAll_of_courteous hin.server r₀
      (List.mem_append_left _ hhandled))
    have hread := hincoming.fifo
    rw [List.map_cons, List.flatten_cons, List.append_assoc, List.singleton_append] at hread
    simp only [clientStep, hreply, hread, readText_line hfits]
    exact ⟨_, rfl⟩
  rcases (hanswered.asked hserved).2 with hlogged | ⟨t, ht, htype, hclient⟩
  · rcases (invited_of_inSession hin).told c hlogged with ⟨r, hr, hauth⟩
    refine Or.inl (hreads r ((hmem r).mpr ⟨hr, ?_⟩))
    exact client_of_authOk hauth
  · rcases hone t ht hclient (by rw [htype]; decide) (by rw [htype]; decide) with
      ⟨r, ⟨hr, -⟩, -⟩ | hdropped
    · exact Or.inl (hreads r hr)
    · exact Or.inr ⟨t, ht, htype, hclient, hdropped⟩

/-- The client connects and sends its `Login`, and a worker runs it. -/
def bobWaits : List SessionLbl :=
  connection.map (fun lbl => .server lbl true) ++ [.authorise 0 "Login  bob\n".toList] ++
    exchangeOf "Login bob" twoUsers

theorem session_complete_bob : ∃ σ : Session,
    (σ.clients 0).phase = .reply ∧ ∃ cl, clientStep (σ.clients 0) (.reply 0) = some cl := by
  obtain ⟨σ, h, hp⟩ := exists_reachable_of_run (Session.init oneWorker)
    (guarded (fun lbl σ => roomy lbl σ = true) (Session.step oneWorker)) bobWaits
    (fun σ => decide ((σ.clients 0).phase = .reply ∧ (σ.clients 0).served = ["Login bob".toList] ∧
      σ.server.queue = [] ∧ σ.server.running = [] ∧ σ.server.pipe = [] ∧
      σ.server.history.dropped = [] ∧ σ.server.history.removed = [])) (by decide)
  rw [← under_ofStep] at h
  rcases of_decide_eq_true hp with
    ⟨hphase, hserved, hqueue, hrunning, hpipe, hdropped, hremoved⟩
  have hstays : LoggedIn σ.server 0 → 0 ∉ σ.server.history.removed := fun _ hmem => by
    rw [hremoved] at hmem
    cases hmem
  obtain ⟨hs, ls, -, -, -, -, hwaits⟩ :=
    session_complete h hqueue hrunning hpipe 0 (by rw [hphase]; decide) hstays
  refine ⟨σ, hphase, (hwaits hphase ?_).resolve_right ?_⟩
  · rw [hserved]
    decide
  · -- nothing was dropped in this run
    rintro ⟨t, -, -, -, r, hr, -⟩
    rw [hdropped] at hr
    cases hr

end Runs

end AnimateServer.SessionsAtRest
