import AnimateServer.Verify.Descriptors

/-!
# What a step does to a client's record

Apart from the reference count, `dead` and the links, a record changes once: an
`AUTH_OK` writes the user name and sets `logged_in`. `settled` is the part of a
record this is about. Later modules read their facts about pids and logins off
`settled_step`.
-/

namespace AnimateServer.Records

open CLib Server ServerSteps ServerInv Descriptors Registry Transition

/-- A record without its reference count, `dead` and its links. -/
def settled (a : ActiveClient) : ActiveClient :=
  { a with refcount := 0, dead := false, next := none, prev := none }

/-- What an `AUTH_OK` does to a record. -/
def authorised (username : CStr) (a : ActiveClient) : ActiveClient :=
  { a with username := strncpyBuf MAX_USERNAME_LEN username, loggedIn := true }

/-- The fields that are settled when the record is made are the same in both. -/
theorem clientPid_of_settled {a b : ActiveClient} (h : settled a = settled b) :
    a.clientPid = b.clientPid := by
  simpa [settled] using congrArg ActiveClient.clientPid h

theorem loggedIn_of_settled {a b : ActiveClient} (h : settled a = settled b) :
    a.loggedIn = b.loggedIn := by
  simpa [settled] using congrArg ActiveClient.loggedIn h

theorem username_of_settled {a b : ActiveClient} (h : settled a = settled b) :
    a.username = b.username := by
  simpa [settled] using congrArg ActiveClient.username h

/-! ## The registry -/

/-- All records stay settled. -/
def SameSettled (r r' : ClientRegistry) : Prop := ∀ c, settled (r'.mem c) = settled (r.mem c)

section SameSettled

variable {r r' r'' : ClientRegistry}

/-- The relation of steps that settle nothing is a preorder. -/
theorem SameSettled.refl (r : ClientRegistry) : SameSettled r r := fun _ => rfl

theorem SameSettled.trans (h : SameSettled r r') (h' : SameSettled r' r'') : SameSettled r r'' :=
  fun c => (h' c).trans (h c)

/-- The links are not settled. -/
theorem sameSettled_of_sameButLinks (h : SameButLinks r r') : SameSettled r r' :=
  fun c => h.field settled (fun _ => rfl) c

/-- A function that leaves the settled fields may be applied to a record. -/
theorem sameSettled_modify (r : ClientRegistry) (c : ClientRef) {f : ActiveClient → ActiveClient}
    (hf : ∀ a, settled (f a) = settled a) : SameSettled r (r.modify c f) := by
  intro d
  by_cases hd : d = c
  · subst hd
    simp [hf]
  · simp [hd]

theorem sameSettled_touch (r : ClientRegistry) (c : ClientRef) : SameSettled r (r.touch c) :=
  sameSettled_of_sameButLinks (sameButLinks_touch r c)

/-- A release counts and may destroy, but settles nothing. -/
theorem sameSettled_release (r : ClientRegistry) (c : ClientRef) :
    SameSettled r (r.cregReleaseClient c) := by
  have hmod : SameSettled r (r.modify c fun a => { a with refcount := decr a.refcount }) :=
    sameSettled_modify r c fun _ => rfl
  rw [cregReleaseClient_eq]
  split
  · refine hmod.trans fun d => ?_
    simp
  · exact hmod

/-- A removal sets the flag and releases, but settles nothing. -/
theorem sameSettled_remove (r : ClientRegistry) (c : ClientRef) :
    SameSettled r (((r.markdeadSection c).cregUnlink c).cregReleaseClient c) := by
  have hmark : SameSettled r (r.markdeadSection c) := sameSettled_modify r c fun _ => rfl
  exact (hmark.trans (sameSettled_of_sameButLinks (sameButLinks_cregUnlink c _))).trans
    (sameSettled_release _ c)

/-- A new record does not change the others. -/
theorem settled_insert (r : ClientRegistry) (pid c2s s2c : Int) {c : ClientRef} (hc : c < r.brk) :
    settled ((r.cregInsert true pid c2s s2c).2.mem c) = settled (r.mem c) := by
  rw [sameSettled_of_sameButLinks (sameButLinks_cregInsert pid c2s s2c r) c]
  simp [pushed, Nat.ne_of_lt hc]

/-- A new record has the pid and the descriptors of its handshake, and nobody is logged in. -/
theorem settled_insert_new (r : ClientRegistry) (pid c2s s2c : Int) :
    settled ((r.cregInsert true pid c2s s2c).2.mem r.brk) =
      ⟨pid, c2s, s2c, 0, false, false, [], none, none⟩ := by
  rw [sameSettled_of_sameButLinks (sameButLinks_cregInsert pid c2s s2c r) r.brk]
  simp [pushed, inserted, settled]

end SameSettled

/-! ## Steps -/

section Steps

variable {s s' : Server}

/-- What a step does to the records: they stay settled, but for an `AUTH_OK`, and the next
one is allocated by a `HSK_OK` only. -/
structure Recorded (pending : Option ResultBody) (r r' : ClientRegistry) : Prop where
  old : ∀ c < r.brk,
    ((∀ username balance, pending ≠ some (.AUTH_OK c username balance)) ∧
      settled (r'.mem c) = settled (r.mem c)) ∨
    ∃ username balance, pending = some (.AUTH_OK c username balance) ∧
      settled (r'.mem c) = authorised username (settled (r.mem c))
  brk : r'.brk = r.brk ∨ ∃ pid c2s s2c, pending = some (.HSK_OK pid c2s s2c) ∧
    r'.brk = r.brk + 1 ∧
    settled (r'.mem r.brk) = ⟨pid, c2s, s2c, 0, false, false, [], none, none⟩

/-- A step that settles nothing, with no login to settle. -/
theorem recorded_of_sameSettled {pending : Option ResultBody} {r r' : ClientRegistry}
    (hp : ∀ c username balance, pending ≠ some (.AUTH_OK c username balance))
    (h : SameSettled r r') (hbrk : r'.brk = r.brk) : Recorded pending r r' :=
  ⟨fun c _ => Or.inl ⟨hp c, h c⟩, Or.inl hbrk⟩

theorem recorded_none {r r' : ClientRegistry} (h : SameSettled r r') (hbrk : r'.brk = r.brk) :
    Recorded none r r' :=
  recorded_of_sameSettled (fun c username balance h => by cases h) h hbrk

/-- A rejection leaves the record as it was. -/
theorem recorded_reject (c : ClientRef) (stamp : Nat) (msg : CStr) (s : Server)
    {pending : Option ResultBody}
    (hp : ∀ c username balance, pending ≠ some (.AUTH_OK c username balance)) :
    Recorded pending s.reg (s.reject c stamp msg).reg := by
  refine recorded_of_sameSettled hp ?_ (by simp [Server.reject])
  rw [reg_reject]
  exact (((sameSettled_release s.reg c).trans (sameSettled_touch _ c)).trans
    (sameSettled_touch _ c)).trans (sameSettled_remove _ c)

/-- A login settles the name and the flag, in the record of its client. -/
theorem recorded_authDone (c : ClientRef) (stamp : Nat) (username : CStr) (balance : Int)
    (s : Server) :
    Recorded (some (.AUTH_OK c username balance)) s.reg
      (s.authDone c stamp username balance).reg := by
  refine ⟨fun d _ => ?_, Or.inl (by simp [Server.authDone])⟩
  -- reading and releasing settle nothing
  have hrel : SameSettled s.reg ((s.touch c).release c).reg :=
    (sameSettled_touch s.reg c).trans (sameSettled_release _ c)
  by_cases hd : d = c
  · subst hd
    refine Or.inr ⟨username, balance, rfl, ?_⟩
    rw [← hrel d]
    simp [Server.authDone, Server.modify, Server.send, Server.touch, settled, authorised]
  · refine Or.inl ⟨fun u b h => ?_, ?_⟩
    · cases h
      exact hd rfl
    · rw [← hrel d]
      simp [Server.authDone, Server.modify, Server.send, Server.touch, hd]

/-- A handshake settles the record that it makes. -/
theorem recorded_handshakeDone (ins : Inserts) (pid c2s s2c : Int) (s : Server) :
    Recorded (some (.HSK_OK pid c2s s2c)) s.reg (s.handshakeDone ins pid c2s s2c).reg := by
  have hbrk := brk_withClient pid c2s s2c s
  have hno : ∀ c username balance, some (ResultBody.HSK_OK pid c2s s2c) ≠
      some (.AUTH_OK c username balance) := fun c username balance h => by cases h
  have hnew : Recorded (some (.HSK_OK pid c2s s2c)) s.reg (withClient pid c2s s2c s).reg :=
    ⟨fun c hc => Or.inl ⟨hno c, settled_insert s.reg pid c2s s2c hc⟩,
      Or.inr ⟨pid, c2s, s2c, rfl, hbrk, settled_insert_new s.reg pid c2s s2c⟩⟩
  rcases handshakeDone_cases ins pid c2s s2c s with heq | ⟨slots, ⟨-, heq⟩ | ⟨-, heq⟩⟩
  · rw [heq]
    exact recorded_of_sameSettled hno (.refl _) rfl
  · rw [heq]
    exact hnew
  · -- the removal keeps what the insertion has made
    have hrem : SameSettled (withClient pid c2s s2c s).reg
        ({ withClient pid c2s s2c s with slots }.cregRemove s.reg.brk).reg :=
      sameSettled_remove _ _
    rw [heq]
    refine ⟨fun c hc => Or.inl ⟨hno c, (hrem c).trans (settled_insert s.reg pid c2s s2c hc)⟩,
      Or.inr ⟨pid, c2s, s2c, rfl, ?_, (hrem _).trans (settled_insert_new s.reg pid c2s s2c)⟩⟩
    rw [brk_cregRemove]
    exact hbrk

/-- So each result settles what it is about. -/
theorem recorded_handleResult (ins : Inserts) (res : TaskResult) (s : Server) :
    Recorded (some res.body) s.reg (s.handleResult ins res).reg := by
  rcases res with ⟨stamp, body⟩
  cases body with
  | HSK_OK pid c2s s2c => exact recorded_handshakeDone ins pid c2s s2c s
  | AUTH_OK c username balance => exact recorded_authDone c stamp username balance s
  | AUTH_NO c => exact recorded_reject c stamp _ s fun _ _ _ h => by cases h
  | AUTH_UN c => exact recorded_reject c stamp _ s fun _ _ _ h => by cases h
  | RPC_DONE c rv =>
    refine recorded_of_sameSettled (fun _ _ _ h => by cases h) ?_ (by simp [Server.handleResult])
    exact (sameSettled_release s.reg c).trans (sameSettled_touch _ c)

/-- The result that a step handles. -/
def pending (lbl : ServerLbl) (s : Server) : Option ResultBody :=
  match lbl with
  | .deliver _ => s.pipe.head?.map TaskResult.body
  | _ => none

/-- And no other step settles anything. -/
theorem recorded_step {cfg : Config} {lbl : ServerLbl} (hs : step cfg lbl s = some s')
    (hwired : Wired cfg s) : Recorded (pending lbl s) s.reg s'.reg := by
  -- only the step that handles a result has something to record
  cases hwired.step_moves hs with
  | poll | ignored | dequeue => exact recorded_none (.refl _) rfl
  | handshake pid alloc => cases alloc <;> exact recorded_none (.refl _) rfl
  | request i cmd alloc c =>
    have hacq : SameSettled s.reg (acquired c s).reg :=
      sameSettled_modify s.reg c (f := fun a => { a with refcount := a.refcount + 1 })
        fun _ => rfl
    cases alloc <;> exact recorded_none hacq (brk_modify c _ s)
  | disconnect i cmd alloc c =>
    exact recorded_none (sameSettled_remove s.reg c) (brk_cregRemove c _)
  | hangup i c => exact recorded_none (sameSettled_remove s.reg c) (brk_cregRemove c _)
  | posts w env task =>
    have hafter := sameButLinks_afterTask w env task s
    rw [postResult_eq]
    split <;> exact recorded_none (sameSettled_of_sameButLinks hafter) hafter.brk
  | silent w env task =>
    have hafter := sameButLinks_afterTask w env task s
    exact recorded_none (sameSettled_of_sameButLinks hafter) hafter.brk
  | deliver ins res pipe hp =>
    rw [pending, hp]
    exact recorded_handleResult ins res { s with
      pipe
      history := { s.history with handled := s.history.handled ++ [res] } }

/-- Who is logged in stays logged in. -/
theorem Recorded.loggedIn {pending : Option ResultBody} {r r' : ClientRegistry}
    (h : Recorded pending r r') {c : ClientRef} (hc : c < r.brk)
    (hin : (r.mem c).loggedIn = true) : (r'.mem c).loggedIn = true := by
  rcases h.old c hc with ⟨-, heq⟩ | ⟨username, balance, -, heq⟩
  · rw [loggedIn_of_settled heq, hin]
  · simpa [settled, authorised] using congrArg ActiveClient.loggedIn heq

/-- The client a result logs in. -/
def authOk : ResultBody → Option ClientRef
  | .AUTH_OK client _ _ => some client
  | .AUTH_NO _ => none
  | .AUTH_UN _ => none
  | .HSK_OK _ _ _ => none
  | .RPC_DONE _ _ => none

/-- An `AUTH_OK` logs its client in. -/
theorem Recorded.authorised_loggedIn {r r' : ClientRegistry} {body : ResultBody} {c : ClientRef}
    (h : Recorded (some body) r r') (hauth : c ∈ authOk body) (hc : c < r.brk) :
    (r'.mem c).loggedIn = true := by
  cases body with
  | AUTH_OK d username balance =>
    obtain rfl : d = c := Option.some.inj hauth
    rcases h.old d hc with ⟨hno, -⟩ | ⟨username, balance, -, heq⟩
    · exact absurd rfl (hno username balance)
    · simpa [settled, authorised] using congrArg ActiveClient.loggedIn heq
  | _ => cases hauth

/-- No record goes away. -/
theorem Recorded.brk_le {pending : Option ResultBody} {r r' : ClientRegistry}
    (h : Recorded pending r r') : r.brk ≤ r'.brk := by
  rcases h.brk with heq | ⟨pid, c2s, s2c, -, heq, -⟩
  · exact heq.ge
  · exact heq ▸ Nat.le_succ _

end Steps

end AnimateServer.Records
