import AnimateServer.Verify.Dispatch
import AnimateServer.Verify.LoginIdentity

/-!
# Finding a user by name

The name of a `Login` goes from the request into its task, from there into the result and from
there into the client's record, where `share_canvas` looks for the name that it is given. The
result and the record have room for `MAX_USERNAME_LEN - 1` bytes of it; the lookup in
`users.txt` and the comparison take the whole name.
-/

namespace AnimateServer.UserSearch

open CLib Links Server ServerSteps ServerInv Descriptors Records InFlight Transition Accounting
  Departed LoginIdentity

/-! ### Names -/

/-- The name fits into a record, or what fits of it is no single word. -/
def Fits (name : CStr) : Prop :=
  name.length ≤ MAX_USERNAME_LEN - 1 ∨ ' ' ∈ strncpyBuf MAX_USERNAME_LEN name

instance (name : CStr) : Decidable (Fits name) := by
  unfold Fits
  exact inferInstance

/-- Exactly then it matters to no single word that the name is cut. -/
theorem fits_iff {name : CStr} :
    Fits name ↔ ∀ user, ' ' ∉ user → (strncpyBuf MAX_USERNAME_LEN name = user ↔ name = user) := by
  constructor
  · -- a short name is not cut; a name with a blank is no name share can ask for
    rintro (hlen | hspace) user huser
    · rw [strncpyBuf, List.take_of_length_le hlen]
    · constructor
      · rintro rfl
        exact absurd hspace huser
      · rintro rfl
        exact absurd (List.mem_of_mem_take hspace) huser
  · intro h
    by_contra hno
    rcases not_or.mp hno with ⟨hlong, hword⟩
    have heq := (h _ hword).mp rfl
    rw [heq] at hlong
    exact hlong (List.length_take_le _ _)

/-- A first cut to a longer buffer changes nothing. -/
theorem strncpyBuf_strncpyBuf {m n : Nat} (h : m ≤ n) (name : CStr) :
    strncpyBuf m (strncpyBuf n name) = strncpyBuf m name := by
  unfold strncpyBuf
  rw [List.take_take, Nat.min_eq_left (Nat.sub_le_sub_right h 1)]

/-- A name that fits after the copy fits. -/
theorem fits_strncpyBuf {name : CStr} (h : Fits (strncpyBuf MAX_RPC_BUF_LEN name)) :
    Fits name := by
  rcases h with hlen | hspace
  · left
    unfold strncpyBuf MAX_RPC_BUF_LEN MAX_USERNAME_LEN at *
    rw [List.length_take] at hlen
    omega
  · right
    rwa [strncpyBuf_strncpyBuf (by decide)] at hspace

/-- A token is a single word. -/
theorem strtokR_word {s token : CStr} (h : (strtokR s).1 = some token) : ' ' ∉ token := by
  unfold strtokR at h
  dsimp only at h
  split at h
  · cases h
  · obtain rfl := Option.some.inj h
    intro hmem
    have hall := List.all_eq_true.mp List.all_takeWhile ' ' hmem
    exact absurd hall (by decide)

/-- The name of the user is a single token. -/
theorem parseShare_word {request user : CStr} {cid : Int}
    (h : parseShare request = .ok (cid, user)) : ' ' ∉ user := by
  unfold parseShare at h
  dsimp only at h
  split at h
  · rename_i hcid huser
    split at h
    · split at h
      · cases h
      · cases h
        exact strtokR_word huser
    · cases h
  · cases h

/-! ### The history of the logins -/

/-- What the requests said behind `Login `, by their number, and the name of the last `Login`
of each client that the main loop has let in. -/
structure Logins where
  asked : Nat → CStr
  current : ClientRef → Option CStr

def noLogins : Logins := ⟨fun _ => [], fun _ => none⟩

/-- A request is noted under the number that its task gets, and the client of an `AUTH_OK` is
logged in with the name of the request that is answered. -/
def noteLogin (lbl : ServerLbl) (s _s' : Server) (log : Logins) : Logins :=
  match lbl with
  | .request _ cmd _ =>
    { log with asked := Function.update log.asked s.history.stamp (cmd.drop 6) }
  | .deliver _ =>
    match s.pipe.head? with
    | some ⟨stamp, .AUTH_OK client _ _⟩ =>
      { log with current := Function.update log.current client (some (log.asked stamp)) }
    | _ => log
  | _ => log

section NoteLogin

variable {lbl : ServerLbl} {s s' : Server} {log : Logins}

/-- Older requests are not touched. -/
theorem asked_noteLogin {n : Nat} (h : n < s.history.stamp) :
    (noteLogin lbl s s' log).asked n = log.asked n := by
  cases lbl with
  | request i cmd alloc => exact Function.update_of_ne (Nat.ne_of_lt h) _ _
  | deliver ins =>
    unfold noteLogin
    dsimp only
    split <;> rfl
  | _ => rfl

/-- A request that logs in asks for the text behind `Login `. -/
theorem asked_request (i : Nat) (cmd : CStr) (alloc : Bool) :
    (noteLogin (.request i cmd alloc) s s' log).asked s.history.stamp = cmd.drop 6 :=
  Function.update_self _ _ _

/-- Only an accepted login changes who a client is. -/
theorem current_noteLogin {c : ClientRef}
    (h : ∀ username balance, pending lbl s ≠ some (.AUTH_OK c username balance)) :
    (noteLogin lbl s s' log).current c = log.current c := by
  cases lbl with
  | deliver ins =>
    unfold noteLogin
    dsimp only
    split
    · rename_i stamp client username balance hp
      refine Function.update_of_ne ?_ _ _
      rintro rfl
      exact h username balance (by rw [pending, hp]; rfl)
    · rfl
  | _ => rfl

/-- It makes the client the one that it has asked to be. -/
theorem current_authOk (s' : Server) (log : Logins)
    {c : ClientRef} {username : CStr} {balance : Int}
    (h : pending lbl s = some (.AUTH_OK c username balance)) :
    ∃ r ∈ s.pipe, r.body = .AUTH_OK c username balance ∧
      (noteLogin lbl s s' log).current c = some (log.asked r.stamp) := by
  cases lbl with
  | deliver ins =>
    rcases Option.map_eq_some_iff.mp h with ⟨⟨stamp, body⟩, hr, hbody⟩
    obtain rfl : body = .AUTH_OK c username balance := hbody
    refine ⟨_, List.mem_of_mem_head? hr, rfl, ?_⟩
    simp only [noteLogin, hr]
    exact Function.update_self _ _ _
  | _ => cases h

end NoteLogin

/-- The name that a task looks up in `users.txt`. -/
def loginName (t : Task) : Option CStr :=
  match t.type, t.info with
  | .AUTHORISE, .rpc _ request => some request
  | _, _ => none

/-- The names that are let in fit. -/
def LoginsFit : ServerLbl → Server → Prop
  | .finish w env, s => ∀ t ∈ s.workers[w]?.join, ∀ name ∈ loginName t,
      (usertxtGetBalance env.usertxt name).1 = .AUTH_OK → Fits name
  | _, _ => True

/-! ### From the request to the record -/

/-- A record has the name of the last `Login` of its client, as far as it fits. -/
def Holds (name : Option CStr) (a : ActiveClient) : Prop :=
  match name with
  | none => a.loggedIn = false
  | some name => a.loggedIn = true ∧ a.username = strncpyBuf MAX_USERNAME_LEN name ∧ Fits name

/-- The name of a request stays with its task, its result and the record. -/
structure Named (s : Server) (log : Logins) : Prop where
  tasks : ∀ t ∈ s.queue ++ s.running, ∀ name ∈ loginName t,
    name = strncpyBuf MAX_RPC_BUF_LEN (log.asked t.stamp)
  results : ∀ r ∈ s.pipe, r.stamp < s.history.stamp ∧
    ∀ c username balance, r.body = .AUTH_OK c username balance →
      username = strncpyBuf MAX_USERNAME_LEN (log.asked r.stamp) ∧ Fits (log.asked r.stamp)
  records : ∀ c < s.reg.brk, Holds (log.current c) (s.reg.mem c)
  fresh : ∀ c, s.reg.brk ≤ c → log.current c = none

/-- Who a client is depends on its settled fields. -/
theorem holds_of_settled {name : Option CStr} {a b : ActiveClient} (h : Holds name a)
    (heq : settled b = settled a) : Holds name b := by
  unfold Holds at *
  rw [loggedIn_of_settled heq, username_of_settled heq]
  exact h

/-- At the start nobody is anybody. -/
theorem named_init (cfg : Config) : Named (init cfg) noLogins where
  tasks := fun t ht => by simp [init, Server.running] at ht
  results := fun r hr => by simp [init] at hr
  records := fun c hc => by simp [init, ClientRegistry.init] at hc
  fresh := fun _ _ => rfl

section Steps

variable {cfg : Config} {lbl : ServerLbl} {s s' : Server} {log : Logins}

/-- A request adds its own task to the work at most. -/
theorem acquireAndEnqueue_work (alloc : Bool) (type : TaskType) (request : CStr)
    (client : ClientRef) (s : Server) {t : Task}
    (ht : t ∈ (s.acquireAndEnqueue alloc type request client).2.queue ++
      (s.acquireAndEnqueue alloc type request client).2.running) :
    t ∈ s.queue ++ s.running ∨ t = newTask s.history.stamp type 0 request client := by
  unfold acquireAndEnqueue at ht
  split at ht
  · exact Or.inl ht
  · cases alloc with
    | false => exact Or.inl ht
    | true =>
      have hmem :
          t ∈ (s.queue ++ [newTask s.history.stamp type 0 request client]) ++ s.running := ht
      simp only [List.mem_append, List.mem_singleton] at hmem ⊢
      tauto

/-- The task of a `Login` carries what follows. -/
theorem request_login {i : Nat} {cmd : CStr} {alloc : Bool} (hs : s.request i cmd alloc = some s')
    (hlogin : IsLogin cmd) {t : Task} (ht : t ∈ s'.queue ++ s'.running) :
    t ∈ s.queue ++ s.running ∨ ∃ c, t = newTask s.history.stamp .AUTHORISE 0 (cmd.drop 6) c := by
  rcases request_cases hs with ⟨c, -, rfl⟩
  -- the removal behind a dead client's request leaves queue and workers alone
  have hsame : t ∈ (s.handleCommand alloc c cmd).2.queue ++
      (s.handleCommand alloc c cmd).2.running := by
    split at ht
    · have hwork := sameWork_removeAt i c (s.handleCommand alloc c cmd).2
      rwa [hwork.queue, hwork.running] at ht
    · exact ht
  have hname : strncmpEq cmd "Login ".toList 6 = true := hlogin
  unfold handleCommand at hsame
  rw [if_pos hname] at hsame
  dsimp only at hsame
  split at hsame
  · exact Or.inl hsame
  · rcases acquireAndEnqueue_work alloc .AUTHORISE (cmd.drop 6) c (s.touch c) hsame with
      hold | hnew
    · exact Or.inl hold
    · exact Or.inr ⟨c, hnew⟩

/-- Numbers are given out in order, and a result in the pipe has been there before or a worker
has just posted it. -/
theorem results_step (hs : step cfg lbl s = some s') (hwired : Wired cfg s) :
    s.history.stamp ≤ s'.history.stamp ∧ ∀ r ∈ s'.pipe, r ∈ s.pipe ∨
      ∃ w env task, lbl = .finish w env ∧ s.workers[w]? = some (some task) ∧
        (workerRoutine env s.reg s.world task).2 = .posts r.body ∧ r.stamp = task.stamp := by
  -- the steps that leave the queue, the workers and the pipe alone
  have hquiet : ∀ {t}, SameWork s t →
      s.history.stamp ≤ t.history.stamp ∧ ∀ r ∈ t.pipe, r ∈ s.pipe ∨
        ∃ w env task, lbl = .finish w env ∧ s.workers[w]? = some (some task) ∧
          (workerRoutine env s.reg s.world task).2 = .posts r.body ∧ r.stamp = task.stamp :=
    fun hwork => ⟨hwork.stamp.ge, fun r hr => Or.inl (hwork.pipe ▸ hr)⟩
  cases hwired.step_moves hs with
  | poll | dequeue | silent => exact ⟨Nat.le_refl _, fun r hr => Or.inl hr⟩
  | ignored => exact hquiet (.refl _)
  | handshake pid alloc => cases alloc <;> exact ⟨Nat.le_succ _, fun r hr => Or.inl hr⟩
  | request i cmd alloc => cases alloc <;> exact ⟨Nat.le_succ _, fun r hr => Or.inl hr⟩
  | disconnect i cmd alloc c => exact hquiet (sameWork_removeAt i c s)
  | hangup i c => exact hquiet (sameWork_removeAt i c s)
  | posts w env task body hw hout =>
    rw [postResult_eq]
    split
    · refine ⟨Nat.le_refl _, fun r hr => ?_⟩
      rcases List.mem_append.mp hr with hold | hnew
      · exact Or.inl hold
      · obtain rfl := List.mem_singleton.mp hnew
        exact Or.inr ⟨w, env, task, rfl, hw, hout, rfl⟩
    · exact ⟨Nat.le_refl _, fun r hr => Or.inl hr⟩
  | deliver ins res pipe hp =>
    have hwork := sameWork_handleResult ins res { s with
      pipe
      history := { s.history with handled := s.history.handled ++ [res] } }
    refine ⟨hwork.stamp.ge, fun r hr => Or.inl ?_⟩
    rw [hwork.pipe] at hr
    exact hp ▸ List.mem_cons_of_mem _ hr

/-- The stamps that are given out are in the past. -/
theorem work_stamp_lt (h : Stamps.Stamped s) {t : Task} (ht : t ∈ s.queue ++ s.running) :
    t.stamp < s.history.stamp := by
  rcases List.mem_append.mp ht with ht | ht
  · exact h.below t (h.suffix.subset ht)
  · exact h.running_below ht

/-- Only a login asks for a name. -/
theorem type_of_loginName {t : Task} {name : CStr} (h : name ∈ loginName t) :
    t.type = .AUTHORISE ∧ ∃ c, t.info = .rpc c name := by
  unfold loginName at h
  split at h
  · rename_i c request htype hinfo
    obtain rfl := Option.some.inj h
    exact ⟨htype, c, hinfo⟩
  · cases h

/-- A new `Login` task has its name from the request. -/
theorem tasks_step (hs : step cfg lbl s = some s') (hwired : Wired cfg s)
    (hstamped : Stamps.Stamped s) (h : Named s log) {t : Task} (ht : t ∈ s'.queue ++ s'.running)
    {name : CStr} (hname : name ∈ loginName t) :
    name = strncpyBuf MAX_RPC_BUF_LEN ((noteLogin lbl s s' log).asked t.stamp) := by
  have hquiet : t ∈ s.queue ++ s.running →
      name = strncpyBuf MAX_RPC_BUF_LEN ((noteLogin lbl s s' log).asked t.stamp) := by
    intro hold
    rw [asked_noteLogin (work_stamp_lt hstamped hold)]
    exact h.tasks t hold name hname
  rcases work_step hs hwired ht with hold | ⟨hacc, -⟩
  · exact hquiet hold
  · rcases type_of_loginName hname with ⟨htype, c, hinfo⟩
    -- a new task: only a Login carries a name, and it is noted under the new stamp
    cases hacc with
    | handshake pid => cases htype
    | @request _ i cmd d type args hslot hlt hyes hleads =>
      rw [type_newTask] at htype
      rcases request_login hs (hleads.authorise_iff.mp htype) ht with hold | ⟨d', heq⟩
      · exact hquiet hold
      · rw [heq] at hname ⊢
        have hstamp : (newTask s.history.stamp .AUTHORISE 0 (cmd.drop 6) d').stamp =
            s.history.stamp := rfl
        rw [hstamp, asked_request]
        exact (Option.some.inj hname).symm

/-- An `AUTH_OK` comes from a name that is in `users.txt`, and carries the beginning of it. -/
theorem authOk_posted {env : Env} {r : ClientRegistry} {w : World} {task : Task} {c : ClientRef}
    {username : CStr} {balance : Int}
    (h : (workerRoutine env r w task).2 = .posts (.AUTH_OK c username balance)) :
    ∃ request, task.type = .AUTHORISE ∧ task.info = .rpc c request ∧
      (usertxtGetBalance env.usertxt request).1 = .AUTH_OK ∧
      username = strncpyBuf MAX_USERNAME_LEN request := by
  rcases workerRoutine_cases env r w task with ⟨-, -, hs | ⟨pid, c2s, s2c, hp⟩⟩ |
    ⟨client, request, hinfo, ⟨ht, heq⟩ | ⟨-, heq⟩ | ⟨-, -, hu | ⟨rv, hp⟩⟩⟩
  · rw [hs] at h
    cases h
  · rw [hp] at h
    cases h
  · -- only authorise posts AUTH_OK
    rw [heq] at h
    have hbody : authorise env client request = .AUTH_OK c username balance := by
      injection h
    unfold authorise at hbody
    split at hbody
    · rename_i balance' hok
      cases hbody
      exact ⟨request, ht, hinfo, by rw [hok], rfl⟩
    · cases hbody
    · cases hbody
  · rw [heq] at h
    cases h
  · rw [hu] at h
    cases h
  · rw [hp] at h
    cases h

/-- A result that lets a client in carries the name that was asked for, cut to the buffer. -/
theorem results_named (hs : step cfg lbl s = some s') (hok : LoginsFit lbl s)
    (hwired : Wired cfg s) (hstamped : Stamps.Stamped s) (h : Named s log) {r : TaskResult}
    (hr : r ∈ s'.pipe) : r.stamp < s'.history.stamp ∧
    ∀ c username balance, r.body = .AUTH_OK c username balance →
      username = strncpyBuf MAX_USERNAME_LEN ((noteLogin lbl s s' log).asked r.stamp) ∧
      Fits ((noteLogin lbl s s' log).asked r.stamp) := by
  rcases results_step hs hwired with ⟨hle, hmoved⟩
  rcases hmoved r hr with hold | ⟨w, env, task, rfl, hw, hpost, heq⟩
  · rcases h.results r hold with ⟨hlt, hbody⟩
    rw [asked_noteLogin hlt]
    exact ⟨Nat.lt_of_lt_of_le hlt hle, hbody⟩
  · have hmem : task ∈ s.queue ++ s.running := List.mem_append_right _ (mem_running hw)
    have hlt := work_stamp_lt hstamped hmem
    rw [heq]
    refine ⟨Nat.lt_of_lt_of_le hlt hle, fun c username balance hbody => ?_⟩
    rw [asked_noteLogin hlt]
    rw [hbody] at hpost
    -- a result of this step: its name is the task's, cut to the field
    rcases authOk_posted hpost with ⟨request, htype, hinfo, hok', rfl⟩
    have hname : request ∈ loginName task := by simp [loginName, htype, hinfo]
    have hasked := h.tasks task hmem request hname
    have hfits := hok task (by simp [hw]) request hname hok'
    rw [hasked] at hfits ⊢
    exact ⟨strncpyBuf_strncpyBuf (by decide) _, fits_strncpyBuf hfits⟩

/-- The record of a client that is let in has the name of the request that is answered. -/
theorem records_named (hs : step cfg lbl s = some s') (hwired : Wired cfg s) (h : Named s log)
    {c : ClientRef} (hc : c < s'.reg.brk) :
    Holds ((noteLogin lbl s s' log).current c) (s'.reg.mem c) := by
  have hrecorded := recorded_step hs hwired
  by_cases hlt : c < s.reg.brk
  · rcases hrecorded.old c hlt with ⟨hno, heq⟩ | ⟨username, balance, hpending, heq⟩
    · rw [current_noteLogin hno]
      exact holds_of_settled (h.records c hlt) heq
    · rcases current_authOk s' log hpending with ⟨r, hr, hbody, hcurrent⟩
      rcases (h.results r hr).2 c username balance hbody with ⟨hname, hfits⟩
      rw [hcurrent]
      refine ⟨?_, ?_, hfits⟩
      · simpa [settled, authorised] using congrArg ActiveClient.loggedIn heq
      · have hcut : (s'.reg.mem c).username = strncpyBuf MAX_USERNAME_LEN username := by
          simpa [settled, authorised] using congrArg ActiveClient.username heq
        rw [hcut, hname, strncpyBuf_strncpyBuf (Nat.le_refl _)]
  · -- a new record
    have hge := Nat.le_of_not_lt hlt
    rcases hrecorded.brk with hsame | ⟨pid, c2s, s2c, hpending, hbrk, heq⟩
    · exact absurd (hsame ▸ hc) hlt
    · rw [hbrk] at hc
      obtain rfl : c = s.reg.brk := Nat.le_antisymm (Nat.le_of_lt_succ hc) hge
      rw [current_noteLogin (fun username balance hauth => by rw [hpending] at hauth; cases hauth),
        h.fresh _ (Nat.le_refl _)]
      exact (loggedIn_of_settled (b := ⟨pid, c2s, s2c, 0, false, false, [], none, none⟩) heq)

/-- So every client has the name that it has asked for, and it fits. -/
theorem named_step (hs : step cfg lbl s = some s') (hok : LoginsFit lbl s)
    (hwired : Wired cfg s) (hstamped : Stamps.Stamped s) (h : Named s log) :
    Named s' (noteLogin lbl s s' log) where
  tasks := fun _ ht _ hname => tasks_step hs hwired hstamped h ht hname
  results := fun _ hr => results_named hs hok hwired hstamped h hr
  records := fun _ hc => records_named hs hwired h hc
  fresh := by
    intro c hc
    have hge := Nat.le_trans (recorded_step hs hwired).brk_le hc
    rw [current_noteLogin, h.fresh c hge]
    -- a client in the pipe has a record
    intro username balance hauth
    rcases current_authOk s' log hauth with ⟨r, hr, hbody, -⟩
    have hlt := hwired.base.old.pipe r hr c (by simp [TaskResult.client?, hbody])
    exact Nat.not_lt_of_le hge hlt

end Steps

/-- In every run in which the names fit. -/
theorem reachable_named {cfg : Config} {p : Server × Logins}
    (h : (((system cfg).under LoginsFit).recording noLogins noteLogin).Reachable p) :
    Named p.1 p.2 := by
  have hknown : ∀ p, (((system cfg).under LoginsFit).recording noLogins noteLogin).Reachable p →
      Wired cfg p.1 ∧ Stamps.Stamped p.1 := fun p hr =>
    ⟨reachable_wired hr.of_recording.of_under, Stamps.reachable_stamped hr.of_recording.of_under⟩
  refine h.invariant_with hknown (fun p hp => ?_) (fun lbl p p' hn hknown hi => ?_)
  · rcases hp with ⟨hs, hlog⟩
    rw [show p.1 = init cfg from hs, hlog]
    exact named_init cfg
  · rw [hn.2]
    exact named_step hn.1.2 hn.1.1 hknown.1 hknown.2 hi

/-! ### The search -/

section FindUser

variable {mem : ClientRef → ActiveClient} {user : CStr}

/-- Whom the search finds is logged in under the name. -/
theorem findUser_some : ∀ {n : Nat} {h : Option ClientRef} {c : ClientRef},
    (findUser mem user n h).2 = some c → (mem c).loggedIn = true ∧ (mem c).username = user
  | _, none, c, hc => by simp [findUser] at hc
  | 0, some _, c, hc => by simp [findUser] at hc
  | n + 1, some a, c, hc => by
    unfold findUser at hc
    split at hc
    · rename_i ha
      obtain rfl := Option.some.inj hc
      exact ha
    · exact findUser_some hc

/-- The search goes through the whole list before it gives up. -/
theorem findUser_none : ∀ {l : List ClientRef} {n : Nat} {h : Option ClientRef},
    Chain (fun x => (mem x).next) h l → l.length ≤ n → (findUser mem user n h).2 = none →
      ∀ c ∈ l, ¬((mem c).loggedIn = true ∧ (mem c).username = user)
  | [], _, _, _, _, _ => by simp
  | a :: l, n, h, hl, hn, hnone => by
    rcases hl with ⟨rfl, hl⟩
    obtain ⟨m, rfl⟩ : ∃ m, n = m + 1 := ⟨n - 1, by simp only [List.length_cons] at hn; omega⟩
    unfold findUser at hnone
    split at hnone
    · cases hnone
    · rename_i ha
      intro c hc
      rcases List.mem_cons.mp hc with rfl | hc
      · exact ha
      · exact findUser_none hl (by simpa using hn) hnone c hc

end FindUser

/-- The client that `share_canvas` finds for a name. -/
def found (s : Server) (user : CStr) : Option ClientRef :=
  (findUser s.reg.mem user s.reg.brk s.reg.clients).2

/-- The client is in the registry. -/
def Registered (s : Server) (c : ClientRef) : Prop := c < s.reg.brk ∧ c ∉ s.history.removed

/-- The request asks to share the live canvas in entry `i` with the user of this name. -/
structure AsksFor (request user : CStr) (w : World) (i : Nat) (ce : CanvasEntry) : Prop where
  parsed : ∃ cid, parseShare request = .ok (cid, user) ∧ w.canvases.lookup (toInt cid) = some i
  entry : w.canvases.entryAt i = some ce
  live : ce.ptr ≠ none

/-- It is refused if nobody is found, and if the list of the canvas is full; otherwise who is
found is added to the list. -/
theorem AsksFor.share_cases {request user : CStr} {w : World} {i : Nat} {ce : CanvasEntry}
    (h : AsksFor request user w i ce) (s : Server) :
    found s user = none ∧ (share request s.reg w).retval = some (ret1 (-2)) ∨
      ∃ c, found s user = some c ∧ ((share request s.reg w).retval = some (ret1 (-3)) ∨
        (share request s.reg w).retval = some (ret1 0) ∧
          (share request s.reg w).world =
            { w with canvases :=
              w.canvases.setEntry i { ce with shared := ce.shared ++ [c] } }) := by
  rcases h.parsed with ⟨cid, hparse, hlook⟩
  simp only [share, hparse, hlook, h.entry, if_neg h.live]
  unfold found
  -- nobody of that name, or a list that is full, or the entry is added
  cases hfound : (findUser s.reg.mem user s.reg.brk s.reg.clients).2 with
  | none => exact Or.inl ⟨rfl, rfl⟩
  | some c =>
    refine Or.inr ⟨c, rfl, ?_⟩
    dsimp only
    by_cases hfull : MAX_CLIENTS ≤ ce.shared.length
    · left
      rw [if_pos hfull]
      rfl
    · right
      rw [if_neg hfull]
      exact ⟨rfl, rfl⟩

/-- Whom a `share_canvas` request adds to the list of its canvas is registered and has logged in
with exactly the name it gives, and it answers that the user is not found only if no such client
is registered. -/
structure Findable (s : Server) (log : Logins) : Prop where
  selects : ∀ request user w i ce, AsksFor request user w i ce →
    (share request s.reg w).retval = some (ret1 0) →
    ∃ c, (share request s.reg w).world =
        { w with canvases := w.canvases.setEntry i { ce with shared := ce.shared ++ [c] } } ∧
      Registered s c ∧ log.current c = some user
  notFound : ∀ request user w i ce, AsksFor request user w i ce →
    (share request s.reg w).retval = some (ret1 (-2)) →
    ∀ c, Registered s c → log.current c ≠ some user

section Found

variable {s : Server} {log : Logins} {user : CStr}

/-- Who is found has logged in with the name, as long as the names that are let in fit. -/
theorem registered_of_found (hnamed : Named s log) {cfg : Config} (hwired : Wired cfg s)
    (huser : ' ' ∉ user) {c : ClientRef} (hc : found s user = some c) :
    Registered s c ∧ log.current c = some user := by
  rcases hwired.base.reg.list with ⟨l, hl, hmem⟩
  -- the walk over next visits registered clients only
  have hlisted : c ∈ l :=
    (TableOwners.findUser_spec s.reg.mem user l s.reg.brk s.reg.clients hl.linked.chain
      hl.length_le).2 c hc
  rcases findUser_some hc with ⟨hin, hname⟩
  have hholds := hnamed.records c (hl.bound c hlisted)
  refine ⟨(hmem c).mp hlisted, ?_⟩
  cases hcurrent : log.current c with
  | none =>
    rw [hcurrent, Holds, hin] at hholds
    cases hholds
  | some name =>
    rw [hcurrent] at hholds
    rcases hholds with ⟨-, hcut, hfits⟩
    -- the stored name is the cut one; under Fits no other user shares it
    rw [(fits_iff.mp hfits user huser).mp (hcut ▸ hname)]

/-- The search misses nobody. -/
theorem not_current_of_notFound (hnamed : Named s log) {cfg : Config} (hwired : Wired cfg s)
    (huser : ' ' ∉ user) (hnone : found s user = none) {c : ClientRef} (hc : Registered s c) :
    log.current c ≠ some user := by
  intro hcurrent
  rcases hwired.base.reg.list with ⟨l, hl, hmem⟩
  have hholds := hnamed.records c hc.1
  rw [hcurrent] at hholds
  rcases hholds with ⟨hin, hcut, hfits⟩
  have hname := (fits_iff.mp hfits user huser).mpr rfl
  exact findUser_none hl.linked.chain hl.length_le hnone c ((hmem c).mpr hc)
    ⟨hin, hcut.trans hname⟩

end Found

/-- Users are found as long as the names that are let in fit. -/
theorem users_found {cfg : Config} {s : Server} {log : Logins}
    (h : (((system cfg).under LoginsFit).recording noLogins noteLogin).Reachable (s, log)) :
    Findable s log := by
  have hnamed : Named s log := reachable_named h
  have hwired := reachable_wired h.of_recording.of_under
  constructor
  · intro request user w i ce hasks hok
    rcases hasks.parsed with ⟨cid, hparse, -⟩
    -- retval 0 leaves only the branch that adds the entry
    rcases hasks.share_cases s with ⟨-, hret⟩ | ⟨c, hc, hret | ⟨-, hworld⟩⟩
    · rw [hret] at hok
      cases hok
    · rw [hret] at hok
      cases hok
    · exact ⟨c, hworld, registered_of_found hnamed hwired (parseShare_word hparse) hc⟩
  · intro request user w i ce hasks hno c hc
    rcases hasks.parsed with ⟨cid, hparse, -⟩
    -- retval -2 leaves only the branch that finds nobody
    rcases hasks.share_cases s with ⟨hnone, -⟩ | ⟨d, -, hret | ⟨hret, -⟩⟩
    · exact not_current_of_notFound hnamed hwired (parseShare_word hparse) hnone hc
    · rw [hret] at hno
      cases hno
    · rw [hret] at hno
      cases hno

instance (lbl : ServerLbl) (s : Server) : Decidable (LoginsFit lbl s) :=
  match lbl with
  | .finish w env => inferInstanceAs (Decidable (∀ t ∈ s.workers[w]?.join,
      ∀ name ∈ loginName t, (usertxtGetBalance env.usertxt name).1 = .AUTH_OK → Fits name))
  | .poll _ | .handshake _ _ | .request _ _ _ | .hangup _ | .dequeue _ | .deliver _ =>
    inferInstanceAs (Decidable True)

/-- The entry of the first canvas that client 0 makes in a run. -/
def ownCanvas : CanvasEntry where
  ptr := some 7
  canvasId := 0
  width := 10
  height := 10
  owner := some 0
  shared := []

/-- Bob has logged in, and a canvas can be shared with him. -/
theorem users_found_bob :
    ∃ s log, (share "0 bob".toList s.reg s.world).retval = some (ret1 0) ∧
      ∃ c, Registered s c ∧ log.current c = some "bob".toList ∧ Findable s log := by
  obtain ⟨p, hp, hb⟩ := exists_reachable_of_run (init oneWorker, noLogins)
    (recordStep noteLogin (guarded LoginsFit (step oneWorker)))
    (connection ++ exchange 2 "Login bob" twoUsers ++
      exchange 2 "create_canvas 10 10 0" (Env.allSucceed 7))
    (fun p => decide ((share "0 bob".toList p.1.reg p.1.world).retval = some (ret1 0) ∧
      p.1.world.canvases.lookup (toInt 0) = some 0 ∧
      p.1.world.canvases.entryAt 0 = some ownCanvas)) (by decide)
  rcases of_decide_eq_true hb with ⟨hret, hlook, hentry⟩
  rw [← recording_ofStep, ← under_ofStep] at hp
  -- client 0 owns canvas 0, the one that is shared
  have hasks : AsksFor "0 bob".toList "bob".toList p.1.world 0 ownCanvas :=
    ⟨⟨0, by decide, hlook⟩, hentry, by decide⟩
  rcases (users_found hp).selects _ _ _ _ _ hasks hret with ⟨c, -, hreg, hcurrent⟩
  exact ⟨p.1, p.2, hret, c, hreg, hcurrent, users_found hp⟩

/-- A name for which a record has no room. -/
def longName : CStr := List.replicate 32 'a'

/-- Two users, one of whom has the other one's name but for the last letter. -/
def alikeUsers : CStr := longName ++ " 10\n".toList ++ longName.tail ++ " 20\n".toList

/-- Workers that find both in `users.txt`. -/
def alikeEnv : Env := { Env.allSucceed 7 with usertxt := some alikeUsers }

/-- Who logs in with the long name and has a canvas is not found by it, but by the other name. -/
theorem long_name_not_found :
    ∃ s log, ((system oneWorker).recording noLogins noteLogin).Reachable (s, log) ∧
      Registered s 0 ∧ log.current 0 = some longName ∧
      (usertxtGetBalance (some alikeUsers) longName).1 = .AUTH_OK ∧
      (share ("0 ".toList ++ longName) s.reg s.world).retval = some (ret1 (-2)) ∧
      (usertxtGetBalance (some alikeUsers) longName.tail).1 = .AUTH_OK ∧
      (share ("0 ".toList ++ longName.tail) s.reg s.world).retval = some (ret1 0) ∧
      (share ("0 ".toList ++ longName.tail) s.reg s.world).world.canvases.entryAt 0 =
        some { ownCanvas with shared := [0] } ∧ ¬Findable s log := by
  obtain ⟨p, hp, hb⟩ := exists_reachable_of_run (init oneWorker, noLogins)
    (recordStep noteLogin (step oneWorker))
    (connection ++ .request 2 ("Login ".toList ++ longName) true :: answers alikeEnv ++
      .deliver ⟨true, true, true⟩ :: exchange 2 "create_canvas 10 10 0" (Env.allSucceed 7))
    (fun p => decide ((0 < p.1.reg.brk ∧ 0 ∉ p.1.history.removed) ∧
      p.2.current 0 = some longName ∧
      (share ("0 ".toList ++ longName) p.1.reg p.1.world).retval = some (ret1 (-2)) ∧
      (share ("0 ".toList ++ longName.tail) p.1.reg p.1.world).retval = some (ret1 0) ∧
      (share ("0 ".toList ++ longName.tail) p.1.reg p.1.world).world.canvases.entryAt 0 =
        some { ownCanvas with shared := [0] } ∧
      p.1.world.canvases.lookup (toInt 0) = some 0 ∧
      p.1.world.canvases.entryAt 0 = some ownCanvas)) (by decide)
  rcases of_decide_eq_true hb with ⟨hreg, hcurrent, hnone, hother, hnew, hlook, hentry⟩
  rw [← recording_ofStep] at hp
  -- the request asks for the name that logged in, of which the record keeps all but a letter
  have hasks : AsksFor ("0 ".toList ++ longName) longName p.1.world 0 ownCanvas :=
    ⟨⟨0, by decide, hlook⟩, hentry, by decide⟩
  refine ⟨p.1, p.2, hp, hreg, hcurrent, by decide, hnone, by decide, hother, hnew, ?_⟩
  intro hfind
  exact hfind.notFound _ _ _ _ _ hasks hnone 0 hreg hcurrent

end AnimateServer.UserSearch
