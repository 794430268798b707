import AnimateServer.Verify.Departed
import AnimateServer.Verify.InFlight
import AnimateServer.Verify.LoginGate

/-!
# Who a client is logged in as

`handle_command` refuses a `Login` of a client with `logged_in` set, and
`logged_in` is set when the result of an earlier one is handled. In between,
further `Login` requests are accepted. As long as none of these is under way when
an `AUTH_OK` of the client is handled, a client with a `Login` under way is not
logged in, and the identity of a client is settled once.
-/

namespace AnimateServer.LoginIdentity

open CLib Server ServerSteps ServerInv Descriptors Records InFlight Transition Accounting
  Departed

/-! ## Authorisations under way -/

/-- The client a task authorises. -/
def taskLogin (t : Task) : Option ClientRef := if t.type = .AUTHORISE then t.client? else none

/-- The client a result authorises or rejects. -/
def resultLogin : ResultBody → Option ClientRef
  | .AUTH_OK client _ _ => some client
  | .AUTH_NO client => some client
  | .AUTH_UN client => some client
  | .HSK_OK _ _ _ => none
  | .RPC_DONE _ _ => none

/-- The clients whose `Login` is queued, runs, or has a result in the pipe. -/
def logins (s : Server) : List ClientRef := inFlight taskLogin resultLogin s

/-- An `AUTH_OK` is handled only if it is the one `Login` of its client under way. -/
def SoleLogin : ServerLbl → Server → Prop
  | .deliver _, s => ∀ res ∈ s.pipe.head?, ∀ c ∈ authOk res.body, (logins s).count c = 1
  | _, _ => True

/-- An `AUTH_OK` is the last authorisation of its client that is handled. -/
def LastLogin (r r' : TaskResult) : Prop := ∀ c ∈ authOk r.body, resultLogin r'.body ≠ some c

/-- A client with a `Login` under way is not logged in; one whose `AUTH_OK` has been handled
is. -/
structure Single (s : Server) : Prop where
  out : ∀ c ∈ logins s, (s.reg.mem c).loggedIn = false
  applied : ∀ r ∈ s.history.handled, ∀ c ∈ authOk r.body,
    c < s.reg.brk ∧ (s.reg.mem c).loggedIn = true
  last : s.history.handled.Pairwise LastLogin

theorem resultLogin_of_authOk {body : ResultBody} {c : ClientRef} (h : c ∈ authOk body) :
    resultLogin body = some c := by
  cases body <;> first | exact h | cases h

/-- What a task leaves in the pipe authorises the client that the task authorises. -/
theorem resultLogin_posted {env : Env} {r : ClientRegistry} {w : World} {task : Task}
    {body : ResultBody} (h : (workerRoutine env r w task).2 = .posts body) :
    resultLogin body = taskLogin task := by
  rcases workerRoutine_cases env r w task with ⟨hnone, -, hs | ⟨pid, c2s, s2c, hp⟩⟩ |
    ⟨client, request, hinfo, ⟨ht, heq⟩ | ⟨-, heq⟩ | ⟨hrpc, -, hu | ⟨rv, hp⟩⟩⟩
  · rw [hs] at h
    cases h
  · rw [hp] at h
    cases h
    simp [resultLogin, taskLogin, hnone]
  · rw [heq] at h
    cases h
    -- all three answers of a login count
    have hbody : resultLogin (authorise env client request) = some client := by
      unfold authorise
      split <;> rfl
    simp [hbody, taskLogin, ht, Task.client?, hinfo]
  · rw [heq] at h
    cases h
  · rw [hu] at h
    cases h
  · rw [hp] at h
    cases h
    simp [resultLogin, taskLogin, hrpc.1]

theorem logins_old {s : Server} (h : Base s) {c : ClientRef} (hc : c ∈ logins s) :
    c < s.reg.brk := by
  rcases List.mem_append.mp hc with hc | hc
  · rcases List.mem_filterMap.mp hc with ⟨t, ht, hlogin⟩
    have hclient : t.client? = some c := by
      unfold taskLogin at hlogin
      split at hlogin
      · exact hlogin
      · cases hlogin
    rcases List.mem_append.mp ht with ht | ht
    · exact h.old.queue t ht c hclient
    · exact h.old.running t ht c hclient
  · rcases List.mem_filterMap.mp hc with ⟨r, hr, hlogin⟩
    refine h.old.pipe r hr c ?_
    rcases r with ⟨stamp, body⟩
    -- the client of a login's result is the result's client
    cases body <;> first | exact hlogin | cases hlogin

/-- A task is accepted: if it is a `Login`, its client is not logged in. -/
theorem taskLogin_accepted {lbl : ServerLbl} {s : Server} {t : Task} (h : Accepts lbl s t)
    {c : ClientRef} (hc : taskLogin t = some c) :
    c < s.reg.brk ∧ (s.reg.mem c).loggedIn = false := by
  cases h with
  | handshake pid => cases hc
  | @request _ i cmd d type args hslot hlt hyes hleads =>
    rw [taskLogin, type_newTask] at hc
    split at hc
    · rename_i ht
      subst ht
      obtain rfl : d = c := Option.some.inj hc
      have hlogin : strncmpEq cmd "Login ".toList 6 = true := hleads.authorise_iff.mp rfl
      rw [Enqueues, if_pos hlogin] at hyes
      exact ⟨hlt, hyes⟩
    · cases hc

/-! ## Steps -/

theorem single_init (cfg : Config) : Single (init cfg) where
  out := fun c hc => by simp [logins, inFlight, init, Server.running] at hc
  applied := fun r hr => by simp [init] at hr
  last := List.Pairwise.nil

/-- Who has a `Login` under way after a step had one before, or has just sent it. -/
theorem out_step {lbl : ServerLbl} {s s' : Server} (hok : SoleLogin lbl s)
    (hflow : Flow taskLogin resultLogin lbl s s') {c : ClientRef} (hc : c ∈ logins s') :
    (c ∈ logins s ∨ c < s.reg.brk ∧ (s.reg.mem c).loggedIn = false) ∧
      ∀ username balance, pending lbl s ≠ some (.AUTH_OK c username balance) := by
  cases hflow with
  | @accepted t hacc hp _ _ hperm =>
    rw [hp]
    refine ⟨?_, fun _ _ h => by cases h⟩
    rcases List.mem_append.mp (hperm.mem_iff.mp hc) with hnew | hold
    · exact Or.inr (taskLogin_accepted hacc (Option.mem_toList.mp hnew))
    · exact Or.inl hold
  | other hp _ hperm =>
    rw [hp]
    exact ⟨Or.inl (hperm.mem_iff.mpr (List.mem_append_right _ hc)), fun _ _ h => by cases h⟩
  | @handled res hres hp _ hperm =>
    refine ⟨Or.inl (hperm.mem_iff.mpr (List.mem_append_right _ hc)), ?_⟩
    intro username balance hpending
    -- another `Login` of `c` would be under way next to the one that is handled
    rw [hp] at hpending
    have hauth : c ∈ authOk res.body := by
      rw [Option.some.inj hpending]
      rfl
    have hone : (logins s).count c = 1 := by
      cases lbl with
      | deliver ins => exact hok res hres c hauth
      | _ => cases hp
    have hcount := hperm.count_eq c
    rw [resultLogin_of_authOk hauth, List.count_append] at hcount
    have hpos : 0 < (inFlight taskLogin resultLogin s').count c := List.count_pos_iff.mpr hc
    have hself : ((some c).toList : List ClientRef).count c = 1 := by simp
    unfold logins at hone
    omega

theorem single_step {cfg : Config} {lbl : ServerLbl} {s s' : Server}
    (hs : step cfg lbl s = some s') (hok : SoleLogin lbl s) (hwired : Wired cfg s)
    (h : Single s) : Single s' := by
  have hrecorded := recorded_step hs hwired
  have hflow : Flow taskLogin resultLogin lbl s s' :=
    inFlight_step hs hwired fun _ _ _ _ _ h => Or.inl (resultLogin_posted h)
  -- an `AUTH_OK` that has been applied stays applied
  have hold : ∀ r ∈ s.history.handled, ∀ c ∈ authOk r.body,
      c < s'.reg.brk ∧ (s'.reg.mem c).loggedIn = true := by
    intro r hr c hauth
    rcases h.applied r hr c hauth with ⟨hlt, hin⟩
    exact ⟨Nat.lt_of_lt_of_le hlt hrecorded.brk_le, hrecorded.loggedIn hlt hin⟩
  -- whose login is under way has not been logged in by this step
  have hout : ∀ c ∈ logins s', (s'.reg.mem c).loggedIn = false := by
    intro c hc
    rcases out_step hok hflow hc with ⟨hbefore, hno⟩
    obtain ⟨hlt, hin⟩ : c < s.reg.brk ∧ (s.reg.mem c).loggedIn = false :=
      hbefore.elim (fun hm => ⟨logins_old hwired.base hm, h.out c hm⟩) id
    rcases hrecorded.old c hlt with ⟨-, heq⟩ | ⟨username, balance, hpending, -⟩
    · rw [loggedIn_of_settled heq, hin]
    · exact absurd hpending (hno username balance)
  cases hflow with
  | accepted _ _ _ hhandled _ => exact ⟨hout, hhandled ▸ hold, hhandled ▸ h.last⟩
  | other _ hhandled _ => exact ⟨hout, hhandled ▸ hold, hhandled ▸ h.last⟩
  | @handled res hres hp hhandled hperm =>
    have hmem : ∀ c, resultLogin res.body = some c → c ∈ logins s := by
      intro c hc
      apply hperm.mem_iff.mpr
      rw [hc]
      exact List.mem_cons_self
    refine ⟨hout, ?_, ?_⟩
    · -- the result handled now is applied by this step
      intro r hr c hauth
      rw [hhandled] at hr
      rcases List.mem_append.mp hr with hr | hr
      · exact hold r hr c hauth
      · obtain rfl := List.mem_singleton.mp hr
        have hlt := logins_old hwired.base (hmem c (resultLogin_of_authOk hauth))
        rw [hp] at hrecorded
        exact ⟨Nat.lt_of_lt_of_le hlt hrecorded.brk_le, hrecorded.authorised_loggedIn hauth hlt⟩
    · -- an earlier `AUTH_OK` cannot have been for the client of this result
      rw [hhandled, List.pairwise_append]
      refine ⟨h.last, List.pairwise_singleton _ _, fun r hr r' hr' c hauth hlogin => ?_⟩
      obtain rfl := List.mem_singleton.mp hr'
      have hin := (h.applied r hr c hauth).2
      rw [h.out c (hmem c hlogin)] at hin
      cases hin

theorem reachable_single {cfg : Config} {s : Server}
    (h : ((system cfg).under SoleLogin).Reachable s) : Single s := by
  refine h.invariant_with (fun s hr => reachable_wired hr.of_under) (fun s hs => ?_)
    (fun lbl s s' hn hw hi => single_step hn.2 hn.1 hw hi)
  subst hs
  exact single_init cfg

/-! ## The identity of a client -/

/-- No authorisation of a client is handled behind its `AUTH_OK`; and while a client is
logged in it stays so under its name, and no result authorises or rejects it again. -/
structure IdentityFixed (cfg : Config) (s : Server) : Prop where
  handled : s.history.handled.Pairwise LastLogin
  kept : ∀ c < s.reg.brk, (s.reg.mem c).loggedIn = true → ∀ lbl s', step cfg lbl s = some s' →
    (s'.reg.mem c).loggedIn = true ∧ (s'.reg.mem c).username = (s.reg.mem c).username ∧
      ∀ body ∈ pending lbl s, resultLogin body ≠ some c

theorem identity_fixed {cfg : Config} {s : Server}
    (h : ((system cfg).under SoleLogin).Reachable s) : IdentityFixed cfg s := by
  have hsingle := reachable_single h
  have hwired := reachable_wired h.of_under
  refine ⟨hsingle.last, fun c hc hin lbl s' hs => ?_⟩
  have hrecorded := recorded_step hs hwired
  -- a result for `c` in the pipe would mean that `c` is not logged in
  have hno : ∀ body ∈ pending lbl s, resultLogin body ≠ some c := by
    intro body hbody hlogin
    have hmem : c ∈ logins s := by
      cases lbl with
      | deliver ins =>
        rcases Option.map_eq_some_iff.mp hbody with ⟨res, hres, rfl⟩
        refine List.mem_append_right _ (List.mem_filterMap.mpr ⟨res, ?_, hlogin⟩)
        exact List.mem_of_mem_head? hres
      | _ => cases hbody
    rw [hsingle.out c hmem] at hin
    cases hin
  refine ⟨hrecorded.loggedIn hc hin, ?_, hno⟩
  rcases hrecorded.old c hc with ⟨-, heq⟩ | ⟨username, balance, hpending, -⟩
  · exact username_of_settled heq
  · exact absurd rfl (hno _ hpending)

instance (lbl : ServerLbl) (s : Server) : Decidable (SoleLogin lbl s) :=
  match lbl with
  | .deliver _ => inferInstanceAs
      (Decidable (∀ res ∈ s.pipe.head?, ∀ c ∈ authOk res.body, (logins s).count c = 1))
  | .poll _ | .handshake _ _ | .request _ _ _ | .hangup _ | .dequeue _ | .finish _ _ =>
    inferInstanceAs (Decidable True)

/-- Workers that find two users in `users.txt`. -/
def twoUsers : Env := { Env.allSucceed 7 with usertxt := some "bob 10\namy 20\n".toList }

/-- The client logs in as bob, and tries again as amy. -/
theorem identity_fixed_bob :
    ∃ s : Server, (s.reg.mem 0).username = "bob".toList ∧ IdentityFixed oneWorker s := by
  obtain ⟨s, hs, hp⟩ := exists_reachable_of_run (init oneWorker)
    (guarded SoleLogin (step oneWorker))
    (connection ++ exchange 2 "Login bob" twoUsers ++ [.request 2 "Login amy".toList true])
    (fun s => decide ((s.reg.mem 0).username = "bob".toList)) (by decide)
  rw [← under_ofStep] at hs
  exact ⟨s, of_decide_eq_true hp, identity_fixed hs⟩

/-- Two logins of one client are both accepted, and the second one renames it. -/
theorem login_twice : ¬ ∀ cfg s, (system cfg).Reachable s → IdentityFixed cfg s := by
  intro h
  obtain ⟨s, hs, hp⟩ := exists_reachable_of_run (init oneWorker) (step oneWorker)
    (connection ++
      [.request 2 "Login bob".toList true, .request 2 "Login amy".toList true] ++
      answers twoUsers ++ answers twoUsers ++ [.deliver ⟨true, true, true⟩])
    (fun s => decide ((s.reg.mem 0).loggedIn = true ∧ 0 < s.reg.brk ∧
      (s.reg.mem 0).username = "bob".toList ∧
      (step oneWorker (.deliver ⟨true, true, true⟩) s).map (fun s' => (s'.reg.mem 0).username) =
        some "amy".toList)) (by decide)
  rcases of_decide_eq_true hp with ⟨hin, hbrk, hbob, hamy⟩
  rcases Option.map_eq_some_iff.mp hamy with ⟨s', hs', hname⟩
  have hkept := ((h _ s hs).kept 0 hbrk hin _ s' hs').2.1
  rw [hname, hbob] at hkept
  exact absurd hkept (by decide)

end AnimateServer.LoginIdentity
