import AnimateServer.Model.Session
import AnimateServer.Verify.Growth
import AnimateServer.Verify.LoginIdentity
import AnimateServer.Verify.Replies
import AnimateServer.Verify.ReplyRoundTrip

/-!
# The answers of the server

What a command replies, the line that is written for a result, and who gets one: while the
processes hold back, a client that gets an answer to a command is logged in.
-/

namespace AnimateServer.Answers

open CLib Client Server ServerSteps ServerInv Descriptors Records InFlight Transition
  Accounting ReplyRoundTrip LoginGate LoginIdentity

/-! ## Replies -/

/-- The replies of the commands: a code, the id of a new entry, what `animate_destroy_sprite`
returned, and how far `GENERATE` got. -/
inductive Replied (env : Env) (w : World) : RetVal → Prop where
  | code {a : Int} : a ∈ [0, -1, -2, -3] → Replied env w (ret1 a)
  | new {id : Nat} : id ∈ [w.canvases.count, w.sprites.count, w.placements.count] →
      Replied env w (ret2 0 id)
  | destroyed : Replied env w (ret2 0 env.destroySprite)
  | data : Replied env w (ret2 0 (-1))
  | movie {c : Int} : c ∈ [0, -1] → Replied env w ⟨0, 0, c⟩

section Replied

variable {env : Env} {client : ClientRef} {request : CStr} {w : World} {rv : RetVal} {size : Nat}
  {r : ClientRegistry} {type : TaskType}

/-- A parser that refuses with one of two codes. -/
def Coded {α : Type} (p : Except Int α) : Prop := ∀ a, p = .error a → a = -1 ∨ a = -2

/-- A parser refuses with a negative number. -/
theorem Coded.neg {α : Type} {p : Except Int α} (h : Coded p) {a : Int} (ha : p = .error a) :
    a < 0 := by
  rcases h a ha with rfl | rfl <;> decide

/-- Every parser refuses with one of the three codes. -/
theorem coded_parseId : Coded (parseId size request) := by
  intro a h
  unfold parseId at h
  grind

theorem coded_parseCheckedId : Coded (parseCheckedId size request) := by
  intro a h
  have hid : Coded (parseId size request) := coded_parseId
  unfold parseCheckedId at h
  unfold Coded at hid
  grind

theorem coded_parseCreateCanvas : Coded (parseCreateCanvas request) := by
  intro a h
  unfold parseCreateCanvas at h
  grind

theorem coded_parseCreateSprite : Coded (parseCreateSprite request) := by
  intro a h
  unfold parseCreateSprite at h
  grind

theorem coded_parseCreateRectangle : Coded (parseCreateRectangle request) := by
  intro a h
  unfold parseCreateRectangle at h
  grind

theorem coded_parseCreateCircle : Coded (parseCreateCircle request) := by
  intro a h
  unfold parseCreateCircle at h
  grind

theorem coded_parsePlaceSprite : Coded (parsePlaceSprite request) := by
  intro a h
  unfold parsePlaceSprite at h
  grind

theorem coded_parseAnimParam : Coded (parseAnimParam request) := by
  intro a h
  unfold parseAnimParam at h
  grind

theorem coded_parseShare : Coded (parseShare request) := by
  intro a h
  unfold parseShare at h
  grind

theorem coded_parseGenerate : Coded (parseGenerate request) := by
  intro a h
  unfold parseGenerate at h
  grind

/-- What a parser refuses is answered by its code. -/
theorem replied_error {α : Type} {p : Except Int α} (hp : Coded p) {a : Int} (h : p = .error a) :
    Replied env w (ret1 a) := by
  rcases hp a h with rfl | rfl
  · exact .code (by decide)
  · exact .code (by decide)

/-- The id of a new entry is the count that the table had. -/
theorem replied_insert {ε : Type} {realloc : Int → Option Nat} {elemSize : Int} {mk : Nat → ε}
    {t t' : Table ε} {id : Nat} (h : t.insert realloc elemSize mk = (some id, t')) :
    id = t.count := by
  unfold Table.insert Table.push at h
  unfold Table.grow at h
  grind

theorem replied_createCanvas (h : (createCanvas env client request w).retval = some rv) :
    Replied env w rv := by
  unfold createCanvas at h
  split at h
  · rename_i a hp
    cases h
    exact replied_error coded_parseCreateCanvas hp
  · split at h
    · cases h
      exact .code (by decide)
    · split at h
      · cases h
        exact .code (by decide)
      · rename_i hins
        cases h
        rcases CommandCases.canvasInsert_eq hins with ⟨t, ht, -⟩
        -- the only success: the reply carries the new id
        exact .new (by simp [replied_insert ht])

/-- A sprite that gets no entry is destroyed again, and the answer is a code. -/
theorem replied_keepSprite {call : Effect} (h : (keepSprite env call client w).retval = some rv) :
    Replied env w rv := by
  unfold keepSprite at h
  split at h
  · cases h
    exact .code (by decide)
  · split at h
    · cases h
      exact .code (by decide)
    · rename_i hins
      cases h
      rcases CommandCases.spriteInsert_eq hins with ⟨t, ht, -⟩
      exact .new (by simp [replied_insert ht])

/-- The handlers of placements answer with 0 or a code. -/
theorem replied_onPlacement {id : Int} {act : Handle → World × List Effect}
    (h : (onPlacement id w act).retval = some rv) : Replied env w rv := by
  unfold onPlacement at h
  split at h
  · cases h
    exact .code (by decide)
  · split at h
    · cases h
    · split at h <;>
      · cases h
        exact .code (by decide)

/-- `PLACE_SPRITE` answers with a code or with the id of the new placement. -/
theorem replied_placeSprite (h : (placeSprite env client request w).retval = some rv) :
    Replied env w rv := by
  -- the tests in the order of the source, with the insertion behind all of them
  unfold placeSprite at h
  split at h
  · rename_i a hp
    cases h
    exact replied_error coded_parsePlaceSprite hp
  · split at h
    · cases h
      exact .code (by decide)
    · split at h
      · cases h
      · split at h
        · dsimp only at h
          split at h
          · cases h
          · split at h
            · cases h
              exact .code (by decide)
            · unfold keepPlacement at h
              split at h
              · cases h
                exact .code (by decide)
              · split at h
                · cases h
                  exact .code (by decide)
                · rename_i hins
                  cases h
                  rcases CommandCases.placementInsert_eq hins with ⟨t, ht, -⟩
                  exact .new (by simp [replied_insert ht])
        · cases h
          exact .code (by decide)

/-- `GENERATE` has an answer of its own for a file that cannot be opened or written. -/
theorem replied_generate (h : (generate env request w).retval = some rv) :
    Replied env w rv := by
  -- the tests in the order of the source; a lookup that goes wrong has no answer at all
  unfold generate at h
  split at h
  · rename_i a hp
    cases h
    exact replied_error coded_parseGenerate hp
  · split at h
    · cases h
      exact .code (by decide)
    · split at h
      · cases h
      · split at h
        · cases h
          exact .code (by decide)
        · dsimp only at h
          split at h
          · cases h
            exact .data
          · split at h
            · cases h
              exact .code (by decide)
            · split at h
              · cases h
                exact .code (by decide)
              · split at h
                · cases h
                · cases h
                  exact .data
                · split at h
                  · cases h
                    exact .data
                  · cases h
                    exact .movie (by split <;> decide)

theorem replied_destroyCanvas (h : (destroyCanvas request w).retval = some rv) :
    Replied env w rv := by
  unfold destroyCanvas at h
  split at h
  · rename_i a hp
    cases h
    exact replied_error coded_parseId hp
  · split at h
    · cases h
      exact .code (by decide)
    · split at h
      · cases h
      · split at h <;>
        · cases h
          exact .code (by decide)

theorem replied_destroySprite (h : (destroySprite env request w).retval = some rv) :
    Replied env w rv := by
  unfold destroySprite at h
  split at h
  · rename_i a hp
    cases h
    exact replied_error coded_parseCheckedId hp
  · split at h
    · cases h
      exact .code (by decide)
    · split at h
      · -- without an array the handler reads no entry, and there is no reply
        cases h
      · split at h
        · cases h
          exact .code (by decide)
        · cases h
          exact .destroyed

/-- `SHARE` answers with 0 or a code, whoever it has found. -/
theorem replied_share (h : (share request r w).retval = some rv) : Replied env w rv := by
  unfold share at h
  split at h
  · rename_i a hp
    cases h
    exact replied_error coded_parseShare hp
  · split at h
    · cases h
      exact .code (by decide)
    · split at h
      · cases h
      · split at h
        · cases h
          exact .code (by decide)
        · dsimp only at h
          split at h
          · cases h
            exact .code (by decide)
          · -- full or shared: the reply is a code in both cases
            split at h <;>
            · cases h
              exact .code (by decide)

/-- The reply of a command that looks a placement up by its checked id. -/
theorem replied_checkedId (act : Int → Handle → World × List Effect)
    (h : (match parseCheckedId 64 request with
      | .error a => w.reply (ret1 a)
      | .ok id => onPlacement id w (act id)).retval = some rv) : Replied env w rv := by
  split at h
  · rename_i a hp
    cases h
    exact replied_error coded_parseCheckedId hp
  · exact replied_onPlacement h

/-- Every answer is a code, 0, or 0 with the id of an entry that is new. -/
theorem replied_runRpc (h : (runRpc type env client request r w).retval = some rv) :
    Replied env w rv := by
  unfold runRpc at h
  -- the three that make a sprite differ in their parsers only
  cases type with
  | CREATE_CANVAS => exact replied_createCanvas h
  | DESTROY_CANVAS => exact replied_destroyCanvas h
  | CREATE_SPRITE =>
    have hran : (createSprite env client request w).retval = some rv := h
    unfold createSprite at hran
    split at hran
    · rename_i a hp
      cases hran
      exact replied_error coded_parseCreateSprite hp
    · exact replied_keepSprite hran
  | CREATE_RECTANGLE =>
    have hran : (createRectangle env client request w).retval = some rv := h
    unfold createRectangle at hran
    split at hran
    · rename_i a hp
      cases hran
      exact replied_error coded_parseCreateRectangle hp
    · exact replied_keepSprite hran
  | CREATE_CIRCLE =>
    have hran : (createCircle env client request w).retval = some rv := h
    unfold createCircle at hran
    split at hran
    · rename_i a hp
      cases hran
      exact replied_error coded_parseCreateCircle hp
    · exact replied_keepSprite hran
  | DESTROY_SPRITE => exact replied_destroySprite h
  | PLACE_SPRITE => exact replied_placeSprite h
  | PLACEMENT_UP => exact replied_checkedId (fun _ pl => (w, [.placementUp pl])) h
  | PLACEMENT_DOWN => exact replied_checkedId (fun _ pl => (w, [.placementDown pl])) h
  | PLACEMENT_TOP => exact replied_checkedId (fun _ pl => (w, [.placementTop pl])) h
  | PLACEMENT_BOTTOM => exact replied_checkedId (fun _ pl => (w, [.placementBottom pl])) h
  | DESTROY_PLACEMENT =>
    exact replied_checkedId (fun id _ => w.placementRemove (toInt id)) h
  | SET_ANIM_PARAM =>
    have hran : (setAnimParam request w).retval = some rv := h
    unfold setAnimParam at hran
    split at hran
    · rename_i a hp
      cases hran
      exact replied_error coded_parseAnimParam hp
    · exact replied_onPlacement hran
  | GENERATE => exact replied_generate h
  | SHARE => exact replied_share h
  | HANDSHAKE | AUTHORISE | BARRIER => cases h

end Replied

/-! ## Lines -/

/-- What a client can be told in one line: the numbers have the types they have in C. -/
def Sendable : ResultBody → Prop
  | .RPC_DONE _ rv => IntRetVal rv
  | .AUTH_OK _ _ balance => LONG_MIN ≤ balance ∧ balance ≤ LONG_MAX
  | _ => True

/-- The text of the line that is written for a result, without its newline. -/
def textOf : ResultBody → CStr
  | .RPC_DONE _ rv => replyBody (sentFields rv)
  | .AUTH_OK _ _ balance => decimal balance
  | .AUTH_NO _ => "Reject BALANCE".toList
  | .AUTH_UN _ => "Reject UNAUTHORISED".toList
  | .HSK_OK _ _ _ => []

section Lines

variable {env : Env} {r : ClientRegistry} {w : World}

/-- The fields of an answer are of the type `int`, since the tables are small enough. -/
theorem intRetVal_replied {rv : RetVal} (h : Replied env w rv)
    (henv : IsInt env.destroySprite)
    (hcounts : ∀ n ∈ [w.canvases.count, w.sprites.count, w.placements.count],
      (n : Int) ≤ INT_MAX) : IntRetVal rv := by
  have hmin : IsInt INT_MIN := ⟨le_refl _, by decide⟩
  have hcode : ∀ a ∈ [0, -1, -2, -3], IsInt a := by
    unfold IsInt
    decide
  -- an id is below its table's count, and the codes and defaults are ints
  cases h with
  | code ha => exact ⟨hcode _ ha, hmin, hmin⟩
  | @new id hid =>
    have hpos : INT_MIN ≤ (id : Int) := by
      unfold INT_MIN
      omega
    exact ⟨hcode 0 (by decide), ⟨hpos, hcounts id hid⟩, hmin⟩
  | destroyed => exact ⟨hcode 0 (by decide), henv, hmin⟩
  | data => exact ⟨hcode 0 (by decide), hcode (-1) (by decide), hmin⟩
  | @movie c hc =>
    refine ⟨hcode 0 (by decide), hcode 0 (by decide), hcode c ?_⟩
    simp only [List.mem_cons, List.not_mem_nil, or_false] at hc ⊢
    omega

/-- What `strtol` returns is a `long`. -/
theorem strtol_range (s : CStr) : LONG_MIN ≤ (strtol s).1 ∧ (strtol s).1 ≤ LONG_MAX := by
  refine ⟨?_, strtol_le s⟩
  unfold strtol clampLong LONG_MIN LONG_MAX
  split
  · show _ ≤ (0 : Int)
    omega
  · show _ ≤ ite _ _ _
    split
    · omega
    · split <;> omega

/-- A balance that is found has been read by `strtol`. -/
theorem findBalance_range {username : CStr} {n : Nat} {usertxt : CStr} {balance : Int}
    (h : findBalance username n usertxt = some balance) :
    LONG_MIN ≤ balance ∧ balance ≤ LONG_MAX := by
  induction n generalizing usertxt with
  | zero => cases h
  | succ n ih =>
    unfold findBalance at h
    split at h
    · cases h
    · split at h
      · rename_i bal hbal
        cases h
        unfold balanceOf at hbal
        split at hbal
        · cases hbal
        · split at hbal
          · cases hbal
          · split at hbal
            · cases hbal
            · dsimp only at hbal
              rcases Option.ite_none_left_eq_some.mp hbal with ⟨-, hbal⟩
              obtain rfl := Option.some.inj hbal
              -- the balance comes from strtol, which saturates at the bounds of long
              exact strtol_range _
      · exact ih h

/-- A login is answered by a rejection or by a balance, and both are one line. -/
theorem sendable_authorise (env : Env) (client : ClientRef) (request : CStr) :
    Sendable (authorise env client request) := by
  unfold authorise
  split
  · rename_i balance heq
    unfold usertxtGetBalance at heq
    split at heq
    · cases heq
    · split at heq
      · rename_i bal hbal
        obtain rfl : bal = balance := congrArg Prod.snd heq
        exact findBalance_range hbal
      · cases heq
  · trivial
  · trivial

/-- What a worker posts can be sent. -/
theorem sendable_posted {task : Task} {body : ResultBody} (henv : IsInt env.destroySprite)
    (hcounts : ∀ n ∈ [w.canvases.count, w.sprites.count, w.placements.count],
      (n : Int) ≤ INT_MAX)
    (h : (workerRoutine env r w task).2 = .posts body) : Sendable body := by
  unfold workerRoutine at h
  -- a handshake posts no text, a login a balance, an RPC its retval
  split at h
  · split at h <;> cases h
    trivial
  · split at h
    · cases h
      exact sendable_authorise _ _ _
    · cases h
    · cases h
    · dsimp only at h
      split at h
      · rename_i hrv
        cases h
        exact intRetVal_replied (replied_runRpc hrv) henv hcounts
      · cases h

/-- A number of 64 bits has at most twenty characters. -/
theorem length_decimal_long {v : Int} (h : LONG_MIN ≤ v ∧ v ≤ LONG_MAX) :
    (decimal v).length ≤ 20 := by
  have hdigits : (Nat.toDigits 10 v.natAbs).length ≤ 19 := by
    refine (Nat.length_toDigits_le_iff (by decide) (by decide)).mpr ?_
    unfold LONG_MIN LONG_MAX at h
    omega
  unfold decimal
  split
  · exact Nat.succ_le_succ hdigits
  · omega

/-- The fields that are sent are of the type `int`. -/
theorem isInt_sentFields {rv : RetVal} (h : IntRetVal rv) : ∀ v ∈ sentFields rv, IsInt v := by
  rcases sentFields_cases rv with ⟨vs, hsent, -, hvs⟩
  rw [hsent]
  intro v hv
  rcases List.mem_cons.mp hv with rfl | hv
  · exact h.a
  · rcases hvs v hv with rfl | rfl
    · exact h.b
    · exact h.c

/-- `text` and its newline are one line for the client. -/
def Fits (text : CStr) : Prop := '\n' ∉ text ∧ text.length < MAX_RPC_BUF_LEN - 1

theorem fits_nil : Fits [] := ⟨by decide, by decide⟩

/-- The two rejections are short enough and have no newline. -/
theorem fits_rejectBalance : Fits "Reject BALANCE".toList := ⟨by decide, by decide⟩

theorem fits_rejectUnauthorised : Fits "Reject UNAUTHORISED".toList := ⟨by decide, by decide⟩

/-- A line fits into the client's buffer. -/
theorem fits_textOf {body : ResultBody} (h : Sendable body) : Fits (textOf body) := by
  cases body with
  | HSK_OK pid c2s s2c => exact fits_nil
  | AUTH_NO client => exact fits_rejectBalance
  | AUTH_UN client => exact fits_rejectUnauthorised
  | AUTH_OK client username balance =>
    have hword : ∀ c ∈ decimal balance, isspace c = false := word_decimal balance
    have hlen : (decimal balance).length ≤ 20 := length_decimal_long h
    refine ⟨fun hmem => ?_, Nat.lt_of_le_of_lt hlen (by decide)⟩
    have hspace : isspace '\n' = false := hword _ hmem
    exact absurd hspace (by decide)
  | RPC_DONE client rv =>
    refine ⟨newline_notMem_replyBody _, ?_⟩
    have hints := isInt_sentFields h
    rcases sentFields_cases rv with ⟨vs, hsent, hle, -⟩
    rw [hsent] at hints
    have hhead := hints rv.a List.mem_cons_self
    have hdec := length_decimal_le hhead.1 hhead.2
    have htail := length_spaced_le fun v hv => hints v (List.mem_cons_of_mem _ hv)
    -- three ints of at most eleven characters, two of them with a blank
    have hlen : (replyBody (sentFields rv)).length ≤ 11 + 12 * vs.length := by
      rw [hsent, replyBody, List.length_append]
      omega
    refine Nat.lt_of_le_of_lt hlen ?_
    unfold MAX_RPC_BUF_LEN
    omega

/-- What the client finds in the text of a reply. -/
theorem scanInts_textOf {c : ClientRef} {rv : RetVal} (h : IntRetVal rv) :
    scanInts 3 (sanitiseWhitespace (textOf (.RPC_DONE c rv))) = sentFields rv := by
  rcases sentFields_cases rv with ⟨vs, hsent, hle, -⟩
  have hlen : (sentFields rv).length ≤ 3 := by
    rw [hsent]
    exact Nat.succ_le_succ hle
  show scanInts 3 (sanitiseWhitespace (replyBody (sentFields rv))) = _
  rw [sanitiseWhitespace_replyBody, scanInts_replyBody (isInt_sentFields h) hlen]

end Lines

/-! ## Who is told what -/

/-- The results of a client. -/
def answersTo (c : ClientRef) (rs : List TaskResult) : List TaskResult :=
  rs.filter fun r => r.client? = some c

section Sent

variable {s s' : Server} {cfg : Config} {lbl : ServerLbl}

/-- The lines that are written when these results are handled. -/
def linesOf (rs : List TaskResult) : List (ClientRef × Nat × CStr) :=
  rs.flatMap fun r => r.client?.toList.map fun c => (c, r.stamp, textOf r.body ++ ['\n'])

/-- Handling a result sends its line and no other. -/
theorem sent_handleResult (ins : Inserts) (res : TaskResult) (s : Server) :
    (s.handleResult ins res).history.sent = s.history.sent ++ linesOf [res] := by
  rcases res with ⟨stamp, body⟩
  cases body with
  | HSK_OK pid c2s s2c =>
    exact (Replies.sent_handshakeDone ins pid c2s s2c s).trans (List.append_nil _).symm
  | AUTH_OK c username balance => rfl
  | AUTH_NO c => rfl
  | AUTH_UN c => rfl
  | RPC_DONE c rv =>
    have hline : replyLine rv = replyBody (sentFields rv) ++ ['\n'] := replyLine_eq rv
    show s.history.sent ++ [(c, stamp, replyLine rv)] = _
    rw [hline]
    rfl

/-- A step writes the line of the result it handles, the first one in the pipe. -/
theorem sent_step (hs : step cfg lbl s = some s') (hwired : Wired cfg s) :
    ∃ rs : List TaskResult, s'.history.handled = s.history.handled ++ rs ∧
      s'.history.sent = s.history.sent ++ linesOf rs ∧
      (rs = [] ∨ ∃ ins res, lbl = .deliver ins ∧ s.pipe.head? = some res ∧ rs = [res]) := by
  -- most steps handle nothing and send nothing
  have hnone : s'.history.sent = s.history.sent → s'.history.handled = s.history.handled →
      ∃ rs : List TaskResult, s'.history.handled = s.history.handled ++ rs ∧
        s'.history.sent = s.history.sent ++ linesOf rs ∧
        (rs = [] ∨ ∃ ins res, lbl = .deliver ins ∧ s.pipe.head? = some res ∧ rs = [res]) :=
    fun hsent hhandled => ⟨[], hhandled.trans (List.append_nil _).symm,
      hsent.trans (List.append_nil _).symm, Or.inl rfl⟩
  cases hwired.step_moves hs with
  | poll | ignored | disconnect | hangup | dequeue | silent => exact hnone rfl rfl
  | handshake pid alloc => cases alloc <;> exact hnone rfl rfl
  | request i cmd alloc => cases alloc <;> exact hnone rfl rfl
  | posts =>
    rw [postResult_eq] at hnone ⊢
    split at hnone
    · rename_i hroom
      rw [if_pos hroom]
      exact hnone rfl rfl
    · rename_i hroom
      rw [if_neg hroom]
      exact hnone rfl rfl
  -- the one result at the front of the pipe is handled, and its line is sent
  | deliver ins res pipe hp =>
    exact ⟨[res], (sameWork_handleResult ins res _).handled, sent_handleResult ins res _,
      Or.inr ⟨ins, res, rfl, by rw [hp]; rfl, rfl⟩⟩

/-- The lines that go to a client are those of the results that answer it. -/
theorem linesTo_append {rs : List TaskResult} (h : s'.history.sent = s.history.sent ++ linesOf rs)
    (c : ClientRef) :
    Session.linesTo c s' =
      Session.linesTo c s ++ (answersTo c rs).map fun r => textOf r.body ++ ['\n'] := by
  unfold Session.linesTo
  rw [h, List.filterMap_append]
  congr 1
  clear h
  induction rs with
  | nil => rfl
  | cons r rs ih =>
    rw [linesOf, List.flatMap_cons, List.filterMap_append, ← linesOf, ih]
    cases hc : r.client? with
    | none => simp [answersTo, hc]
    | some d => by_cases hdc : d = c <;> simp [answersTo, hc, hdc]

theorem answersTo_append (c : ClientRef) (rs rs' : List TaskResult) :
    answersTo c (rs ++ rs') = answersTo c rs ++ answersTo c rs' :=
  List.filter_append _ _

end Sent

/-! ## What is sent has its types -/

section Sendable

variable {s s' : Server} {cfg : Config} {lbl : ServerLbl}

/-- The results that are posted can be sent. -/
def SendableAll (s : Server) : Prop := ∀ r ∈ s.history.handled ++ s.pipe, Sendable r.body

/-- Steps that touch neither the pipe nor the history of the results. -/
theorem SendableAll.congr (h : SendableAll s) (hhandled : s'.history.handled = s.history.handled)
    (hpipe : s'.pipe = s.pipe) : SendableAll s' := by
  unfold SendableAll
  rw [hhandled, hpipe]
  exact h

/-- What the kernel and libanimate return to a handler are values of their types. -/
theorem typed_finish {w : Nat} {env : Env}
    (h : Session.Typed (.finish w env) s = true) : IsInt env.destroySprite ∧
      ∀ n ∈ [s.world.canvases.count, s.world.sprites.count, s.world.placements.count],
        (n : Int) ≤ INT_MAX := by
  simp only [Session.Typed, Bool.and_eq_true, decide_eq_true_eq, List.all_eq_true] at h
  exact h

/-- The results in the pipe are as sendable as those that have been handled. -/
theorem sendableAll_step (hs : step cfg lbl s = some s')
    (htyped : Session.Typed lbl s = true) (hwired : Wired cfg s) (h : SendableAll s) :
    SendableAll s' := by
  cases hwired.step_moves hs with
  | poll | ignored | disconnect | hangup | dequeue | silent => exact h.congr rfl rfl
  | handshake pid alloc => cases alloc <;> exact h.congr rfl rfl
  | request i cmd alloc => cases alloc <;> exact h.congr rfl rfl
  | posts w env task body _ hout =>
    rw [postResult_eq]
    split
    · -- the new result is at the end of the pipe
      rcases typed_finish htyped with ⟨henv, hcounts⟩
      intro r hr
      rw [← List.append_assoc] at hr
      rcases List.mem_append.mp hr with hold | hnew
      · exact h r hold
      · rw [List.mem_singleton.mp hnew]
        exact sendable_posted henv hcounts hout
    · exact h.congr rfl rfl
  -- a result moves from the pipe to the history
  | deliver ins res pipe hp =>
    have hwork := sameWork_handleResult ins res { s with
      pipe
      history := { s.history with handled := s.history.handled ++ [res] } }
    intro r hr
    rw [hwork.handled, hwork.pipe] at hr
    apply h r
    rw [hp]
    simpa using hr

end Sendable

/-! ## Who gets an answer -/

/-- `c` has a record with `logged_in` set. -/
def LoggedIn (s : Server) (c : ClientRef) : Prop :=
  c < s.reg.brk ∧ (s.reg.mem c).loggedIn = true

/-- The client a task runs a command of. -/
def taskCommand (t : Task) : Option ClientRef := if t.type = .AUTHORISE then none else t.client?

/-- The client a result answers a command of. -/
def resultCommand : ResultBody → Option ClientRef
  | .RPC_DONE client _ => some client
  | _ => none

/-- The clients that have a command queued or running, or its result in the pipe. -/
def commands (s : Server) : List ClientRef := inFlight taskCommand resultCommand s

section LoggedIn

variable {s s' : Server} {cfg : Config} {lbl : ServerLbl} {c : ClientRef}

/-- A client that has been let in stays so. -/
theorem LoggedIn.step (h : LoggedIn s c) (hs : Server.step cfg lbl s = some s')
    (hwired : Wired cfg s) : LoggedIn s' c := by
  have hrecorded := recorded_step hs hwired
  exact ⟨Nat.lt_of_lt_of_le h.1 hrecorded.brk_le, hrecorded.loggedIn h.1 h.2⟩

/-- The result of a command is that of the task. -/
theorem resultCommand_posted {env : Env} {r : ClientRegistry} {w : World} {task : Task}
    {body : ResultBody} (h : (workerRoutine env r w task).2 = .posts body) :
    resultCommand body = taskCommand task := by
  rcases workerRoutine_cases env r w task with ⟨hnone, -, hs | ⟨pid, c2s, s2c, hp⟩⟩ |
    ⟨client, request, hinfo, ⟨ht, heq⟩ | ⟨-, heq⟩ | ⟨hrpc, -, hu | ⟨rv, hp⟩⟩⟩
  · rw [hs] at h
    cases h
  · rw [hp] at h
    cases h
    simp [resultCommand, taskCommand, hnone]
  · rw [heq] at h
    cases h
    -- a login's result is no command's
    have hbody : resultCommand (authorise env client request) = none := by
      unfold authorise
      split <;> rfl
    simp [hbody, taskCommand, ht]
  · rw [heq] at h
    cases h
  · rw [hu] at h
    cases h
  · rw [hp] at h
    cases h
    simp [resultCommand, taskCommand, hrpc.1, Task.client?, hinfo]

/-- The result that a step handles. -/
theorem pending_cases {body : ResultBody} (hs : Server.step cfg lbl s = some s')
    (h : pending lbl s = some body) :
    ∃ res ∈ s.pipe.head?, res.body = body ∧
      s'.history.handled = s.history.handled ++ [res] := by
  cases lbl with
  | deliver ins =>
    rcases deliver_cases hs with ⟨res, pipe, hp, rfl⟩
    rw [pending, hp] at h
    exact ⟨res, by rw [hp]; rfl, Option.some.inj h, (sameWork_handleResult ins res _).handled⟩
  | _ => cases h

/-- A client is logged in by an `AUTH_OK` only. -/
theorem loggedIn_cases (hs : Server.step cfg lbl s = some s') (hwired : Wired cfg s)
    (h : LoggedIn s' c) : LoggedIn s c ∨ ∃ username balance,
      pending lbl s = some (.AUTH_OK c username balance) ∧
      (s'.reg.mem c).username = strncpyBuf MAX_USERNAME_LEN username := by
  have hrecorded := recorded_step hs hwired
  rcases h with ⟨hlt, hin⟩
  by_cases hc : c < s.reg.brk
  · rcases hrecorded.old c hc with ⟨-, heq⟩ | ⟨username, balance, hpending, heq⟩
    · exact Or.inl ⟨hc, (loggedIn_of_settled heq).symm.trans hin⟩
    · exact Or.inr ⟨username, balance, hpending,
        by simpa [settled, authorised] using congrArg ActiveClient.username heq⟩
  · -- a new record is not logged in
    rcases hrecorded.brk with heq | ⟨pid, c2s, s2c, -, heq, hnew⟩
    · exact absurd (heq ▸ hlt) hc
    · have hlt' : c < s.reg.brk + 1 := heq ▸ hlt
      obtain rfl : c = s.reg.brk := Nat.le_antisymm (Nat.le_of_lt_succ hlt') (Nat.le_of_not_lt hc)
      have hout : (s'.reg.mem s.reg.brk).loggedIn = false := by
        simpa [settled] using congrArg ActiveClient.loggedIn hnew
      rw [hout] at hin
      cases hin

/-- The name of a client that is logged in stays, unless an `AUTH_OK` of it is handled. -/
theorem username_step (hs : Server.step cfg lbl s = some s') (hwired : Wired cfg s)
    (hc : c < s.reg.brk) (hno : ∀ username balance,
      pending lbl s ≠ some (.AUTH_OK c username balance)) :
    (s'.reg.mem c).username = (s.reg.mem c).username := by
  rcases (recorded_step hs hwired).old c hc with ⟨-, heq⟩ | ⟨username, balance, hpending, -⟩
  · exact username_of_settled heq
  · exact absurd hpending (hno username balance)

end LoggedIn

/-- The processes hold back, and the `Login` of a client is decided before the next one is
sent. -/
def Courteous (lbl : ServerLbl) (s : Server) : Prop :=
  (HoldsBack lbl s ∧ SoleLogin lbl s) ∧ Session.Typed lbl s = true

/-- Who has a command under way or answered is logged in, and who is logged in has been told
so. -/
structure Invited (s : Server) : Prop where
  underWay : ∀ c ∈ commands s, LoggedIn s c
  answered : ∀ r ∈ s.history.handled, ∀ c, resultCommand r.body = some c → LoggedIn s c
  told : ∀ c, LoggedIn s c → ∃ r ∈ s.history.handled, c ∈ authOk r.body

section Invited

variable {s s' : Server} {cfg : Config} {lbl : ServerLbl}

/-- Commands are accepted from logged-in clients. -/
theorem taskCommand_accepted {t : Task} {c : ClientRef} (hok : HoldsBack lbl s)
    (h : Accepts lbl s t) (hc : taskCommand t = some c) : LoggedIn s c := by
  cases h with
  | handshake pid => cases hc
  | @request _ i cmd d type args hslot hlt hyes hleads =>
    rw [taskCommand, type_newTask] at hc
    split at hc
    · cases hc
    · rename_i ht
      rw [client_newTask, if_neg hleads.ne_handshake] at hc
      obtain rfl : d = c := Option.some.inj hc
      exact ⟨hlt, loggedIn_of_holdsBack hok hslot hyes hleads ht⟩

/-- A client with a command under way has been let in before, and has been told so. -/
theorem invited_step (hs : step cfg lbl s = some s') (hok : HoldsBack lbl s)
    (hwired : Wired cfg s) (h : Invited s) : Invited s' := by
  have hflow : Flow taskCommand resultCommand lbl s s' :=
    inFlight_step hs hwired fun _ _ _ _ _ h => Or.inl (resultCommand_posted h)
  -- whoever is let in is let in by a result with its balance
  have htold : ∀ c, LoggedIn s' c → ∃ r ∈ s'.history.handled, c ∈ authOk r.body := by
    intro c hc
    rcases loggedIn_cases hs hwired hc with hold | ⟨username, balance, hpending, -⟩
    · rcases h.told c hold with ⟨r, hr, hauth⟩
      rcases sent_step hs hwired with ⟨rs, hhandled, -, -⟩
      exact ⟨r, hhandled ▸ List.mem_append_left _ hr, hauth⟩
    · rcases pending_cases hs hpending with ⟨res, -, hbody, hhandled⟩
      exact ⟨res, hhandled ▸ List.mem_append_right _ (List.mem_singleton_self _),
    by rw [hbody]; rfl⟩
  -- a command is accepted, a result is handled, or the commands under way stay the same
  cases hflow with
  | @accepted t hacc _ _ hhandled hperm =>
    refine ⟨fun c hc => ?_, fun r hr c hc => ?_, htold⟩
    · rcases List.mem_append.mp (hperm.mem_iff.mp hc) with hnew | hold
      · exact (taskCommand_accepted hok hacc (Option.mem_toList.mp hnew)).step hs hwired
      · exact (h.underWay c hold).step hs hwired
    · exact (h.answered r (hhandled ▸ hr) c hc).step hs hwired
  | other _ hhandled hperm =>
    refine ⟨fun c hc => ?_, fun r hr c hc => ?_, htold⟩
    · exact (h.underWay c (hperm.mem_iff.mpr (List.mem_append_right _ hc))).step hs hwired
    · exact (h.answered r (hhandled ▸ hr) c hc).step hs hwired
  | @handled res _ _ hhandled hperm =>
    refine ⟨fun c hc => ?_, fun r hr c hc => ?_, htold⟩
    · exact (h.underWay c (hperm.mem_iff.mpr (List.mem_append_right _ hc))).step hs hwired
    · rw [hhandled] at hr
      rcases List.mem_append.mp hr with hr | hr
      · exact (h.answered r hr c hc).step hs hwired
      · rw [List.mem_singleton.mp hr] at hc
        refine (h.underWay c (hperm.mem_iff.mpr ?_)).step hs hwired
        rw [hc]
        exact List.mem_cons_self

/-- In every run in which the clients hold back, commands under way are those of clients that have
been let in and told. -/
theorem reachable_invited (h : ((system cfg).under HoldsBack).Reachable s) : Invited s := by
  refine h.invariant_with (fun s hr => reachable_wired hr.of_under) (fun s hs => ?_)
    (fun lbl s s' hn hw hi => invited_step hn.2 hn.1 hw hi)
  obtain rfl : s = init cfg := hs
  exact ⟨fun c hc => by simp [commands, inFlight, init, Server.running] at hc,
    fun r hr => by simp [init] at hr, fun c hc => absurd hc.1 (Nat.not_lt_zero c)⟩

end Invited

end AnimateServer.Answers
