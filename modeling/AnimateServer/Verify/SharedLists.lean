import AnimateServer.Verify.CanvasPointers
import AnimateServer.Verify.Dimensions

/-!
# The lists of shared canvases

`SHARE` appends the client it finds to the list of the canvas and does not look whether it is
in the list already. As long as no request names a client that is, the list is a set with room
for `MAX_CLIENTS`; a request that does makes it a list with repetitions, which use up the room.
-/

namespace AnimateServer.SharedLists

open CLib Transition CommandCases TableOwners

/-- No list has a client twice, nor more clients than there is room for. -/
def SharedSets (w : World) : Prop :=
  ∀ i ce, w.canvases.entryAt i = some ce → ce.shared.Nodup ∧ ce.shared.length ≤ MAX_CLIENTS

/-- The live canvas and the client that a `share_canvas` request finds. -/
def shareTarget (request : CStr) (r : ClientRegistry) (w : World) :
    Option (Nat × CanvasEntry × ClientRef) := do
  let (cid, user) ← (parseShare request).toOption
  let i ← w.canvases.lookup (toInt cid)
  let ce ← w.canvases.entryAt i
  if ce.ptr = none then none
  else (findUser r.mem user r.brk r.clients).2.map fun target => (i, ce, target)

/-- The client is in the list already. -/
def Repeats (request : CStr) (r : ClientRegistry) (w : World) : Prop :=
  match shareTarget request r w with
  | some (_, ce, target) => target ∈ ce.shared
  | none => False

instance (request : CStr) (r : ClientRegistry) (w : World) : Decidable (Repeats request r w) := by
  unfold Repeats
  cases shareTarget request r w with
  | none => exact .isFalse id
  | some p => exact inferInstanceAs (Decidable (p.2.2 ∈ p.2.1.shared))

/-- A step that shares no canvas with a client that it is shared with. -/
def NoRepeat : TableLbl → World → Prop
  | .rpc type _ _ request r, w => type = .SHARE → ¬Repeats request r w
  | .cleanup _, _ => True

instance (l : TableLbl) (w : World) : Decidable (NoRepeat l w) :=
  match l with
  | .cleanup _ => .isTrue trivial
  | .rpc type _ _ request r =>
    decidable_of_iff (type ≠ .SHARE ∨ ¬Repeats request r w) imp_iff_not_or.symm

/-! ### One request -/

section Share

variable {request : CStr} {r : ClientRegistry} {w : World} {i : Nat} {ce : CanvasEntry}
  {target : ClientRef}

theorem shareTarget_eq_some (h : shareTarget request r w = some (i, ce, target)) :
    ∃ cid user, parseShare request = .ok (cid, user) ∧ w.canvases.lookup (toInt cid) = some i ∧
      w.canvases.entryAt i = some ce ∧ ce.ptr ≠ none ∧
      (findUser r.mem user r.brk r.clients).2 = some target := by
  unfold shareTarget at h
  simp only [Option.bind_eq_bind, Option.bind_eq_some_iff, Prod.exists] at h
  rcases h with ⟨cid, user, hparse, i, hi, ce, hce, h⟩
  split at h
  · cases h
  · rename_i hptr
    rcases Option.map_eq_some_iff.mp h with ⟨target, hfind, heq⟩
    cases heq
    refine ⟨cid, user, ?_, hi, hce, hptr, hfind⟩
    -- the request was parsed, or there would be no target
    cases hp : parseShare request with
    | error a => simp [hp, Except.toOption] at hparse
    | ok args =>
      rw [hp] at hparse
      exact congrArg Except.ok (Option.some.inj hparse)

/-- What `SHARE` does with a client that it has found. -/
theorem share_of_target (h : shareTarget request r w = some (i, ce, target)) :
    (MAX_CLIENTS ≤ ce.shared.length ∧ (share request r w).world = w ∧
        (share request r w).retval = some (ret1 (-3))) ∨
      (ce.shared.length < MAX_CLIENTS ∧ (share request r w).world = { w with
          canvases := w.canvases.setEntry i { ce with shared := ce.shared ++ [target] } } ∧
        (share request r w).retval = some (ret1 0)) := by
  rcases shareTarget_eq_some h with ⟨cid, user, hparse, hi, hce, hlive, hfind⟩
  unfold share
  simp only [hparse, hi, hce, if_neg hlive, hfind]
  split
  · rename_i hfull
    exact Or.inl ⟨hfull, rfl, rfl⟩
  · rename_i hroom
    exact Or.inr ⟨Nat.lt_of_not_le hroom, rfl, rfl⟩

/-- Any other request leaves the tables alone. -/
theorem share_of_no_target (h : shareTarget request r w = none) :
    (share request r w).world = w := by
  unfold share
  cases hparse : parseShare request with
  | error a => rfl
  | ok args =>
    rcases args with ⟨cid, user⟩
    dsimp only
    cases hi : w.canvases.lookup (toInt cid) with
    | none => rfl
    | some i =>
      dsimp only
      cases hce : w.canvases.entryAt i with
      | none => rfl
      | some ce =>
        dsimp only
        by_cases hptr : ce.ptr = none
        · simp only [if_pos hptr]
          rfl
        · simp only [if_neg hptr]
          cases hfind : (findUser r.mem user r.brk r.clients).2 with
          | none => rfl
          | some target =>
            -- all lookups succeeded, so there is a target after all
            simp [shareTarget, hparse, hi, hce, hptr, hfind, Except.toOption] at h

/-- Appending a new client to a set with room. -/
theorem SharedSets.append (h : SharedSets w) (hce : w.canvases.entryAt i = some ce)
    (hroom : ce.shared.length < MAX_CLIENTS) (hnew : target ∉ ce.shared) :
    SharedSets { w with
      canvases := w.canvases.setEntry i { ce with shared := ce.shared ++ [target] } } := by
  intro j e he
  rcases entryAt_setEntry he with ⟨-, rfl⟩ | ⟨-, he⟩
  · rcases h i ce hce with ⟨hnodup, -⟩
    constructor
    · show (ce.shared ++ [target]).Nodup
      rw [List.nodup_append_comm]
      exact List.nodup_cons.mpr ⟨hnew, hnodup⟩
    · show (ce.shared ++ [target]).length ≤ MAX_CLIENTS
      rw [List.length_append]
      exact hroom
  · exact h j e he

theorem sharedSets_share (h : SharedSets w) (hno : ¬Repeats request r w) :
    SharedSets (share request r w).world := by
  cases ht : shareTarget request r w with
  | none => rwa [share_of_no_target ht]
  | some p =>
    rcases p with ⟨i, ce, target⟩
    rcases shareTarget_eq_some ht with ⟨-, -, -, -, hce, -, -⟩
    have hnew : target ∉ ce.shared := by simpa only [Repeats, ht] using hno
    rcases share_of_target ht with ⟨-, hworld, -⟩ | ⟨hroom, hworld, -⟩
    · rwa [hworld]
    · rw [hworld]
      exact h.append hce hroom hnew

end Share

/-! ### Runs -/

section Runs

variable {w w' : World}

/-- The lists are those of `w`, or empty. -/
def SameLists (w w' : World) : Prop :=
  ∀ i ce', w'.canvases.entryAt i = some ce' →
    ce'.shared = [] ∨ ∃ ce, w.canvases.entryAt i = some ce ∧ ce'.shared = ce.shared

theorem SharedSets.of_sameLists (h : SharedSets w) (hsame : SameLists w w') : SharedSets w' := by
  intro i ce' hce'
  rcases hsame i ce' hce' with hnil | ⟨ce, hce, heq⟩
  · rw [hnil]
    exact ⟨List.nodup_nil, Nat.zero_le _⟩
  · rw [heq]
    exact h i ce hce

theorem sameLists_of_eq (h : w'.canvases = w.canvases) : SameLists w w' := by
  intro i ce hce
  rw [h] at hce
  exact Or.inr ⟨ce, hce, rfl⟩

theorem sameLists_setEntry {i : Nat} {ce ce' : CanvasEntry}
    (hce : w.canvases.entryAt i = some ce) (hshared : ce'.shared = ce.shared) :
    SameLists w { w with canvases := w.canvases.setEntry i ce' } := by
  intro j e he
  rcases entryAt_setEntry he with ⟨rfl, rfl⟩ | ⟨-, he⟩
  · exact Or.inr ⟨ce, hce, hshared⟩
  · exact Or.inr ⟨e, he, rfl⟩

/-- A new entry has an empty list. -/
theorem sameLists_insert {realloc : Int → Option Nat} {p : Handle} {client : ClientRef}
    {wd h : Int} {id : Option Nat} {t : Table CanvasEntry} (hatt : Attached w.canvases)
    (hins : w.canvases.insert realloc sizeofCanvasEntry (newCanvas p client wd h) = (id, t)) :
    SameLists w { w with canvases := t } := by
  intro i ce hce
  cases id with
  | none =>
    rcases insert_failed hins with ⟨rfl, -⟩
    simp [Table.entryAt] at hce
  | some id =>
    have hcells := (insert_some hatt hins).2.2.2 i
    have hce' : t.entryAt i = some ce := hce
    rw [hce'] at hcells
    split at hcells
    · -- the new entry has an empty list
      exact Or.inl (by rw [Option.some.inj hcells]; rfl)
    · exact Or.inr ⟨ce, hcells.symm, rfl⟩

theorem sameLists_destroyCanvas (request : CStr) :
    SameLists w (destroyCanvas request w).world := by
  have hrefl : SameLists w w := sameLists_of_eq rfl
  unfold destroyCanvas
  split
  · exact hrefl
  · rename_i id _
    split
    · exact hrefl
    · rename_i i hi
      split
      · exact hrefl
      · rename_i ce hce
        split
        · exact hrefl
        · rename_i hptr
          rcases Option.ne_none_iff_exists'.mp hptr with ⟨cv, hcv⟩
          rw [canvasRemove_eq hi hce hcv]
          -- clearing the pointer keeps the list
          exact sameLists_setEntry hce rfl

/-- No command but `SHARE` writes to a list. -/
theorem sameLists_runRpc (hatt : Attached w.canvases) {type : TaskType} (htype : type ≠ .SHARE)
    (env : Env) (client : ClientRef) (request : CStr) (r : ClientRegistry) :
    SameLists w (runRpc type env client request r w).world := by
  -- what is left when the request looks up no canvas
  have hdid : canvasOf type request w = none →
      SameLists w (runRpc type env client request r w).world := by
    intro hnone
    have hmove := did_runRpc type env client request r w
    generalize (runRpc type env client request r w).world = w' at hmove ⊢
    generalize (runRpc type env client request r w).effects = es at hmove
    cases hmove with
    | canvas _ _ hins => exact sameLists_insert hatt hins
    | canvasLost _ _ hins => exact sameLists_insert hatt hins
    | destroyedCanvas hi => exact absurd (hnone.symm.trans hi) (by simp)
    | shared hi => exact absurd (hnone.symm.trans hi) (by simp)
    | _ => exact sameLists_of_eq rfl
  cases type with
  | SHARE => exact absurd rfl htype
  | DESTROY_CANVAS => exact sameLists_destroyCanvas request
  | GENERATE => exact sameLists_of_eq (congrArg World.canvases (generate_world env request).1)
  | PLACE_SPRITE =>
    rcases CanvasPointers.placeSprite_cases env client request w with
      heq | ⟨ci, ce, pl, id, t, -, -, -, -, heq⟩
    · exact sameLists_of_eq (congrArg World.canvases heq)
    · apply sameLists_of_eq
      show (placeSprite env client request w).world.canvases = w.canvases
      rw [heq]
  | _ => exact hdid rfl

theorem sharedSets_step {l : TableLbl} (hs : tableStep l w = some w')
    (hatt : Attached w.canvases) (hok : NoRepeat l w) (h : SharedSets w) : SharedSets w' := by
  cases l with
  | cleanup client =>
    obtain rfl := Option.some.inj hs
    refine destroyOwned_induct client (fun w _ => SharedSets w) ?_ ?_ ?_ h
    · intro w _ i e ptr h _ he _ _
      exact h.of_sameLists (sameLists_setEntry he rfl)
    · intro w _ i e ptr h _ _ _ _
      exact h.of_sameLists (sameLists_of_eq rfl)
    · intro w _ i e ptr h _ _ _ _
      exact h.of_sameLists (sameLists_of_eq rfl)
  | rpc type env client request r =>
    obtain ⟨-, rfl⟩ : _ ∧ (runRpc type env client request r w).world = w' := by
      simpa [tableStep] using hs
    -- SHARE is the only handler that writes a list
    by_cases htype : type = .SHARE
    · subst htype
      exact sharedSets_share h (hok rfl)
    · exact h.of_sameLists (sameLists_runRpc hatt htype env client request r)

theorem reachable_sharedSets (h : (tables.under NoRepeat).Reachable w) : SharedSets w := by
  refine h.invariant_with (fun w hw => Dimensions.attached_tables hw.of_under)
    (fun w hw => ?_) (fun l w w' hn hatt ih => sharedSets_step hn.2 hatt hn.1 ih)
  rw [show w = World.init from hw]
  intro i ce hce
  simp [World.init, Table.empty, Table.entryAt] at hce

end Runs

/-! ### The list as a set -/

/-- The request treats the list as a set: it stays one, sharing once more changes nothing and
succeeds, and a new client is refused for lack of room only behind `MAX_CLIENTS` others. -/
structure SharesAsSet (request : CStr) (r : ClientRegistry) (w : World) : Prop where
  keeps : SharedSets (share request r w).world
  again : ∀ i ce target, shareTarget request r w = some (i, ce, target) → target ∈ ce.shared →
    (share request r w).world.canvases.entryAt i = some ce ∧
      (share request r w).retval = some (ret1 0)
  refused : ∀ i ce target, shareTarget request r w = some (i, ce, target) → target ∉ ce.shared →
    (share request r w).retval = some (ret1 (-3)) →
      ce.shared.Nodup ∧ ce.shared.length = MAX_CLIENTS

/-- In a run in which no request repeats a client, every list is a set; and the next request
treats it as one exactly if it repeats none. -/
theorem shared_sets {w : World} (h : (tables.under NoRepeat).Reachable w) :
    SharedSets w ∧ ∀ request r, SharesAsSet request r w ↔ ¬Repeats request r w := by
  have hsets := reachable_sharedSets h
  refine ⟨hsets, fun request r => ⟨fun hset hrep => ?_, fun hno => ?_⟩⟩
  · cases ht : shareTarget request r w with
    | none => simp only [Repeats, ht] at hrep
    | some p =>
      rcases p with ⟨i, ce, target⟩
      have hmem : target ∈ ce.shared := by simpa only [Repeats, ht] using hrep
      rcases shareTarget_eq_some ht with ⟨-, -, -, -, hce, -, -⟩
      rcases hset.again i ce target ht hmem with ⟨hsame, hret⟩
      rcases share_of_target ht with ⟨-, -, hfull⟩ | ⟨-, hworld, -⟩
      · rw [hfull] at hret
        exact absurd hret (by decide)
      · -- the list has become longer
        rw [hworld] at hsame
        have hnew : (w.canvases.setEntry i { ce with shared := ce.shared ++ [target] }).entryAt i =
            some { ce with shared := ce.shared ++ [target] } := entryAt_setEntry_self _ hce
        have heq := congrArg CanvasEntry.shared (Option.some.inj (hsame.symm.trans hnew))
        have hlen := congrArg List.length heq
        rw [List.length_append] at hlen
        exact absurd hlen (by simp)
  · constructor
    · exact sharedSets_share hsets hno
    · intro i ce target ht hmem
      simp only [Repeats, ht] at hno
      exact absurd hmem hno
    · intro i ce target ht hnew hret
      rcases shareTarget_eq_some ht with ⟨-, -, -, -, hce, -, -⟩
      rcases hsets i ce hce with ⟨hnodup, hle⟩
      rcases share_of_target ht with ⟨hfull, -, -⟩ | ⟨-, -, hok⟩
      · exact ⟨hnodup, Nat.le_antisymm hle hfull⟩
      · rw [hok] at hret
        exact absurd hret (by decide)

/-- Two clients that are logged in as bob and amy. -/
def bobAndAmy : ClientRegistry :=
  let r := (ClientRegistry.cregInsert true 11 7 8 .init).2
  let r := (ClientRegistry.cregInsert true 12 9 10 r).2
  let r := r.modify 0 fun c => { c with loggedIn := true, username := "bob".toList }
  r.modify 1 fun c => { c with loggedIn := true, username := "amy".toList }

/-- A request of bob. -/
def bobAsks (type : TaskType) (args : String) : TableLbl :=
  .rpc type (.allSucceed 1) 0 args.toList bobAndAmy

/-- The lists of the first canvas. -/
def sharedOfFirst (w : World) : Option (List ClientRef) :=
  (w.canvases.entryAt 0).map CanvasEntry.shared

/-- A canvas is shared with both of them, once. -/
theorem shared_sets_two : ∃ w, sharedOfFirst w = some [1, 0] ∧ SharedSets w := by
  obtain ⟨w, hw, hp⟩ := exists_reachable_of_run World.init (guarded NoRepeat tableStep)
    [bobAsks .CREATE_CANVAS "480 640 0", bobAsks .SHARE "0 amy", bobAsks .SHARE "0 bob"]
    (fun w => decide (sharedOfFirst w = some [1, 0])) (by decide)
  rw [← under_ofStep] at hw
  exact ⟨w, of_decide_eq_true hp, (shared_sets hw).1⟩

/-- The canvas is shared with amy over and over until there is no room for bob. -/
theorem amy_fills_the_list :
    ∃ w, tables.Reachable w ∧ sharedOfFirst w = some (List.replicate 64 1) ∧
      (share "0 bob".toList bobAndAmy w).retval = some (ret1 (-3)) ∧ ¬SharedSets w := by
  obtain ⟨w, hw, hp⟩ := exists_reachable_of_run World.init tableStep
    (bobAsks .CREATE_CANVAS "480 640 0" :: List.replicate 64 (bobAsks .SHARE "0 amy"))
    (fun w => decide (sharedOfFirst w = some (List.replicate 64 1) ∧
      (share "0 bob".toList bobAndAmy w).retval = some (ret1 (-3)))) (by decide +kernel)
  rcases of_decide_eq_true hp with ⟨hlist, hfull⟩
  refine ⟨w, hw, hlist, hfull, fun hsets => ?_⟩
  rcases Option.map_eq_some_iff.mp hlist with ⟨ce, hce, hshared⟩
  have hnodup := (hsets 0 ce hce).1
  rw [hshared] at hnodup
  exact absurd hnodup (by decide)

end AnimateServer.SharedLists
