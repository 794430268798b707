import AnimateServer.Lib.Ledger
import AnimateServer.Verify.CommandCases

/-!
# The handles of libanimate

Canvases, sprites and placements are made by create commands, held in the three tables
and destroyed by a destroy command or when their owner leaves. As long as no table is
lost, the books balance: each handle that was returned is in one entry, or was destroyed
once.
-/

namespace AnimateServer.Handles

open Transition CLib FailedRpc TableOwners CommandCases

/-! ## What the tables hold -/

section Pointers

variable {ε : Type} [Entry ε] {t t' : Table ε}

/-- The pointers of the live entries, in order. -/
def pointers (t : Table ε) : List Handle := Ledger.slots (fun i => (cell t i).join) t.count

/-- A cell with a pointer in it is there. -/
theorem join_cell_eq {i : Nat} {ptr : Handle} :
    (cell t i).join = some ptr ↔ cell t i = some (some ptr) := by
  cases cell t i with
  | none => simp
  | some p => simp

/-- An insertion adds the pointer of the new entry. -/
theorem pointers_insert {realloc : Int → Option Nat} {elemSize : Int} {mk : Nat → ε} {id : Nat}
    {ptr : Handle} (h : Attached t) (hins : t.insert realloc elemSize mk = (some id, t'))
    (hptr : ∀ i, Entry.ptr (mk i) = some ptr) : (pointers t').Perm (ptr :: pointers t) := by
  have hcell := cell_insert h hins
  rcases insert_some h hins with ⟨-, hcount, -, -⟩
  have hpush : pointers t' = pointers t ++ [ptr] := by
    unfold pointers
    rw [hcount]
    apply Ledger.slots_push
    · rw [hcell, if_pos rfl, hptr]
      rfl
    · intro i hi
      rw [hcell, if_neg (by omega)]
  rw [hpush]
  exact List.perm_append_singleton ptr (pointers t)

/-- Clearing an entry takes its pointer away. -/
theorem pointers_clear {i : Nat} {e : ε} (e' : ε) {ptr : Handle} (hi : i < t.count)
    (he : t.entryAt i = some e) (hptr : Entry.ptr e = some ptr) (hdead : Entry.ptr e' = none) :
    (pointers t).Perm (ptr :: pointers (t.setEntry i e')) := by
  have hcell := cell_setEntry e' he
  unfold pointers
  rw [count_setEntry]
  apply Ledger.slots_clear hi
  · rw [cell_eq he, hptr]
    rfl
  · rw [hcell, if_pos rfl, hdead]
    rfl
  · intro j hj
    rw [hcell, if_neg hj]

/-- There are no pointers without an array. -/
theorem pointers_of_arr (h : t.arr = none) : pointers t = [] := by
  have hnone : ∀ i, (cell t i).join = none := by
    intro i
    simp [cell, Table.entryAt, h]
  unfold pointers Ledger.slots
  exact List.filterMap_eq_nil_iff.mpr fun i _ => hnone i

/-- Another field of an entry is written. -/
theorem pointers_setEntry {i : Nat} {e : ε} (e' : ε) (he : t.entryAt i = some e)
    (hptr : Entry.ptr e' = Entry.ptr e) : pointers (t.setEntry i e') = pointers t := by
  have hcell : ∀ j, cell (t.setEntry i e') j = cell t j := by
    intro j
    rw [cell_setEntry e' he]
    split
    · rename_i hj
      rw [hj, cell_eq he, hptr]
    · rfl
  unfold pointers
  rw [count_setEntry]
  simp only [hcell]

end Pointers

/-- The objects in the three tables. -/
def entered (w : World) : List (ObjKind × Handle) :=
  (pointers w.canvases).map (Prod.mk .canvas) ++
    ((pointers w.sprites).map (Prod.mk .sprite) ++
      (pointers w.placements).map (Prod.mk .placement))

/-- A canvas table with one more pointer. -/
theorem entered_canvas {w : World} {t u : Table CanvasEntry} {ptr : Handle}
    (h : (pointers t).Perm (ptr :: pointers u)) :
    (entered { w with canvases := t }).Perm
      ((.canvas, ptr) :: entered { w with canvases := u }) :=
  (h.map _).append_right _

/-- What happens to the pointers of one table happens to all that are entered. -/
theorem entered_sprite {w : World} {t u : Table SpriteEntry} {ptr : Handle}
    (h : (pointers t).Perm (ptr :: pointers u)) :
    (entered { w with sprites := t }).Perm
      ((.sprite, ptr) :: entered { w with sprites := u }) :=
  (((h.map _).append_right _).append_left _).trans List.perm_middle

theorem entered_placement {w : World} {t u : Table PlacementEntry} {ptr : Handle}
    (h : (pointers t).Perm (ptr :: pointers u)) :
    (entered { w with placements := t }).Perm
      ((.placement, ptr) :: entered { w with placements := u }) := by
  have htail : ((pointers w.sprites).map (Prod.mk ObjKind.sprite) ++
        (pointers t).map (Prod.mk ObjKind.placement)).Perm
      ((.placement, ptr) :: ((pointers w.sprites).map (Prod.mk ObjKind.sprite) ++
        (pointers u).map (Prod.mk ObjKind.placement))) :=
    ((h.map _).append_left _).trans List.perm_middle
  exact (htail.append_left _).trans List.perm_middle

/-- A canvas table without pointers: those of before are missing. -/
theorem entered_canvas_lost {w : World} {t : Table CanvasEntry} (h : pointers t = []) :
    (entered w).Perm (entered { w with canvases := t } ++
      (pointers w.canvases).map (Prod.mk .canvas)) := by
  simp only [entered, h, List.map_nil, List.nil_append]
  exact List.perm_append_comm

/-- A table that is lost takes its pointers along. -/
theorem entered_sprite_lost {w : World} {t : Table SpriteEntry} (h : pointers t = []) :
    (entered w).Perm (entered { w with sprites := t } ++
      (pointers w.sprites).map (Prod.mk .sprite)) := by
  simp only [entered, h, List.map_nil, List.nil_append, List.append_assoc]
  exact List.perm_append_comm.append_left _

theorem entered_placement_lost {w : World} {t : Table PlacementEntry} (h : pointers t = []) :
    (entered w).Perm (entered { w with placements := t } ++
      (pointers w.placements).map (Prod.mk .placement)) := by
  simp only [entered, h, List.map_nil, List.append_nil, List.append_assoc]
  exact .refl _

/-- Entry `i` of the table for the kind `k` has the pointer `ptr`. -/
def EntryHas (w : World) (k : ObjKind) (i : Nat) (ptr : Handle) : Prop :=
  match k with
  | .canvas => i < w.canvases.count ∧ cell w.canvases i = some (some ptr)
  | .sprite => i < w.sprites.count ∧ cell w.sprites i = some (some ptr)
  | .placement => i < w.placements.count ∧ cell w.placements i = some (some ptr)

/-- The pointers of a table are those in its cells. -/
theorem mem_pointers {ε : Type} [Entry ε] {t : Table ε} {ptr : Handle} :
    ptr ∈ pointers t ↔ ∃ i, i < t.count ∧ cell t i = some (some ptr) := by
  simp only [pointers, Ledger.mem_slots, join_cell_eq]

/-- The objects that are entered are those of the three tables. -/
theorem mem_entered {w : World} {k : ObjKind} {ptr : Handle} :
    (k, ptr) ∈ entered w ↔ ∃ i, EntryHas w k i ptr := by
  cases k <;> simp [entered, mem_pointers, EntryHas]

/-- If no object is in the tables twice, no two entries have one. -/
theorem entryHas_inj {w : World} {k : ObjKind} {i j : Nat} {ptr : Handle}
    (h : (entered w).Nodup) (hi : EntryHas w k i ptr) (hj : EntryHas w k j ptr) : i = j := by
  have htable : ∀ {ε : Type} [Entry ε] {t : Table ε}, (pointers t).Nodup →
      i < t.count ∧ cell t i = some (some ptr) → j < t.count ∧ cell t j = some (some ptr) →
      i = j := fun hnodup hi hj =>
    Ledger.slots_inj hnodup hi.1 hj.1 (join_cell_eq.mpr hi.2) (join_cell_eq.mpr hj.2)
  unfold entered at h
  rw [List.nodup_append', List.nodup_append'] at h
  rcases h with ⟨hc, ⟨hs, hp, -⟩, -⟩
  cases k with
  | canvas => exact htable hc.of_map hi hj
  | sprite => exact htable hs.of_map hi hj
  | placement => exact htable hp.of_map hi hj

/-! ## The books -/

/-- The objects the calls of a log have made. -/
def made (log : List Effect) : List (ObjKind × Handle) := log.filterMap created

/-- The objects the calls of a log have destroyed. -/
def gone (log : List Effect) : List (ObjKind × Handle) := log.filterMap destroyed

/-- What has been made and what has gone are read off the calls in order. -/
theorem made_append (log es : List Effect) : made (log ++ es) = made log ++ made es :=
  List.filterMap_append

theorem gone_append (log es : List Effect) : gone (log ++ es) = gone log ++ gone es :=
  List.filterMap_append

/-- The books of the three tables balance once the objects `lost` with an array are
counted in, and null was never destroyed. -/
structure Conserved (w : World) (log : List Effect) (lost : List (ObjKind × Handle)) : Prop where
  attached : AllAttached w
  balanced : Ledger.Balanced (made log) (entered w ++ lost) (gone log)
  noNull : ∀ call ∈ log, destroysNull call = false

namespace Conserved

variable {w w' : World} {log es : List Effect} {lost : List (ObjKind × Handle)}
  {o : ObjKind × Handle}

/-- At the start nothing has been made. -/
theorem init : Conserved .init [] [] where
  attached := allAttached_init
  balanced := .nil
  noNull := by simp

/-- Calls that destroy no `NULL` come after others of that kind. -/
theorem append_noNull (h : Conserved w log lost) (hes : ∀ e ∈ es, destroysNull e = false) :
    ∀ call ∈ log ++ es, destroysNull call = false := by
  intro call hcall
  rcases List.mem_append.mp hcall with hcall | hcall
  · exact h.noNull call hcall
  · exact hes call hcall

/-- Calls that neither make nor destroy. -/
theorem idle (h : Conserved w log lost) (hw : AllAttached w') (hentered : entered w' = entered w)
    (hes : ∀ e ∈ es, created e = none ∧ destroyed e = none ∧ destroysNull e = false) :
    Conserved w' (log ++ es) lost where
  attached := hw
  balanced := by
    have hmade : made es = [] := List.filterMap_eq_nil_iff.mpr fun e he => (hes e he).1
    have hgone : gone es = [] := List.filterMap_eq_nil_iff.mpr fun e he => (hes e he).2.1
    rw [made_append, gone_append, hmade, hgone, List.append_nil, List.append_nil, hentered]
    exact h.balanced
  noNull := h.append_noNull fun e he => (hes e he).2.2

/-- A new object is entered. -/
theorem make (h : Conserved w log lost) (hw : AllAttached w')
    (hentered : (entered w').Perm (o :: entered w)) (hmade : made es = [o]) (hgone : gone es = [])
    (hnew : o ∉ made log) (hes : ∀ e ∈ es, destroysNull e = false) :
    Conserved w' (log ++ es) lost where
  attached := hw
  balanced := by
    rw [made_append, gone_append, hmade, hgone, List.append_nil]
    exact h.balanced.make hnew (hentered.append_right lost)
  noNull := h.append_noNull hes

/-- An object that was entered is destroyed. -/
theorem release (h : Conserved w log lost) (hw : AllAttached w')
    (hentered : (entered w).Perm (o :: entered w')) (hmade : made es = []) (hgone : gone es = [o])
    (hes : ∀ e ∈ es, destroysNull e = false) : Conserved w' (log ++ es) lost where
  attached := hw
  balanced := by
    rw [made_append, gone_append, hmade, hgone, List.append_nil]
    exact h.balanced.release (hentered.append_right lost)
  noNull := h.append_noNull hes

/-- A new object that is not entered is destroyed. -/
theorem undo (h : Conserved w log lost) (hmade : made es = [o]) (hgone : gone es = [o])
    (hnew : o ∉ made log) (hes : ∀ e ∈ es, destroysNull e = false) :
    Conserved w (log ++ es) lost where
  attached := h.attached
  balanced := by
    rw [made_append, gone_append, hmade, hgone]
    exact h.balanced.make_release hnew
  noNull := h.append_noNull hes

/-- The array of a table is lost with the objects `dropped`. -/
theorem lose (h : Conserved w log lost) {dropped : List (ObjKind × Handle)} (hw : AllAttached w')
    (hentered : (entered w).Perm (entered w' ++ dropped)) : Conserved w' log (dropped ++ lost) where
  attached := hw
  balanced := by
    apply h.balanced.congr
    rw [← List.append_assoc]
    exact hentered.symm.append_right lost
  noNull := h.noNull

/-- No two entries have one object. -/
theorem entryHas_inj (h : Conserved w log lost) {k : ObjKind} {i j : Nat} {ptr : Handle}
    (hi : EntryHas w k i ptr) (hj : EntryHas w k j ptr) : i = j :=
  Handles.entryHas_inj (List.nodup_append'.mp h.balanced.nodup_held).1 hi hj

end Conserved

/-! ## Steps -/

/-- An insertion that fails without losing an array leaves the table as it was. -/
theorem insert_kept {ε : Type} {t t' : Table ε} {realloc : Int → Option Nat} {elemSize : Int}
    {mk : Nat → ε} (hins : t.insert realloc elemSize mk = (none, t'))
    (hkeep : ¬ GrowthLoses realloc elemSize t) : t' = t := by
  have heq := (insert_none_iff (congrArg Prod.fst hins)).mpr hkeep
  rwa [hins] at heq

/-- A call that makes an object, alone. -/
theorem made_single (call : Effect) {k : ObjKind} {ptr : Handle}
    (h : makes call = some (k, some ptr)) :
    made [call] = [(k, ptr)] ∧ gone [call] = [] ∧ ∀ e ∈ [call], destroysNull e = false := by
  rcases makes_only h with ⟨hdestroyed, hnull, -, -⟩
  refine ⟨?_, ?_, by simpa using hnull⟩
  · simp [made, created_of_makes h]
  · simp [gone, hdestroyed]

/-- A call that makes an object, and the one that destroys it. -/
theorem made_pair (call call' : Effect) {k : ObjKind} {ptr : Handle}
    (h : makes call = some (k, some ptr)) (hcreated : created call' = none)
    (hdestroyed : destroyed call' = some (k, ptr)) (hnull : destroysNull call' = false) :
    made [call, call'] = [(k, ptr)] ∧ gone [call, call'] = [(k, ptr)] ∧
      ∀ e ∈ [call, call'], destroysNull e = false := by
  rcases makes_only h with ⟨hdestroyed', hnull', -, -⟩
  refine ⟨?_, ?_, by simp [hnull, hnull']⟩
  · simp [made, created_of_makes h, hcreated]
  · simp [gone, hdestroyed, hdestroyed']

/-- The books balance after the calls `es`. Nothing more is lost, unless `loses`. -/
def Continues (w' : World) (log es : List Effect) (lost : List (ObjKind × Handle))
    (loses : Prop) : Prop :=
  ∃ dropped, Conserved w' (log ++ es) (dropped ++ lost) ∧ (¬ loses → dropped = [])

/-- Books that balance after a step without a loss. -/
theorem continues_of {w' : World} {log es : List Effect} {lost : List (ObjKind × Handle)}
    {loses : Prop} (h : Conserved w' (log ++ es) lost) : Continues w' log es lost loses :=
  ⟨[], h, fun _ => rfl⟩

/-- An object is made and undone, as it cannot be entered: either nothing has changed, or
the growth for it has lost an array. -/
theorem continues_undone {w w' : World} {log es : List Effect} {lost : List (ObjKind × Handle)}
    (grewLost : Prop) {loses : Prop} (hundo : Conserved w (log ++ es) lost)
    (hkept : ¬ grewLost → w' = w)
    (hlost : grewLost → loses ∧ AllAttached w' ∧
      ∃ dropped, (entered w).Perm (entered w' ++ dropped)) :
    Continues w' log es lost loses := by
  by_cases hgrew : grewLost
  · rcases hlost hgrew with ⟨hloses, hatt, dropped, hentered⟩
    exact ⟨dropped, hundo.lose hatt hentered, fun hno => absurd hloses hno⟩
  · rw [hkept hgrew]
    exact continues_of hundo

/-- A command. -/
theorem continues_did {type : TaskType} {env : Env} {client : ClientRef} {request : CStr}
    {w w' : World} {log es : List Effect} {lost : List (ObjKind × Handle)}
    (hdid : Did type env client request w w' es) (h : Conserved w log lost)
    (hnew : ∀ o ∈ made es, o ∉ made log) :
    Continues w' log es lost (InsertLoses type env request w) := by
  rcases h.attached with ⟨hc, hs, hp⟩
  cases hdid with
  | refused => exact continues_of (h.idle h.attached rfl (by simp))
  | placedNothing hci hce hcv =>
    -- no placement was made, and the call says so
    refine continues_of (h.idle h.attached rfl ?_)
    intro e he
    cases List.mem_singleton.mp he
    exact ⟨rfl, rfl, rfl⟩
  | madeNothing hcall hk =>
    refine continues_of (h.idle h.attached rfl ?_)
    intro e he
    cases List.mem_singleton.mp he
    exact ⟨created_of_makes hcall, (makes_only hcall).1, (makes_only hcall).2.1⟩
  | canvas htype hcall hins =>
    rcases made_single _ hcall with ⟨hmade, hgone, hnull⟩
    rcases insert_some hc hins with ⟨-, -, hatt, -⟩
    have hentered := entered_canvas (w := w) (pointers_insert hc hins fun _ => rfl)
    -- the handle made is the one entered
    exact continues_of (h.make ⟨hatt, hs, hp⟩ hentered hmade hgone (hnew _ (by simp [hmade])) hnull)
  | @canvasLost call ptr wd ht t htype hcall hins hlose =>
    rcases made_pair call (.destroyCanvas (some ptr)) hcall rfl rfl rfl with ⟨hmade, hgone, hnull⟩
    -- made and destroyed in one command
    have hundo := h.undo hmade hgone (hnew _ (by simp [hmade])) hnull
    rcases insert_failed hins with ⟨heq, hfailed⟩
    apply continues_undone (GrowthLoses env.realloc sizeofCanvasEntry w.canvases) hundo
    · intro hl
      rw [insert_kept hins hl]
    · intro hl
      have hentered := entered_canvas_lost (w := w) (pointers_of_arr (congrArg Table.arr heq))
      exact ⟨hlose hl, ⟨hfailed, hs, hp⟩, _, hentered⟩
  | sprite hcall hins =>
    rcases made_single _ hcall with ⟨hmade, hgone, hnull⟩
    rcases insert_some hs hins with ⟨-, -, hatt, -⟩
    have hentered := entered_sprite (w := w) (pointers_insert hs hins fun _ => rfl)
    exact continues_of (h.make ⟨hc, hatt, hp⟩ hentered hmade hgone (hnew _ (by simp [hmade])) hnull)
  | @spriteLost call ptr t hcall hins hlose =>
    rcases made_pair call (.destroySprite (some ptr)) hcall rfl rfl rfl with ⟨hmade, hgone, hnull⟩
    have hundo := h.undo hmade hgone (hnew _ (by simp [hmade])) hnull
    rcases insert_failed hins with ⟨heq, hfailed⟩
    apply continues_undone (GrowthLoses env.realloc sizeofSpriteEntry w.sprites) hundo
    · intro hl
      rw [insert_kept hins hl]
    · intro hl
      have hentered := entered_sprite_lost (w := w) (pointers_of_arr (congrArg Table.arr heq))
      exact ⟨hlose hl, ⟨hc, hfailed, hp⟩, _, hentered⟩
  | @placement ci ce cv sp ptr x y block id t hci hce hcv hins =>
    rcases made_single (.placeSprite cv sp x y (some ptr)) rfl with ⟨hmade, hgone, hnull⟩
    rcases insert_some hp hins with ⟨-, -, hatt, -⟩
    have hentered := entered_placement (w := w) (pointers_insert hp hins fun _ => rfl)
    exact continues_of (h.make ⟨hc, hs, hatt⟩ hentered hmade hgone (hnew _ (by simp [hmade])) hnull)
  | @placementLost ci ce cv sp ptr x y block t hci hce hcv hins hlose =>
    obtain ⟨hmade, hgone, hnull⟩ := made_pair (.placeSprite cv sp x y (some ptr))
      (.destroyPlacement (some ptr)) rfl rfl rfl rfl
    have hundo := h.undo hmade hgone (hnew _ (by simp [hmade])) hnull
    rcases insert_failed hins with ⟨heq, hfailed⟩
    apply continues_undone (GrowthLoses env.realloc sizeofPlacementEntry w.placements) hundo
    · intro hl
      rw [insert_kept hins hl]
    · intro hl
      have hentered := entered_placement_lost (w := w) (pointers_of_arr (congrArg Table.arr heq))
      exact ⟨hlose hl, ⟨hc, hs, hfailed⟩, _, hentered⟩
  | @destroyedCanvas i ce cv hi hce hcv =>
    -- the entry is cleared of the handle that is destroyed
    have hentered := entered_canvas (w := w)
      (pointers_clear { ce with ptr := none } (canvasOf_lt hi) hce hcv rfl)
    exact continues_of (h.release ⟨hc.setEntry _ _, hs, hp⟩ hentered rfl rfl
      (by simp [destroysNull]))
  | @destroyedSprite i se sp hi hse hsp =>
    have hentered := entered_sprite (w := w)
      (pointers_clear { se with ptr := none } hi hse hsp rfl)
    exact continues_of (h.release ⟨hc, hs.setEntry _ _, hp⟩ hentered rfl rfl
      (by simp [destroysNull]))
  | @destroyedPlacement i pe pl hi hpe hpl =>
    have hentered := entered_placement (w := w)
      (pointers_clear { pe with ptr := none } (placementOf_lt hi) hpe hpl rfl)
    exact continues_of (h.release ⟨hc, hs, hp.setEntry _ _⟩ hentered rfl rfl
      (by simp [destroysNull]))
  | usedPlacement hi hpe hpl harg hmakes hdestroyed hdrawn =>
    refine continues_of (h.idle h.attached rfl ?_)
    intro e he
    cases List.mem_singleton.mp he
    exact ⟨created_of_makes_none hmakes, hdestroyed, not_destroysNull harg⟩
  | drew hi hce hcv hes =>
    refine continues_of (h.idle h.attached rfl ?_)
    intro e he
    rcases draws_only (hes e he) with ⟨hmakes, hdestroyed, hnull, -, -⟩
    exact ⟨created_of_makes_none hmakes, hdestroyed, hnull⟩
  | @shared i ce target hi hce hptr =>
    have hptrs := pointers_setEntry { ce with shared := ce.shared ++ [target] } hce rfl
    refine continues_of (h.idle ⟨hc.setEntry _ _, hs, hp⟩ ?_ (by simp))
    simp only [entered, hptrs]

/-- The removal of a client destroys what it clears. -/
theorem conserved_cleanup {client : ClientRef} {w : World} {log : List Effect}
    {lost : List (ObjKind × Handle)} (h : Conserved w log lost) :
    Conserved (destroyOwned client w).1 (log ++ (destroyOwned client w).2) lost := by
  apply destroyOwned_induct client fun w es => Conserved w (log ++ es) lost
  · -- the canvases of the client
    intro w es i ce cv h hi hce hcv _
    rcases h.attached with ⟨hc, hs, hp⟩
    have hentered := entered_canvas (w := w) (pointers_clear (cleared ce) hi hce hcv rfl)
    rw [← List.append_assoc]
    exact h.release ⟨hc.setEntry _ _, hs, hp⟩ hentered rfl rfl (by simp [destroysNull])
  · -- its sprites
    intro w es i se sp h hi hse hsp _
    rcases h.attached with ⟨hc, hs, hp⟩
    have hentered := entered_sprite (w := w) (pointers_clear (cleared se) hi hse hsp rfl)
    rw [← List.append_assoc]
    exact h.release ⟨hc, hs.setEntry _ _, hp⟩ hentered rfl rfl (by simp [destroysNull])
  · -- its placements
    intro w es i pe pl h hi hpe hpl _
    rcases h.attached with ⟨hc, hs, hp⟩
    have hentered := entered_placement (w := w) (pointers_clear (cleared pe) hi hpe hpl rfl)
    rw [← List.append_assoc]
    exact h.release ⟨hc, hs, hp.setEntry _ _⟩ hentered rfl rfl (by simp [destroysNull])
  · rwa [List.append_nil]

/-! ## Runs -/

/-- What libanimate returns it has not returned before. -/
def NewHandles (l : TableLbl) (p : World × List Effect) : Prop :=
  ∀ o ∈ made (effectsOf l p.1), o ∉ made p.2

/-- No growth fails that loses an array. -/
def KeepsTables (l : TableLbl) (w : World) : Prop :=
  match l with
  | .rpc type env _ request _ => ¬ InsertLoses type env request w
  | .cleanup _ => True

instance (l : TableLbl) (p : World × List Effect) : Decidable (NewHandles l p) := by
  unfold NewHandles
  infer_instance

instance (l : TableLbl) (w : World) : Decidable (KeepsTables l w) :=
  match l with
  | .rpc type env _ request _ => inferInstanceAs (Decidable (¬ InsertLoses type env request w))
  | .cleanup _ => inferInstanceAs (Decidable True)

/-- Every command and every cleanup keeps the books, and what a lost table held is lost. -/
theorem continues_step {l : TableLbl} {w w' : World} {log : List Effect}
    {lost : List (ObjKind × Handle)} (hstep : tableStep l w = some w')
    (hnew : NewHandles l (w, log)) (h : Conserved w log lost) :
    Continues w' log (effectsOf l w) lost (¬ KeepsTables l w) := by
  cases l with
  | rpc type env client request r =>
    simp only [tableStep] at hstep
    split at hstep
    · cases hstep
      -- what is lost now is lost by the insertion of this request
      obtain ⟨dropped, hnext, hkeep⟩ :=
        continues_did (did_runRpc type env client request r w) h hnew
      exact ⟨dropped, hnext, fun hno => hkeep (not_not.mp hno)⟩
    · cases hstep
  | cleanup client =>
    cases hstep
    exact continues_of (conserved_cleanup h)

/-- The books balance in every run, up to what was lost with an array. -/
theorem conserved_reachable {p : World × List Effect} (h : (calls.under NewHandles).Reachable p) :
    ∃ lost, Conserved p.1 p.2 lost := by
  induction h with
  | init h0 =>
    rcases h0 with ⟨hw, hlog⟩
    rw [hw, hlog]
    exact ⟨[], Conserved.init⟩
  | @step p p' l _ hn ih =>
    rcases ih with ⟨lost, hlost⟩
    rcases hn with ⟨hnew, hstep, hlog⟩
    rcases continues_step hstep hnew hlost with ⟨dropped, hnext, -⟩
    rw [hlog]
    exact ⟨_, hnext⟩

/-- They balance exactly if no array is lost. -/
theorem conserved_reachable_keeping {p : World × List Effect}
    (h : (calls.under fun l p => NewHandles l p ∧ KeepsTables l p.1).Reachable p) :
    Conserved p.1 p.2 [] := by
  induction h with
  | init h0 =>
    rcases h0 with ⟨hw, hlog⟩
    rw [hw, hlog]
    exact Conserved.init
  | @step p p' l _ hn ih =>
    rcases hn with ⟨⟨hnew, hkeep⟩, hstep, hlog⟩
    rcases continues_step hstep hnew ih with ⟨dropped, hnext, hdropped⟩
    obtain rfl : dropped = [] := hdropped (not_not.mpr hkeep)
    rw [hlog]
    exact hnext

/-- If libanimate returns new handles only, and no table is lost, then each handle it ever
returned is the pointer of one entry and was never destroyed, or is in no entry and was
destroyed once; and null was never destroyed. -/
theorem handles_conserved {p : World × List Effect}
    (h : (calls.under fun l p => NewHandles l p ∧ KeepsTables l p.1).Reachable p) :
    (∀ k ptr, (k, ptr) ∈ made p.2 →
      ((∃! i, EntryHas p.1 k i ptr) ∧ (gone p.2).count (k, ptr) = 0) ∨
        ((¬ ∃ i, EntryHas p.1 k i ptr) ∧ (gone p.2).count (k, ptr) = 1)) ∧
      ∀ call ∈ p.2, destroysNull call = false := by
  have hconserved := conserved_reachable_keeping h
  refine ⟨fun k ptr hmade => ?_, hconserved.noNull⟩
  -- held in exactly one entry, or destroyed exactly once
  rcases hconserved.balanced.held_or_gone hmade with ⟨hheld, hcount⟩ | ⟨hheld, hcount⟩
  · rw [List.append_nil, mem_entered] at hheld
    rcases hheld with ⟨i, hi⟩
    refine Or.inl ⟨⟨i, hi, ?_⟩, hcount⟩
    intro j hj
    exact hconserved.entryHas_inj hj hi
  · rw [List.append_nil, mem_entered] at hheld
    exact Or.inr ⟨hheld, hcount⟩

/-- A canvas, a rectangle and a placement, the last of which is destroyed. -/
theorem handles_conserved_placing :
    ∃ p : World × List Effect,
      made p.2 = [(.canvas, 1), (.sprite, 2), (.placement, 3)] ∧ gone p.2 = [(.placement, 3)] ∧
        ∀ k ptr, (k, ptr) ∈ made p.2 →
          ((∃! i, EntryHas p.1 k i ptr) ∧ (gone p.2).count (k, ptr) = 0) ∨
            ((¬ ∃ i, EntryHas p.1 k i ptr) ∧ (gone p.2).count (k, ptr) = 1) := by
  have hrun := exists_reachable_of_run (World.init, [])
    (guarded (fun l p => NewHandles l p ∧ KeepsTables l p.1) (recordStep logCalls tableStep))
    (placing ++ [ask .DESTROY_PLACEMENT 0 "0"])
    (fun p => decide (made p.2 = [(.canvas, 1), (.sprite, 2), (.placement, 3)] ∧
      gone p.2 = [(.placement, 3)])) (by decide)
  rcases hrun with ⟨p, hreach, hlog⟩
  rw [← under_ofStep, ← recording_ofStep] at hreach
  rcases of_decide_eq_true hlog with ⟨hmade, hgone⟩
  exact ⟨p, hmade, hgone, (handles_conserved hreach).1⟩

end AnimateServer.Handles
