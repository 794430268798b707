import AnimateServer.Verify.CommandCases

/-!
# The canvas pointers of placements

A placement entry holds the address of the entry of its canvas, in an array that
`canvas_insert` hands to `realloc` when it is full. The pointers of the placements that
are there stay good as long as `realloc` gives the same block back.
-/

namespace AnimateServer.CanvasPointers

open CLib Transition TableOwners CommandCases

/-! ## The property -/

/-- The canvas that a `place_sprite` request looks up. -/
def placedOn (request : CStr) : Option Int :=
  (parsePlaceSprite request).toOption.map fun args => toInt args.1

/-- Note for each placement id the canvas that it was placed on. -/
def noteCanvas (l : TableLbl) (w w' : World) (on : Nat → Option Int) : Nat → Option Int :=
  match l with
  | .rpc .PLACE_SPRITE _ _ request _ =>
    if w.placements.count < w'.placements.count then
      Function.update on w.placements.count (placedOn request)
    else on
  | _ => on

/-- The pointer goes into the canvas array, to the entry with this id. -/
def PointsAt (cs : Table CanvasEntry) (id : Option Int) (p : CanvasPtr) : Prop :=
  cs.arr.map Arr.block = some p.block ∧ p.index < cs.count ∧
    ∃ ce, cs.entryAt p.index = some ce ∧ id = some ce.canvasId

/-- The pointer of every live placement goes to the canvas that it was placed on. -/
def AllPoint (w : World) (on : Nat → Option Int) : Prop :=
  ∀ i < w.placements.count, ∀ pe, w.placements.entryAt i = some pe → pe.ptr ≠ none →
    PointsAt w.canvases (on i) pe.canvas

/-- There is no live placement. -/
def NoPlacement (w : World) : Prop :=
  ∀ i < w.placements.count, ∀ pe ∈ w.placements.entryAt i, pe.ptr = none

/-- The step makes the canvas table grow, and `realloc` does not give it the same block. -/
def Moves (l : TableLbl) (w : World) : Prop :=
  match l with
  | .rpc .CREATE_CANVAS env _ request _ =>
    (parseCreateCanvas request).isOk ∧ env.create ≠ none ∧
      (w.canvases.count : Int) = w.canvases.capacity ∧
      env.realloc (toInt (w.canvases.newcap * sizeofCanvasEntry)) ≠ w.canvases.arr.map Arr.block
  | _ => False

/-- The canvas array is moved only while there is no placement. -/
def InPlace (l : TableLbl) (w : World) : Prop := Moves l w → NoPlacement w

instance (w : World) : Decidable (NoPlacement w) := by
  unfold NoPlacement
  infer_instance

instance (l : TableLbl) (w : World) : Decidable (InPlace l w) := by
  unfold InPlace Moves
  cases l with
  | rpc type env client request r => cases type <;> infer_instance
  | cleanup client => infer_instance

/-! ## Steps that leave the array where it is -/

/-- The array is in the same block, and its entries have the same ids. -/
structure SameIds (cs cs' : Table CanvasEntry) : Prop where
  block : cs'.arr.map Arr.block = cs.arr.map Arr.block
  count : cs'.count = cs.count
  capacity : cs'.capacity = cs.capacity
  id : ∀ i, (cs'.entryAt i).map CanvasEntry.canvasId = (cs.entryAt i).map CanvasEntry.canvasId

section SameIds

variable {cs cs' : Table CanvasEntry}

/-- A table has the same ids as itself. -/
theorem SameIds.refl (cs : Table CanvasEntry) : SameIds cs cs := ⟨rfl, rfl, rfl, fun _ => rfl⟩

/-- Writing an entry with the same id changes no id. -/
theorem sameIds_setEntry {i : Nat} {ce : CanvasEntry} (ce' : CanvasEntry)
    (hce : cs.entryAt i = some ce) (hid : ce'.canvasId = ce.canvasId) :
    SameIds cs (cs.setEntry i ce') := by
  refine ⟨?_, rfl, rfl, fun j => ?_⟩
  · cases harr : cs.arr <;> simp [Table.setEntry, harr]
  · by_cases hj : j = i
    · subst hj
      rw [entryAt_setEntry_self ce' hce, hce, Option.map_some, Option.map_some, hid]
    · rw [entryAt_setEntry_ne cs ce' hj]

/-- A pointer points at a canvas by its index and its id. -/
theorem PointsAt.congr {id : Option Int} {p : CanvasPtr} (h : PointsAt cs id p)
    (hsame : SameIds cs cs') : PointsAt cs' id p := by
  rcases h with ⟨hblock, hlt, ce, hce, hid⟩
  refine ⟨hsame.block.trans hblock, hsame.count ▸ hlt, ?_⟩
  have hmap := hsame.id p.index
  rw [hce, Option.map_some] at hmap
  rcases Option.map_eq_some_iff.mp hmap with ⟨ce', hce', heq⟩
  exact ⟨ce', hce', by rw [hid, heq]⟩

theorem SameIds.attached (hsame : SameIds cs cs') (h : Attached cs) : Attached cs' := by
  intro harr
  have hblock := hsame.block
  rw [harr, Option.map_none, eq_comm, Option.map_eq_none_iff] at hblock
  rw [hsame.count, hsame.capacity]
  exact h hblock

end SameIds

/-- The canvases keep their ids and their place, and there are no new placements. -/
structure Calm (w w' : World) : Prop where
  canvases : SameIds w.canvases w'.canvases
  attached : Attached w.placements → Attached w'.placements
  placements : ∀ i < w'.placements.count, ∀ pe, w'.placements.entryAt i = some pe →
    pe.ptr ≠ none → i < w.placements.count ∧ w.placements.entryAt i = some pe

/-- A step that does nothing is calm. -/
theorem Calm.refl (w : World) : Calm w w := ⟨.refl _, id, fun _ hi _ hpe _ => ⟨hi, hpe⟩⟩

section Calm

variable {w : World}

/-- A step that writes a canvas with the same id is calm. -/
theorem calm_setCanvas {i : Nat} {ce : CanvasEntry} (ce' : CanvasEntry)
    (hce : w.canvases.entryAt i = some ce) (hid : ce'.canvasId = ce.canvasId) :
    Calm w { w with canvases := w.canvases.setEntry i ce' } :=
  ⟨sameIds_setEntry ce' hce hid, id, fun _ hi _ hpe _ => ⟨hi, hpe⟩⟩

/-- A step on the sprites is calm. -/
theorem calm_sprites (t : Table SpriteEntry) : Calm w { w with sprites := t } :=
  ⟨.refl _, id, fun _ hi _ hpe _ => ⟨hi, hpe⟩⟩

/-- A step that clears a placement is calm. -/
theorem calm_clearPlacement {i : Nat} {pe : PlacementEntry} (hptr : pe.ptr = none) :
    Calm w { w with placements := w.placements.setEntry i pe } := by
  refine ⟨.refl _, fun h => h.setEntry i pe, fun j hj pe' hpe' hlive => ⟨hj, ?_⟩⟩
  rcases entryAt_setEntry hpe' with ⟨-, rfl⟩ | ⟨-, hold⟩
  · exact absurd hptr hlive
  · exact hold

/-- A placement table that has lost its array has no placements. -/
theorem calm_lostPlacements {realloc : Int → Option Nat} {elemSize : Int}
    {mk : Nat → PlacementEntry} {t : Table PlacementEntry}
    (hins : w.placements.insert realloc elemSize mk = (none, t)) :
    Calm w { w with placements := t } := by
  rcases insert_failed hins with ⟨rfl, hattached⟩
  refine ⟨.refl _, fun _ => hattached, fun i _ pe hpe _ => ?_⟩
  simp [Table.entryAt] at hpe

/-- `DESTROY_CANVAS` leaves the placements on it as they are, -/
theorem placements_destroyCanvas (request : CStr) (w : World) :
    (destroyCanvas request w).world.placements = w.placements := by
  unfold destroyCanvas
  split
  · rfl
  · split
    · rfl
    · split
      · rfl
      · split
        · rfl
        · exact placements_canvasRemove w _

/-- `SHARE` leaves the placements as they are. -/
theorem placements_share (request : CStr) (r : ClientRegistry) (w : World) :
    (share request r w).world.placements = w.placements := by
  unfold share
  split
  · rfl
  · split
    · rfl
    · split
      · rfl
      · split
        · rfl
        · -- the new owner goes into the canvas entry
          dsimp only
          split
          · rfl
          · split <;> rfl

/-- A command that looks up a canvas, other than `place_sprite`, leaves the placements alone. -/
theorem placements_runRpc {type : TaskType} {request : CStr} {ci : Nat}
    (hci : canvasOf type request w = some ci) (hplace : type ≠ .PLACE_SPRITE) (env : Env)
    (client : ClientRef) (r : ClientRegistry) :
    (runRpc type env client request r w).world.placements = w.placements := by
  unfold canvasOf at hci
  split at hci
  · exact placements_destroyCanvas request w
  · exact absurd rfl hplace
  · exact congrArg World.placements (generate_world env request).1
  · exact placements_share request r w
  · cases hci

/-- Every command but `create_canvas` and `place_sprite` is calm. -/
theorem calm_runRpc {type : TaskType} (hcreate : type ≠ .CREATE_CANVAS)
    (hplace : type ≠ .PLACE_SPRITE) (env : Env) (client : ClientRef) (request : CStr)
    (r : ClientRegistry) : Calm w (runRpc type env client request r w).world := by
  have hdid := did_runRpc type env client request r w
  have hkept : ∀ ci, canvasOf type request w = some ci →
      (runRpc type env client request r w).world.placements = w.placements :=
    fun ci hci => placements_runRpc hci hplace env client r
  generalize (runRpc type env client request r w).world = w' at hdid hkept ⊢
  generalize (runRpc type env client request r w).effects = es at hdid
  cases hdid with
  | refused => exact .refl w
  | madeNothing => exact .refl w
  | placedNothing => exact .refl w
  | usedPlacement => exact .refl w
  | drew => exact .refl w
  | canvas htype => exact absurd htype hcreate
  | canvasLost htype => exact absurd htype hcreate
  | sprite => exact calm_sprites _
  | spriteLost => exact calm_sprites _
  | destroyedSprite => exact calm_sprites _
  | placement hci _ _ hins =>
    -- only `place_sprite` adds a placement
    obtain rfl := hkept _ hci
    have hcount := (insert_fields hins).1
    omega
  | placementLost _ _ _ hins => exact calm_lostPlacements hins
  | destroyedCanvas _ hce => exact calm_setCanvas _ hce rfl
  | destroyedPlacement => exact calm_clearPlacement rfl
  | shared _ hce => exact calm_setCanvas _ hce rfl

end Calm

/-! ## The invariant -/

/-- What holds in every run: the pointers are good, and the canvas entries carry their index. -/
structure Inv (w : World) (on : Nat → Option Int) : Prop where
  canvases : Attached w.canvases
  placements : Attached w.placements
  own_id : ∀ i ce, w.canvases.entryAt i = some ce → ce.canvasId = i
  points : AllPoint w on

section Inv

variable {w w' : World} {on : Nat → Option Int}

/-- At the start there is no placement. -/
theorem inv_init (on : Nat → Option Int) : Inv .init on where
  canvases := attached_empty
  placements := attached_empty
  own_id := fun i ce hce => by simp [World.init, Table.empty, Table.entryAt] at hce
  points := fun i hi => absurd hi (Nat.not_lt_zero i)

/-- A calm step leaves all pointers valid. -/
theorem Inv.calm (h : Inv w on) (hcalm : Calm w w') : Inv w' on where
  canvases := hcalm.canvases.attached h.canvases
  placements := hcalm.attached h.placements
  own_id := fun i ce hce => by
    have hmap := hcalm.canvases.id i
    rw [hce, Option.map_some, eq_comm] at hmap
    rcases Option.map_eq_some_iff.mp hmap with ⟨ce', hce', heq⟩
    rw [← heq]
    exact h.own_id i ce' hce'
  points := fun i hi pe hpe hlive => by
    rcases hcalm.placements i hi pe hpe hlive with ⟨hi', hpe'⟩
    exact (h.points i hi' pe hpe' hlive).congr hcalm.canvases

/-- The cleanup for a client clears pointers in the entries. -/
theorem Inv.cleanup (h : Inv w on) (client : ClientRef) : Inv (destroyOwned client w).1 on := by
  refine destroyOwned_induct client (fun w' _ => Inv w' on) ?_ ?_ ?_ h
  · intro w' es i e ptr h' _ he _ _
    exact h'.calm (calm_setCanvas _ he rfl)
  · intro w' es i e ptr h' _ _ _ _
    exact h'.calm (calm_sprites _)
  · intro w' es i e ptr h' _ _ _ _
    exact h'.calm (calm_clearPlacement rfl)

/-- `create_canvas` leaves everything as it was or enters a canvas. -/
theorem createCanvas_cases (env : Env) (client : ClientRef) (request : CStr) (w : World) :
    (¬ ((parseCreateCanvas request).isOk ∧ env.create ≠ none) ∧
        (createCanvas env client request w).world = w) ∨
      (parseCreateCanvas request).isOk ∧ ∃ cv wd h id t, env.create = some cv ∧
        w.canvases.insert env.realloc sizeofCanvasEntry (newCanvas cv client wd h) = (id, t) ∧
        (createCanvas env client request w).world = { w with canvases := t } := by
  unfold createCanvas
  cases hp : parseCreateCanvas request with
  | error a => exact Or.inl ⟨by simp [Except.isOk, Except.toBool], rfl⟩
  | ok args =>
    rcases args with ⟨ht, wd, bg⟩
    dsimp only
    cases hc : env.create with
    | none => exact Or.inl ⟨by simp, rfl⟩
    | some cv =>
      -- a canvas was made, and the insertion may have failed or not
      refine Or.inr ⟨rfl, cv, toInt wd, toInt ht, ?_⟩
      dsimp only
      split
      · rename_i w' hins
        rcases canvasInsert_eq hins with ⟨t, heq, rfl⟩
        exact ⟨none, t, rfl, heq, rfl⟩
      · rename_i id w' hins
        rcases canvasInsert_eq hins with ⟨t, heq, rfl⟩
        exact ⟨some id, t, rfl, heq, rfl⟩

/-- `place_sprite` leaves everything as it was or enters a placement, with the address of the
canvas entry that the request looks up. -/
theorem placeSprite_cases (env : Env) (client : ClientRef) (request : CStr) (w : World) :
    (placeSprite env client request w).world = w ∨
      ∃ (ci : Nat) (ce : CanvasEntry) (pl : Handle) (id : Option Nat) (t : Table PlacementEntry),
        placedOn request = some (ci : Int) ∧ ci < w.canvases.count ∧
        w.canvases.entryAt ci = some ce ∧
        w.placements.insert env.realloc sizeofPlacementEntry
          (newPlacement pl client ⟨(w.canvases.arr.map Arr.block).getD 0, ci⟩) = (id, t) ∧
        (placeSprite env client request w).world = { w with placements := t } := by
  unfold placeSprite
  cases hp : parsePlaceSprite request with
  | error a => exact Or.inl rfl
  | ok args =>
    rcases args with ⟨cid, sid, x, y⟩
    dsimp only
    cases hci : w.canvases.lookup (toInt cid) with
    | none => exact Or.inl rfl
    | some ci =>
      dsimp only
      cases hce : w.canvases.entryAt ci with
      | none => exact Or.inl rfl
      | some ce =>
        dsimp only
        split
        · split
          · exact Or.inl rfl
          · split
            · exact Or.inl rfl
            · -- the ids are good; libanimate and then the insertion may still fail
              unfold keepPlacement
              cases env.create with
              | none => exact Or.inl rfl
              | some pl =>
                have hon : placedOn request = some (ci : Int) := by
                  rw [placedOn, hp, ← (Table.lookup_eq_some hci).1]
                  rfl
                refine Or.inr ⟨ci, ce, pl, ?_⟩
                dsimp only
                split
                · rename_i w' hins
                  rcases placementInsert_eq hins with ⟨t, heq, rfl⟩
                  exact ⟨none, t, hon, (Table.lookup_eq_some hci).2, hce, heq, rfl⟩
                · rename_i id w' hins
                  rcases placementInsert_eq hins with ⟨t, heq, rfl⟩
                  exact ⟨some id, t, hon, (Table.lookup_eq_some hci).2, hce, heq, rfl⟩
        · exact Or.inl rfl

/-- A new canvas leaves the others where they are, unless the array moves. -/
theorem Inv.createCanvas (h : Inv w on) {env : Env} {client : ClientRef} {request : CStr}
    {r : ClientRegistry} (hok : InPlace (.rpc .CREATE_CANVAS env client request r) w) :
    Inv (createCanvas env client request w).world on := by
  rcases createCanvas_cases env client request w with
    ⟨-, heq⟩ | ⟨hparse, cv, wd, ht, id, t, hcreate, hins, heq⟩
  · rwa [heq]
  · -- with a placement around, the growth returns the block it was given
    have hsame : ∀ i < w.placements.count, ∀ pe, w.placements.entryAt i = some pe → pe.ptr ≠ none →
        (w.canvases.count : Int) = w.canvases.capacity →
        env.realloc (toInt (w.canvases.newcap * sizeofCanvasEntry)) =
          w.canvases.arr.map Arr.block := by
      intro i hi pe hpe hlive hfull
      by_contra hmoved
      exact hlive (hok ⟨hparse, by simp [hcreate], hfull, hmoved⟩ i hi pe hpe)
    rw [heq]
    cases id with
    | none =>
      rcases FailedRpc.insert_none (congrArg Prod.fst hins) with ⟨hfull, hnone, -⟩
      rcases insert_failed hins with ⟨rfl, hattached⟩
      refine ⟨hattached, h.placements, fun i ce hce => ?_, fun i hi pe hpe hlive => ?_⟩
      · simp [Table.entryAt] at hce
      · have hblock := (h.points i hi pe hpe hlive).1
        rw [← hsame i hi pe hpe hlive hfull, hnone] at hblock
        cases hblock
    | some id =>
      rcases insert_some h.canvases hins with ⟨-, hcount, hattached, hcells⟩
      refine ⟨hattached, h.placements, fun i ce hce => ?_, fun i hi pe hpe hlive => ?_⟩
      · rw [hcells] at hce
        split at hce
        · rename_i hi
          obtain rfl := Option.some.inj hce
          exact congrArg Int.ofNat hi.symm
        · exact h.own_id i ce hce
      · rcases h.points i hi pe hpe hlive with ⟨hblock, hlt, ce, hce, hid⟩
        refine ⟨?_, ?_, ce, ?_, hid⟩
        · rw [(insert_fields hins).2.2]
          split
          · rename_i hfull
            rw [hsame i hi pe hpe hlive hfull, hblock]
          · exact hblock
        · show _ < t.count
          omega
        · rw [hcells, if_neg (by omega), hce]

/-- A new placement points at the canvas that the request looks up. -/
theorem Inv.placeSprite (h : Inv w on) (env : Env) (client : ClientRef) (request : CStr)
    (r : ClientRegistry) :
    Inv (placeSprite env client request w).world
      (noteCanvas (.rpc .PLACE_SPRITE env client request r) w
        (placeSprite env client request w).world on) := by
  rcases placeSprite_cases env client request w with
    heq | ⟨ci, ce, pl, id, t, hon, hlt, hce, hins, heq⟩
  · rw [heq]
    simpa [noteCanvas] using h
  · rw [heq]
    cases id with
    | none =>
      have hcount : t.count = w.placements.count := by
        rcases insert_failed hins with ⟨rfl, -⟩
        rfl
      simpa [noteCanvas, hcount] using h.calm (calm_lostPlacements hins)
    | some id =>
      rcases insert_some h.placements hins with ⟨-, hcount, hattached, hcells⟩
      have hnote : noteCanvas (.rpc .PLACE_SPRITE env client request r) w
          { w with placements := t } on = Function.update on w.placements.count (some ↑ci) := by
        simp [noteCanvas, hcount, hon]
      rw [hnote]
      refine ⟨h.canvases, hattached, h.own_id, fun i hi pe hpe hlive => ?_⟩
      rw [hcells] at hpe
      by_cases hnew : i = w.placements.count
      · -- the new placement has the address of the entry the request looks up
        rw [if_pos hnew] at hpe
        obtain rfl := Option.some.inj hpe
        rw [hnew, Function.update_self]
        refine ⟨?_, hlt, ce, hce, by rw [h.own_id ci ce hce]⟩
        cases harr : w.canvases.arr with
        | none => simp [Table.entryAt, harr] at hce
        | some a => rfl
      · rw [if_neg hnew] at hpe
        rw [Function.update_of_ne hnew]
        have hi' : i < t.count := hi
        exact h.points i (by omega) pe hpe hlive

/-- So every step keeps the pointers valid, if the array of the canvases stays in its place. -/
theorem inv_step {l : TableLbl} (hs : tableStep l w = some w') (hok : InPlace l w)
    (h : Inv w on) : Inv w' (noteCanvas l w w' on) := by
  cases l with
  | cleanup client =>
    obtain rfl := Option.some.inj hs
    exact h.cleanup client
  | rpc type env client request r =>
    obtain ⟨-, rfl⟩ : _ ∧ (runRpc type env client request r w).world = w' := by
      simpa [tableStep] using hs
    by_cases hcreate : type = .CREATE_CANVAS
    · subst hcreate
      exact h.createCanvas hok
    · by_cases hplace : type = .PLACE_SPRITE
      · subst hplace
        exact h.placeSprite env client request r
      · -- no other request notes a canvas
        have hnote : noteCanvas (.rpc type env client request r) w
            (runRpc type env client request r w).world on = on := by
          unfold noteCanvas
          split
          · rename_i heq
            cases heq
            exact absurd rfl hplace
          · rfl
        rw [hnote]
        exact h.calm (calm_runRpc hcreate hplace env client request r)

end Inv

/-- The pointers are valid in every run in which the array of the canvases stays in its place. -/
theorem reachable_inv {w : World} {on : Nat → Option Int}
    (h : ((tables.under InPlace).recording (fun _ => none) noteCanvas).Reachable (w, on)) :
    Inv w on := by
  have hinv : ∀ p, ((tables.under InPlace).recording (fun _ => none) noteCanvas).Reachable p →
      Inv p.1 p.2 := by
    intro p hp
    refine hp.invariant (fun p hp => ?_) (fun l p p' hn hi => ?_)
    · rcases p with ⟨w, on⟩
      rcases hp with ⟨rfl, rfl⟩
      exact inv_init _
    · rcases hn with ⟨⟨hok, hs⟩, hon⟩
      rw [hon]
      exact inv_step hs hok hi
  exact hinv _ h

/-- In a run in which the canvas array is not moved while there are placements, the pointer of
every live placement goes to the canvas that it was placed on. -/
theorem placements_point_at_canvases {w : World} {on : Nat → Option Int}
    (h : ((tables.under InPlace).recording (fun _ => none) noteCanvas).Reachable (w, on)) :
    AllPoint w on :=
  (reachable_inv h).points

/-- With a placement on the first canvas the array grows from 64 entries to 128, in place. -/
theorem placements_point_at_canvases_grown :
    ∃ w on, w.canvases.capacity = 128 ∧ (w.placements.entryAt 0).isSome ∧ AllPoint w on := by
  obtain ⟨⟨w, on⟩, hr, hp⟩ := exists_reachable_of_run (World.init, fun _ => none)
    (recordStep noteCanvas (guarded InPlace tableStep))
    (placing ++ List.replicate 64 (ask .CREATE_CANVAS 1 "10 10 0"))
    (fun p => decide (p.1.canvases.capacity = 128 ∧ (p.1.placements.entryAt 0).isSome))
    (by decide +kernel)
  rw [← recording_ofStep, ← under_ofStep] at hr
  rcases of_decide_eq_true hp with ⟨hcap, hsome⟩
  exact ⟨w, on, hcap, hsome, placements_point_at_canvases hr⟩

/-! ## A move -/

/-- A step that moves the array away from a placement breaks its pointer. -/
theorem points_after_iff {l : TableLbl} {w w' : World} {on : Nat → Option Int}
    (hs : tableStep l w = some w') (h : Inv w on) :
    AllPoint w' (noteCanvas l w w' on) ↔ InPlace l w := by
  refine ⟨fun hpoints hmoves => ?_, fun hok => (inv_step hs hok h).points⟩
  intro i hi pe hpe
  by_contra hlive
  have hold := (h.points i hi pe hpe hlive).1
  cases l with
  | cleanup client => exact hmoves
  | rpc type env client request r =>
    obtain ⟨-, rfl⟩ : _ ∧ (runRpc type env client request r w).world = w' := by
      simpa [tableStep] using hs
    -- only `create_canvas` can move the array of the canvases
    by_cases hcreate : type = .CREATE_CANVAS
    · subst hcreate
      rcases hmoves with ⟨hparse, hptr, hfull, hmoved⟩
      replace hpoints : AllPoint (createCanvas env client request w).world on := hpoints
      rcases createCanvas_cases env client request w with
        ⟨hno, -⟩ | ⟨-, cv, wd, ht, id, t, -, hins, heq⟩
      · exact hno ⟨hparse, hptr⟩
      · rw [heq] at hpoints
        have hnew : t.arr.map Arr.block = some pe.canvas.block := (hpoints i hi pe hpe hlive).1
        cases id with
        | none =>
          rcases insert_failed hins with ⟨rfl, -⟩
          cases hnew
        | some id =>
          rw [(insert_fields hins).2.2, if_pos hfull] at hnew
          exact hmoved (hnew.trans hold.symm)
    · unfold Moves at hmoves
      split at hmoves
      · rename_i heq
        cases heq
        exact hcreate rfl
      · exact hmoves

/-- The requests that create, place and destroy objects. -/
def isObjectRequest : TableLbl → Bool
  | .rpc .CREATE_CANVAS .. | .rpc .CREATE_SPRITE .. | .rpc .CREATE_RECTANGLE ..
  | .rpc .CREATE_CIRCLE .. | .rpc .PLACE_SPRITE .. | .rpc .DESTROY_CANVAS ..
  | .rpc .DESTROY_SPRITE .. | .rpc .DESTROY_PLACEMENT .. => true
  | _ => false

/-- The 65th canvas moves the array away from the placement on the first one. -/
theorem placement_dangles :
    ¬ ∀ w on, ((tables.under fun l _ => isObjectRequest l = true).recording
      (fun _ => none) noteCanvas).Reachable (w, on) → AllPoint w on := by
  intro hall
  obtain ⟨⟨w, on⟩, hr, hp⟩ := exists_reachable_of_run (World.init, fun _ => none)
    (recordStep noteCanvas (guarded (fun l _ => isObjectRequest l = true) tableStep))
    (placing ++ List.replicate 63 (ask .CREATE_CANVAS 1 "10 10 0") ++
      [.rpc .CREATE_CANVAS { Env.allSucceed 1 with realloc := fun _ => some 2 } 0
        "10 10 0".toList .init])
    (fun p => decide (0 < p.1.placements.count ∧ p.1.canvases.arr.map Arr.block = some 2 ∧
      p.1.placements.entryAt 0 = some (newPlacement 3 0 ⟨1, 0⟩ 0)))
    (by decide +kernel)
  rw [← recording_ofStep, ← under_ofStep] at hr
  rcases of_decide_eq_true hp with ⟨hcount, hblock, hpe⟩
  -- the 65th canvas moves the array, and the placement still names the old block
  have hpoint := (hall w on hr 0 hcount _ hpe (by simp [newPlacement])).1
  rw [hblock] at hpoint
  cases hpoint

end AnimateServer.CanvasPointers
