import AnimateServer.Verify.Accounting
import AnimateServer.Verify.Answers
import AnimateServer.Verify.LoginGate
import AnimateServer.Verify.Stamps
import AnimateServer.Verify.TableMaps

/-!
# The ids that clients are told

A command that makes an object replies with the index of its entry, and no entry is used for a
second object. So the ids that have been given out for the objects of one kind are 0, 1, 2 and
so on, in the order of the replies; and as long as the tables can grow, an id goes to the entry
that was made for it, with its pointer or with none. A worker runs the case of a task in one
step here; what two workers do to one table when their insertions interleave is the subject of
`ConcurrentInsert`.
-/

namespace AnimateServer.ObjectNames

open CLib Server ServerSteps ServerInv Descriptors Transition TableOwners CommandCases TableMaps
  LoginGate Answers

/-- The kind of the objects that a command makes. -/
def kindOf : TaskType → Option ObjKind
  | .CREATE_CANVAS => some .canvas
  | .CREATE_SPRITE | .CREATE_RECTANGLE | .CREATE_CIRCLE => some .sprite
  | .PLACE_SPRITE => some .placement
  | _ => none

/-! ### Entries over time -/

def ptrOf : ObjEntry → Option Handle
  | .canvas e => e.ptr
  | .sprite e => e.ptr
  | .placement e => e.ptr

def ownerOf : ObjEntry → Option ClientRef
  | .canvas e => e.owner
  | .sprite e => e.owner
  | .placement e => e.owner

/-- The entry is still of the same object, or its object has been destroyed. -/
structure Ages (e e' : ObjEntry) : Prop where
  id : e'.id = e.id
  ptr : ptrOf e' = ptrOf e ∨ ptrOf e' = none
  owner : ownerOf e' = ownerOf e ∨ ptrOf e' = none

/-- An entry that is left alone ages. -/
theorem Ages.refl (e : ObjEntry) : Ages e e := ⟨rfl, Or.inl rfl, Or.inl rfl⟩

/-- An entry ages through several steps: what has no pointer gets none again. -/
theorem Ages.trans {e e' e'' : ObjEntry} (h : Ages e e') (h' : Ages e' e'') : Ages e e'' := by
  have hnone : ptrOf e' = none → ptrOf e'' = none := fun hp => h'.ptr.elim (·.trans hp) (·)
  refine ⟨h'.id.trans h.id, ?_, ?_⟩
  · exact h'.ptr.elim (fun heq => h.ptr.imp heq.trans heq.trans) Or.inr
  · exact h'.owner.elim (fun heq => h.owner.imp heq.trans hnone) Or.inr

/-- The entries of `v` are still there in `v'`. -/
structure Keeps (v v' : View) : Prop where
  count : v.count ≤ v'.count
  row : ∀ i < v.count, ∀ e, v.row i = some e → ∃ e', v'.row i = some e' ∧ Ages e e'

section Keeps

variable {v v' v'' : View}

theorem Keeps.refl (v : View) : Keeps v v := ⟨le_refl _, fun _ _ e he => ⟨e, he, .refl e⟩⟩

/-- What two steps keep their sequence keeps. -/
theorem Keeps.trans (h : Keeps v v') (h' : Keeps v' v'') : Keeps v v'' := by
  refine ⟨h.count.trans h'.count, fun i hi e he => ?_⟩
  rcases h.row i hi e he with ⟨e', he', hages⟩
  rcases h'.row i (Nat.lt_of_lt_of_le hi h.count) e' he' with ⟨e'', he'', hages'⟩
  exact ⟨e'', he'', hages.trans hages'⟩

variable {ε : Type} {t t' : Table ε}

/-- A cell is written, and its entry ages. -/
theorem keeps_setEntry (wrap : ε → ObjEntry) {i : Nat} {e e' : ε} (he : t.entryAt i = some e)
    (hages : Ages (wrap e) (wrap e')) : Keeps (viewOf wrap t) (viewOf wrap (t.setEntry i e')) := by
  refine ⟨le_refl _, fun j _ o ho => ?_⟩
  have hrow : (t.entryAt j).map wrap = some o := ho
  by_cases hj : j = i
  · subst hj
    rw [he] at hrow
    obtain rfl := Option.some.inj hrow
    exact ⟨wrap e', congrArg (Option.map wrap) (entryAt_setEntry_self e' he), hages⟩
  · refine ⟨o, ?_, .refl o⟩
    show ((t.setEntry i e').entryAt j).map wrap = some o
    rw [entryAt_setEntry_ne t e' hj]
    exact hrow

/-- An insertion that gets through writes a new cell. -/
theorem keeps_insert (wrap : ε → ObjEntry) {realloc : Int → Option Nat} {elemSize : Int}
    {mk : Nat → ε} {id : Nat} (h : Attached t)
    (hins : t.insert realloc elemSize mk = (some id, t')) :
    Keeps (viewOf wrap t) (viewOf wrap t') ∧ Attached t' ∧ id = t.count ∧
      t'.count = t.count + 1 ∧ (viewOf wrap t').row id = some (wrap (mk id)) := by
  -- the old cells are read back unchanged, the new one stands at the old count
  rcases insert_some h hins with ⟨rfl, hcount, hattached, hcells⟩
  refine ⟨⟨?_, fun i hi o ho => ⟨o, ?_, .refl o⟩⟩, hattached, rfl, hcount, ?_⟩
  · show t.count ≤ t'.count
    omega
  · show (t'.entryAt i).map wrap = some o
    have hi : i < t.count := hi
    rw [hcells, if_neg (by omega)]
    exact ho
  · show (t'.entryAt t.count).map wrap = some _
    rw [hcells, if_pos rfl]
    rfl

end Keeps

/-- No entry is added, and none is lost. -/
structure Rests (w w' : World) : Prop where
  count : ∀ k, (view w' k).count = (view w k).count
  attached : AllAttached w → AllAttached w'
  keeps : ∀ k, Keeps (view w k) (view w' k)

section Rests

variable {w w' w'' : World}

theorem Rests.refl (w : World) : Rests w w := ⟨fun _ => rfl, (·), fun _ => .refl _⟩

/-- Two steps that make no entry make none together. -/
theorem Rests.trans (h : Rests w w') (h' : Rests w' w'') : Rests w w'' :=
  ⟨fun k => (h'.count k).trans (h.count k), fun ha => h'.attached (h.attached ha),
    fun k => (h.keeps k).trans (h'.keeps k)⟩

/-- Overwriting an entry by one that is older makes no entry, in each of the three tables. -/
theorem rests_setCanvas {i : Nat} {e e' : CanvasEntry} (he : w.canvases.entryAt i = some e)
    (hages : Ages (.canvas e) (.canvas e')) :
    Rests w { w with canvases := w.canvases.setEntry i e' } where
  count := fun k => by cases k <;> rfl
  attached := fun h => ⟨h.canvases.setEntry i e', h.sprites, h.placements⟩
  keeps := fun k => by
    cases k with
    | canvas => exact keeps_setEntry .canvas he hages
    | _ => exact .refl _

theorem rests_setSprite {i : Nat} {e e' : SpriteEntry} (he : w.sprites.entryAt i = some e)
    (hages : Ages (.sprite e) (.sprite e')) :
    Rests w { w with sprites := w.sprites.setEntry i e' } where
  count := fun k => by cases k <;> rfl
  attached := fun h => ⟨h.canvases, h.sprites.setEntry i e', h.placements⟩
  keeps := fun k => by
    cases k with
    | sprite => exact keeps_setEntry .sprite he hages
    | _ => exact .refl _

theorem rests_setPlacement {i : Nat} {e e' : PlacementEntry}
    (he : w.placements.entryAt i = some e) (hages : Ages (.placement e) (.placement e')) :
    Rests w { w with placements := w.placements.setEntry i e' } where
  count := fun k => by cases k <;> rfl
  attached := fun h => ⟨h.canvases, h.sprites, h.placements.setEntry i e'⟩
  keeps := fun k => by
    cases k with
    | placement => exact keeps_setEntry .placement he hages
    | _ => exact .refl _

/-- The cleanup after a client. -/
theorem rests_destroyOwned (client : ClientRef) (w : World) :
    Rests w (destroyOwned client w).1 := by
  refine destroyOwned_induct client (fun w' _ => Rests w w') ?_ ?_ ?_ (.refl w)
  · intro w' es i e ptr h hi he hptr hown
    exact h.trans (rests_setCanvas he ⟨rfl, Or.inr rfl, Or.inr rfl⟩)
  · intro w' es i e ptr h hi he hptr hown
    exact h.trans (rests_setSprite he ⟨rfl, Or.inr rfl, Or.inr rfl⟩)
  · intro w' es i e ptr h hi he hptr hown
    exact h.trans (rests_setPlacement he ⟨rfl, Or.inr rfl, Or.inr rfl⟩)

end Rests

/-! ### One command -/

def clientOf : NewObject → ClientRef
  | .canvas _ owner _ _ => owner
  | .sprite _ owner => owner
  | .placement _ owner _ => owner

/-- What a command that replies `rv` has done to the tables. -/
inductive Moved (type : TaskType) (env : Env) (client : ClientRef) (w : World) (rv : RetVal) :
    World → Prop where
  | made {new : NewObject} {id : Nat} {w' : World}
      (hins : exec (.insert env.realloc new) w = (some id, w'))
      (hkind : kindOf type = some new.kind) (howner : clientOf new = client)
      (hreply : rv = ret2 0 id) : Moved type env client w rv w'
  | lost {new : NewObject} {w' : World} (hins : exec (.insert env.realloc new) w = (none, w'))
      (hkind : kindOf type = some new.kind) (hreply : rv.a ≠ 0) : Moved type env client w rv w'
  | rested {w' : World} (hrests : Rests w w') (hreply : kindOf type ≠ none → rv.a ≠ 0) :
      Moved type env client w rv w'

section Command

variable {type : TaskType} {env : Env} {client : ClientRef} {request : CStr} {w : World}
  {rv : RetVal}

/-- The command refuses, and has not touched the tables. -/
theorem moved_refused {a : Int} (ha : a ≠ 0) (h : some (ret1 a) = some rv) :
    Moved type env client w rv w := by
  obtain rfl := Option.some.inj h
  exact .rested (.refl w) fun _ => ha

/-- `CREATE_CANVAS` makes one entry and tells its id, or it tells a code; the entry may be there or
lost with the table. -/
theorem moved_createCanvas (h : (createCanvas env client request w).retval = some rv) :
    Moved .CREATE_CANVAS env client w rv (createCanvas env client request w).world := by
  unfold createCanvas at h ⊢
  -- the text, then the library, then the table may refuse
  cases hp : parseCreateCanvas request with
  | error a =>
    rw [hp] at h
    exact moved_refused (coded_parseCreateCanvas.neg hp).ne h
  | ok args =>
    rcases args with ⟨ht, wd, bg⟩
    rw [hp] at h
    dsimp only at h ⊢
    cases hc : env.create with
    | none =>
      rw [hc] at h
      exact moved_refused (by decide) h
    | some cv =>
      rw [hc] at h
      dsimp only at h ⊢
      split at h
      · rename_i w' hins
        obtain rfl := Option.some.inj h
        exact .lost (show exec (.insert env.realloc (.canvas cv client (toInt wd) (toInt ht))) w =
          (none, w') from hins) rfl (by decide)
      · rename_i id w' hins
        obtain rfl := Option.some.inj h
        exact .made (show exec (.insert env.realloc (.canvas cv client (toInt wd) (toInt ht))) w =
          (some id, w') from hins) rfl rfl rfl

/-- The three handlers that make a sprite do the same with it. -/
theorem moved_keepSprite (htype : kindOf type = some .sprite) {call : Effect}
    (h : (keepSprite env call client w).retval = some rv) :
    Moved type env client w rv (keepSprite env call client w).world := by
  unfold keepSprite at h ⊢
  -- the library, then the table may refuse
  cases hc : env.create with
  | none =>
    rw [hc] at h
    exact moved_refused (by decide) h
  | some sp =>
    rw [hc] at h
    dsimp only at h ⊢
    split at h
    · rename_i w' hins
      obtain rfl := Option.some.inj h
      exact .lost (show exec (.insert env.realloc (.sprite sp client)) w = (none, w') from hins)
        htype (by decide)
    · rename_i id w' hins
      obtain rfl := Option.some.inj h
      exact .made (show exec (.insert env.realloc (.sprite sp client)) w = (some id, w') from hins)
        htype rfl rfl

theorem moved_createSprite (h : (createSprite env client request w).retval = some rv) :
    Moved .CREATE_SPRITE env client w rv (createSprite env client request w).world := by
  unfold createSprite at h ⊢
  cases hp : parseCreateSprite request with
  | error a =>
    rw [hp] at h
    exact moved_refused (coded_parseCreateSprite.neg hp).ne h
  | ok file =>
    rw [hp] at h
    exact moved_keepSprite rfl h

theorem moved_createRectangle (h : (createRectangle env client request w).retval = some rv) :
    Moved .CREATE_RECTANGLE env client w rv (createRectangle env client request w).world := by
  unfold createRectangle at h ⊢
  cases hp : parseCreateRectangle request with
  | error a =>
    rw [hp] at h
    exact moved_refused (coded_parseCreateRectangle.neg hp).ne h
  | ok args =>
    rcases args with ⟨wd, ht, color, filled⟩
    rw [hp] at h
    exact moved_keepSprite rfl h

theorem moved_createCircle (h : (createCircle env client request w).retval = some rv) :
    Moved .CREATE_CIRCLE env client w rv (createCircle env client request w).world := by
  unfold createCircle at h ⊢
  cases hp : parseCreateCircle request with
  | error a =>
    rw [hp] at h
    exact moved_refused (coded_parseCreateCircle.neg hp).ne h
  | ok args =>
    rcases args with ⟨radius, color, filled⟩
    rw [hp] at h
    exact moved_keepSprite rfl h

/-- A placement that gets no entry is destroyed again. -/
theorem moved_keepPlacement {call : Effect} {touched : List (ObjKind × Nat)} {canvas : CanvasPtr}
    (h : (keepPlacement env call touched client canvas w).retval = some rv) :
    Moved .PLACE_SPRITE env client w rv
      (keepPlacement env call touched client canvas w).world := by
  unfold keepPlacement at h ⊢
  -- the library, then the table may refuse
  cases hc : env.create with
  | none =>
    rw [hc] at h
    exact moved_refused (by decide) h
  | some pl =>
    rw [hc] at h
    dsimp only at h ⊢
    split at h
    · rename_i w' hins
      obtain rfl := Option.some.inj h
      exact .lost (show exec (.insert env.realloc (.placement pl client canvas)) w =
        (none, w') from hins) rfl (by decide)
    · rename_i id w' hins
      obtain rfl := Option.some.inj h
      exact .made (show exec (.insert env.realloc (.placement pl client canvas)) w =
        (some id, w') from hins) rfl rfl rfl

/-- `PLACE_SPRITE` makes its entry after all tests. -/
theorem moved_placeSprite (h : (placeSprite env client request w).retval = some rv) :
    Moved .PLACE_SPRITE env client w rv (placeSprite env client request w).world := by
  unfold placeSprite at h ⊢
  -- ids that look up nothing and entries without an object are refused
  split at h
  · rename_i a hp
    exact moved_refused (coded_parsePlaceSprite.neg hp).ne h
  · split at h
    · exact moved_refused (by decide) h
    · split at h
      · cases h
      · split at h
        · dsimp only at h ⊢
          split at h
          · cases h
          · split at h
            · exact moved_refused (by decide) h
            · exact moved_keepPlacement h
        · exact moved_refused (by decide) h

/-- The handlers that destroy clear the pointer of an entry and make none. -/
theorem rests_destroyCanvas (request : CStr) (w : World) :
    Rests w (destroyCanvas request w).world := by
  unfold destroyCanvas
  split
  · exact .refl w
  · split
    · exact .refl w
    · rename_i i hi
      split
      · exact .refl w
      · rename_i ce hce
        split
        · exact .refl w
        · rename_i hptr
          rcases Option.ne_none_iff_exists'.mp hptr with ⟨cv, hcv⟩
          -- only the pointer of this entry goes
          rw [canvasRemove_eq hi hce hcv]
          exact rests_setCanvas hce ⟨rfl, Or.inr rfl, Or.inl rfl⟩

theorem rests_destroySprite (env : Env) (request : CStr) (w : World) :
    Rests w (destroySprite env request w).world := by
  unfold destroySprite
  split
  · exact .refl w
  · split
    · exact .refl w
    · rename_i i hi
      split
      · exact .refl w
      · rename_i se hse
        split
        · exact .refl w
        · rename_i hptr
          rcases Option.ne_none_iff_exists'.mp hptr with ⟨sp, hsp⟩
          -- only the pointer of this entry goes
          rw [spriteRemove_eq hi hse hsp]
          exact rests_setSprite hse ⟨rfl, Or.inr rfl, Or.inl rfl⟩

/-- A handler of placements that finds none leaves the tables alone. -/
theorem rests_onPlacement {id : Int} {act : Handle → World × List Effect}
    (hact : ∀ i pe pl, w.placements.lookup (toInt id) = some i →
      w.placements.entryAt i = some pe → pe.ptr = some pl → Rests w (act pl).1) :
    Rests w (onPlacement id w act).world := by
  unfold onPlacement
  split
  · exact .refl w
  · rename_i i hi
    split
    · exact .refl w
    · rename_i pe hpe
      split
      · exact .refl w
      · rename_i pl hpl
        exact hact i pe pl hi hpe hpl

theorem rests_movePlacement (call : Handle → Effect) (request : CStr) (w : World) :
    Rests w (movePlacement call request w).world := by
  unfold movePlacement
  split
  · exact .refl w
  · exact rests_onPlacement fun _ _ _ _ _ _ => .refl w

theorem rests_setAnimParam (request : CStr) (w : World) :
    Rests w (setAnimParam request w).world := by
  unfold setAnimParam
  split
  · exact .refl w
  · exact rests_onPlacement fun _ _ _ _ _ _ => .refl w

theorem rests_destroyPlacement (request : CStr) (w : World) :
    Rests w (destroyPlacement request w).world := by
  unfold destroyPlacement
  split
  · exact .refl w
  · refine rests_onPlacement fun i pe pl hi hpe hpl => ?_
    rw [placementRemove_eq hi hpe hpl]
    exact rests_setPlacement hpe ⟨rfl, Or.inr rfl, Or.inl rfl⟩

/-- `SHARE` enters a client in the list of the canvas; that is no new entry. -/
theorem rests_share (request : CStr) (r : ClientRegistry) (w : World) :
    Rests w (share request r w).world := by
  unfold share
  split
  · exact .refl w
  · split
    · exact .refl w
    · rename_i i hi
      split
      · exact .refl w
      · rename_i ce hce
        split
        · exact .refl w
        · dsimp only
          split
          · exact .refl w
          · split
            · exact .refl w
            · -- pointer and owner stay, the list grows
              exact rests_setCanvas hce ⟨rfl, Or.inl rfl, Or.inl rfl⟩

/-- The commands that make no object. -/
theorem rests_runRpc (hkind : kindOf type = none) (env : Env) (client : ClientRef)
    (request : CStr) (r : ClientRegistry) (w : World) :
    Rests w (runRpc type env client request r w).world := by
  -- the types that make an object are excluded by the kind
  cases type with
  | CREATE_CANVAS => cases hkind
  | CREATE_SPRITE => cases hkind
  | CREATE_RECTANGLE => cases hkind
  | CREATE_CIRCLE => cases hkind
  | PLACE_SPRITE => cases hkind
  | DESTROY_CANVAS => exact rests_destroyCanvas request w
  | DESTROY_SPRITE => exact rests_destroySprite env request w
  | PLACEMENT_UP => exact rests_movePlacement .placementUp request w
  | PLACEMENT_DOWN => exact rests_movePlacement .placementDown request w
  | PLACEMENT_TOP => exact rests_movePlacement .placementTop request w
  | PLACEMENT_BOTTOM => exact rests_movePlacement .placementBottom request w
  | DESTROY_PLACEMENT => exact rests_destroyPlacement request w
  | SET_ANIM_PARAM => exact rests_setAnimParam request w
  | GENERATE =>
    show Rests w (generate env request w).world
    rw [(generate_world env request).1]
    exact .refl w
  | SHARE => exact rests_share request r w
  | HANDSHAKE => exact .refl w
  | AUTHORISE => exact .refl w
  | BARRIER => exact .refl w

/-- Every handler that has a reply makes one entry and tells its id, or loses a table, or makes none
and tells no id. -/
theorem moved_runRpc {r : ClientRegistry}
    (h : (runRpc type env client request r w).retval = some rv) :
    Moved type env client w rv (runRpc type env client request r w).world := by
  cases hkind : kindOf type with
  | none => exact .rested (rests_runRpc hkind env client request r w) fun hne => absurd hkind hne
  | some k =>
    cases type with
    | CREATE_CANVAS => exact moved_createCanvas h
    | CREATE_SPRITE => exact moved_createSprite h
    | CREATE_RECTANGLE => exact moved_createRectangle h
    | CREATE_CIRCLE => exact moved_createCircle h
    | PLACE_SPRITE => exact moved_placeSprite h
    | _ => cases hkind

end Command

section Insert

variable {w w' : World} {realloc : Int → Option Nat} {new : NewObject} {id : Nat}

/-- An insertion that gets through. -/
structure Made (w w' : World) (new : NewObject) (id : Nat) : Prop where
  attached : AllAttached w'
  keeps : ∀ k, Keeps (view w k) (view w' k)
  fresh : id = (view w new.kind).count
  count : ∀ k, (view w' k).count = (view w k).count + if k = new.kind then 1 else 0
  row : (view w' new.kind).row id = some (new.entry id)

/-- A successful insertion makes the entry behind the last one, in the table of its kind. -/
theorem made_exec (h : AllAttached w) (hins : exec (.insert realloc new) w = (some id, w')) :
    Made w w' new id := by
  -- the three kinds differ in the table that grows
  cases new with
  | canvas ptr owner wd ht =>
    rcases canvasInsert_eq hins with ⟨t, ht, rfl⟩
    rcases keeps_insert ObjEntry.canvas h.canvases ht with ⟨hkeeps, hattached, hid, hcount, hrow⟩
    refine ⟨⟨hattached, h.sprites, h.placements⟩, fun k => ?_, hid, fun k => ?_, hrow⟩
    · cases k with
      | canvas => exact hkeeps
      | _ => exact .refl _
    · cases k with
      | canvas => exact hcount
      | _ => rfl
  | sprite ptr owner =>
    rcases spriteInsert_eq hins with ⟨t, ht, rfl⟩
    rcases keeps_insert ObjEntry.sprite h.sprites ht with ⟨hkeeps, hattached, hid, hcount, hrow⟩
    refine ⟨⟨h.canvases, hattached, h.placements⟩, fun k => ?_, hid, fun k => ?_, hrow⟩
    · cases k with
      | sprite => exact hkeeps
      | _ => exact .refl _
    · cases k with
      | sprite => exact hcount
      | _ => rfl
  | placement ptr owner canvas =>
    rcases placementInsert_eq hins with ⟨t, ht, rfl⟩
    rcases keeps_insert ObjEntry.placement h.placements ht with
      ⟨hkeeps, hattached, hid, hcount, hrow⟩
    refine ⟨⟨h.canvases, h.sprites, hattached⟩, fun k => ?_, hid, fun k => ?_, hrow⟩
    · cases k with
      | placement => exact hkeeps
      | _ => exact .refl _
    · cases k with
      | placement => exact hcount
      | _ => rfl

/-- The table of the objects of kind `k` has a free cell or can be grown. -/
def RoomFor (realloc : Int → Option Nat) (w : World) : ObjKind → Prop
  | .canvas => HasRoom realloc sizeofCanvasEntry w.canvases
  | .sprite => HasRoom realloc sizeofSpriteEntry w.sprites
  | .placement => HasRoom realloc sizeofPlacementEntry w.placements

/-- An insertion that fails loses the array of its table, and adds nothing. -/
theorem lost_exec (h : AllAttached w) (hins : exec (.insert realloc new) w = (none, w')) :
    AllAttached w' ∧ (∀ k, (view w' k).count = (view w k).count) ∧
      ¬ RoomFor realloc w new.kind := by
  -- a failed insertion means a full table and a refused realloc
  cases new with
  | canvas ptr owner wd ht =>
    rcases canvasInsert_eq hins with ⟨t, ht, rfl⟩
    rcases FailedRpc.insert_none (congrArg Prod.fst ht) with ⟨hfull, hnone, -⟩
    rcases insert_failed ht with ⟨rfl, hattached⟩
    exact ⟨⟨hattached, h.sprites, h.placements⟩, fun k => by cases k <;> rfl,
      fun hroom => hroom ⟨hfull, hnone⟩⟩
  | sprite ptr owner =>
    rcases spriteInsert_eq hins with ⟨t, ht, rfl⟩
    rcases FailedRpc.insert_none (congrArg Prod.fst ht) with ⟨hfull, hnone, -⟩
    rcases insert_failed ht with ⟨rfl, hattached⟩
    exact ⟨⟨h.canvases, hattached, h.placements⟩, fun k => by cases k <;> rfl,
      fun hroom => hroom ⟨hfull, hnone⟩⟩
  | placement ptr owner canvas =>
    rcases placementInsert_eq hins with ⟨t, ht, rfl⟩
    rcases FailedRpc.insert_none (congrArg Prod.fst ht) with ⟨hfull, hnone, -⟩
    rcases insert_failed ht with ⟨rfl, hattached⟩
    exact ⟨⟨h.canvases, h.sprites, hattached⟩, fun k => by cases k <;> rfl,
      fun hroom => hroom ⟨hfull, hnone⟩⟩

end Insert

/-! ### The server -/

section Server

variable {cfg : Config} {lbl : ServerLbl} {s s' : Server} {k : ObjKind}

/-- The reply `r` gives out an id for an object of kind `k`: the client, and the id. -/
def announced (s : Server) (k : ObjKind) (r : TaskResult) : Option (ClientRef × Int) :=
  match s.history.accepted.find? (fun t => t.stamp == r.stamp), r.body with
  | some t, .RPC_DONE client rv =>
    if kindOf t.type = some k ∧ rv.a = 0 then some (client, rv.b) else none
  | _, _ => none

/-- The ids that have been given out for objects of kind `k`, in the order of the replies. -/
def idsOf (s : Server) (k : ObjKind) : List (ClientRef × Int) :=
  s.history.posted.filterMap (announced s k)

/-- The request that a result answers. -/
theorem find_task (h : Stamps.Stamped s) {t : Task} {r : TaskResult}
    (ht : t ∈ s.history.accepted) (heq : t.stamp = r.stamp) :
    s.history.accepted.find? (fun t => t.stamp == r.stamp) = some t := by
  cases hfind : s.history.accepted.find? (fun t => t.stamp == r.stamp) with
  | none =>
    have hno := List.find?_eq_none.mp hfind t ht
    exact absurd (beq_iff_eq.mpr heq) hno
  | some u =>
    have hu : u.stamp = r.stamp := by simpa using List.find?_some hfind
    rw [h.eq_task (List.mem_of_find?_eq_some hfind) ht (hu.trans heq.symm)]

/-- What a reply says does not change. -/
theorem announced_step (hs : Server.step cfg lbl s = some s') (hwired : Wired cfg s)
    (h : Stamps.Stamped s) (h' : Stamps.Stamped s') {r : TaskResult}
    (hr : r ∈ s.history.posted) : announced s' k r = announced s k r := by
  rcases h.task hr with ⟨t, ht, heq, -⟩
  have ht' := (Stamps.accepted_step hs hwired).subset ht
  rw [announced, announced, find_task h ht heq, find_task h' ht' heq]

/-- Only the end of a task posts. -/
theorem posted_step (hs : Server.step cfg lbl s = some s') (hwired : Wired cfg s)
    (hno : ∀ w env, lbl ≠ .finish w env) : s'.history.posted = s.history.posted := by
  -- only the end of a handler writes the history of results
  cases hwired.step_moves hs with
  | poll | ignored | disconnect | hangup | dequeue => rfl
  | handshake pid alloc => cases alloc <;> rfl
  | request i cmd alloc => cases alloc <;> rfl
  | posts w env => exact absurd rfl (hno w env)
  | silent w env => exact absurd rfl (hno w env)
  | deliver ins res pipe => rw [(sameWork_handleResult ins res _).posted]

/-- A result is the reply of a command that has been run, or no table has been touched. -/
theorem posted_cases {env : Env} {reg : ClientRegistry} {w : World} {task : Task}
    {body : ResultBody} (h : (workerRoutine env reg w task).2 = .posts body) :
    (∃ client request rv, body = .RPC_DONE client rv ∧
        (workerRoutine env reg w task).1 = runRpc task.type env client request reg w ∧
        (runRpc task.type env client request reg w).retval = some rv) ∨
      (∀ client rv, body ≠ .RPC_DONE client rv) ∧ (workerRoutine env reg w task).1.world = w := by
  unfold workerRoutine at h ⊢
  -- a handshake and a login leave the tables alone
  split at h
  · split at h
    · cases h
      exact Or.inr ⟨nofun, rfl⟩
    · cases h
  · split at h
    · cases h
      refine Or.inr ⟨fun client rv => ?_, rfl⟩
      unfold authorise
      split <;> nofun
    · cases h
    · cases h
    · dsimp only at h ⊢
      split at h
      · rename_i hret
        cases h
        exact Or.inl ⟨_, _, _, rfl, rfl, hret⟩
      · cases h

/-- A step ends a task with a result, or there is no result and perhaps a client is removed. -/
theorem world_step (hs : Server.step cfg lbl s = some s') (hwired : Wired cfg s) :
    (s'.history.posted = s.history.posted ∧
        (s'.world = s.world ∨ ∃ c, s'.world = (destroyOwned c s.world).1)) ∨
      ∃ w env task body, lbl = .finish w env ∧ s.workers[w]? = some (some task) ∧
        (workerRoutine env s.reg s.world task).2 = .posts body ∧
        s'.history.accepted = s.history.accepted ∧
        s'.history.posted = s.history.posted ++ [⟨task.stamp, body⟩] ∧
        s'.world = (workerRoutine env s.reg s.world task).1.world := by
  -- only a worker that finishes and a removal touch the tables
  rcases finish_or_removesOnly hs hwired with
    ⟨w, env, task, rfl, hw, hworld⟩ | ⟨hno, ⟨hworld, -⟩ | ⟨c, hworld, -⟩⟩
  · rcases finish_cases hs with ⟨task', hw', ⟨body, hpost, -, -, rfl⟩ | ⟨hsilent, rfl⟩⟩
    all_goals obtain rfl : task = task' := Option.some.inj (Option.some.inj (hw.symm.trans hw'))
    · right
      refine ⟨w, env, task, body, rfl, hw, hpost, ?_⟩
      rw [postResult_eq] at hworld ⊢
      split at hworld
      · rename_i hroom
        rw [if_pos hroom]
        exact ⟨rfl, rfl, rfl⟩
      · rename_i hroom
        rw [if_neg hroom]
        exact ⟨rfl, rfl, rfl⟩
    · left
      refine ⟨rfl, Or.inl (hworld.trans ?_)⟩
      -- who posts nothing has run no handler, or one without an answer
      have hsame : (workerRoutine env s.reg s.world task).1.world = s.world := by
        rcases workerRoutine_cases env s.reg s.world task with ⟨-, heq, -⟩ |
          ⟨client, request, -, ⟨-, heq⟩ | ⟨-, heq⟩ | ⟨-, -, hundefined | ⟨rv, hposts⟩⟩⟩
        · rw [heq]
          rfl
        · rw [heq]
          rfl
        · rw [heq]
          rfl
        · rw [hundefined] at hsilent
          cases hsilent
        · rw [hposts] at hsilent
          cases hsilent
      exact hsame
  · exact Or.inl ⟨posted_step hs hwired hno, Or.inl hworld⟩
  · exact Or.inl ⟨posted_step hs hwired hno, Or.inr ⟨c, hworld⟩⟩

/-- A removal clears pointers and makes no entry. -/
theorem rests_of_removal {w w' : World} (h : w' = w ∨ ∃ c, w' = (destroyOwned c w).1) :
    Rests w w' := by
  rcases h with rfl | ⟨c, rfl⟩
  · exact .refl w'
  · exact rests_destroyOwned c w

/-- What a result that is posted now says. -/
theorem announced_posted (h : Stamps.Stamped s) {task : Task} (ht : task ∈ s.history.accepted)
    (body : ResultBody) : announced s k ⟨task.stamp, body⟩ =
      match body with
      | .RPC_DONE client rv =>
        if kindOf task.type = some k ∧ rv.a = 0 then some (client, rv.b) else none
      | _ => none := by
  rw [announced, find_task h ht rfl]
  cases body <;> rfl

/-- What the invariants rest on. -/
structure Ready (cfg : Config) (s : Server) : Prop where
  wired : Wired cfg s
  stamped : Stamps.Stamped s
  running : ∀ t ∈ s.running, t ∈ s.history.accepted

theorem reachable_ready (h : (Server.system cfg).Reachable s) : Ready cfg s :=
  ⟨reachable_wired h, Stamps.reachable_stamped h, Stamps.reachable_running h⟩

/-- A step gives out at most one id, that of an entry it makes. -/
inductive GivesOut (s s' : Server) (k : ObjKind) : Prop where
  | nothing (hids : idsOf s' k = idsOf s k)
      (hcount : (view s'.world k).count = (view s.world k).count)
  | one {client : ClientRef} {new : NewObject} {id : Nat} (hmade : Made s.world s'.world new id)
      (hkind : new.kind = k) (hclient : clientOf new = client)
      (hids : idsOf s' k = idsOf s k ++ [(client, (id : Int))])

/-- The ids that have been told are read off the results that have been posted. -/
theorem idsOf_append (hs : Server.step cfg lbl s = some s') (h : Ready cfg s)
    (h' : Stamps.Stamped s') {rs : List TaskResult}
    (hposted : s'.history.posted = s.history.posted ++ rs) :
    idsOf s' k = idsOf s k ++ rs.filterMap (announced s' k) := by
  rw [idsOf, hposted, List.filterMap_append]
  exact congrArg (· ++ _) (List.filterMap_congr fun r hr =>
    announced_step hs h.wired h.stamped h' hr)

/-- A step tells no id of the kind, or the next one. -/
theorem givesOut_step (hs : Server.step cfg lbl s = some s') (h : Ready cfg s)
    (h' : Stamps.Stamped s') (hattached : AllAttached s.world) :
    AllAttached s'.world ∧ GivesOut s s' k := by
  rcases world_step hs h.wired with
    ⟨hposted, hremoval⟩ | ⟨w, env, task, body, -, hw, hpost, haccepted, hposted, hworld⟩
  · have hrests := rests_of_removal hremoval
    refine ⟨hrests.attached hattached, .nothing ?_ (hrests.count k)⟩
    have happend := idsOf_append (k := k) hs h h' (hposted.trans (List.append_nil _).symm)
    rw [happend]
    exact List.append_nil _
  · have ht : task ∈ s'.history.accepted := haccepted ▸ h.running task (mem_running hw)
    have hids := idsOf_append (k := k) hs h h' hposted
    rw [List.filterMap_cons, announced_posted h' ht, List.filterMap_nil] at hids
    rcases posted_cases hpost with ⟨client, request, rv, rfl, hran, hret⟩ | ⟨hno, hsame⟩
    · dsimp only at hids
      have hmoved := moved_runRpc hret
      rw [← hran, ← hworld] at hmoved
      -- a reply that tells an id belongs to the entry that was made, of the kind of the task
      cases hmoved with
      | @made new id _ hins hkind howner hreply =>
        have hmade := made_exec hattached hins
        refine ⟨hmade.attached, ?_⟩
        subst hreply
        by_cases hk : new.kind = k
        · rw [if_pos ⟨hk ▸ hkind, rfl⟩] at hids
          exact .one hmade hk howner hids
        · rw [if_neg fun hc => hk (Option.some.inj (hkind.symm.trans hc.1))] at hids
          refine .nothing (hids.trans (List.append_nil _)) ?_
          rw [hmade.count, if_neg (Ne.symm hk), Nat.add_zero]
      | lost hins hkind hreply =>
        rcases lost_exec hattached hins with ⟨hatt, hcount, -⟩
        rw [if_neg fun hc => hreply hc.2] at hids
        exact ⟨hatt, .nothing (hids.trans (List.append_nil _)) (hcount k)⟩
      | rested hrests hreply =>
        rw [if_neg fun hc => hreply (by rw [hc.1]; exact Option.some_ne_none k) hc.2] at hids
        exact ⟨hrests.attached hattached,
          .nothing (hids.trans (List.append_nil _)) (hrests.count k)⟩
    · rw [hworld, hsame]
      refine ⟨hattached, .nothing ?_ (by rw [hworld, hsame])⟩
      rw [hids]
      cases body with
      | RPC_DONE client rv => exact absurd rfl (hno client rv)
      | _ => exact List.append_nil _

/-- The ids that have been given out are the indices of the entries. -/
structure Numbered (s : Server) : Prop where
  attached : AllAttached s.world
  ids : ∀ k, (idsOf s k).map Prod.snd = (List.range (view s.world k).count).map Int.ofNat

/-- The next id has the number of the entries before it. -/
theorem numbered_step (hs : Server.step cfg lbl s = some s') (h : Ready cfg s)
    (h' : Stamps.Stamped s') (hn : Numbered s) : Numbered s' := by
  have hstep := fun k => givesOut_step (k := k) hs h h' hn.attached
  refine ⟨(hstep .canvas).1, fun k => ?_⟩
  cases (hstep k).2 with
  | nothing hids hcount => rw [hids, hcount, hn.ids]
  | @one client new id hmade hkind _ hids =>
    subst hkind
    rw [hids, hmade.count, if_pos rfl, List.range_succ, List.map_append, List.map_append, hn.ids,
      hmade.fresh]
    rfl

/-- So the ids of each kind are numbered through in every reachable state. -/
theorem reachable_numbered (h : (Server.system cfg).Reachable s) : Numbered s := by
  refine h.invariant_with (fun s hr => And.intro hr (reachable_ready hr)) (fun s hs => ?_)
    (fun lbl s s' hn hk hi => ?_)
  · obtain rfl : s = Server.init cfg := hs
    exact ⟨allAttached_init, fun k => by cases k <;> rfl⟩
  · exact numbered_step hn hk.2 (Stamps.reachable_stamped (.step hk.1 hn)) hi

/-- In every run of the server: the ids in the replies to the commands that make canvases,
sprites or placements are 0, 1, 2 and so on, each once and in the order in which the workers
write the replies, up to the number of entries of the table. So no id is given out twice, also
where an insertion has failed and the array has been lost. -/
theorem ids_in_order (h : (Server.system cfg).Reachable s) (k : ObjKind) :
    (idsOf s k).map Prod.snd = (List.range (view s.world k).count).map Int.ofNat :=
  (reachable_numbered h).ids k

/-- A client connects and has two canvases and a rectangle made. -/
def threeObjects : List ServerLbl :=
  Accounting.connection ++ ["create_canvas 1 1 0", "create_rectangle 1 1 0 0",
    "create_canvas 2 2 0"].flatMap fun cmd =>
      .request 2 cmd.toList true :: Accounting.answers (Env.allSucceed 7)

theorem ids_in_order_threeObjects :
    ∃ s : Server, (idsOf s .canvas).map Prod.snd = [0, 1] ∧
      (idsOf s .sprite).map Prod.snd = [0] := by
  obtain ⟨s, h, hp⟩ := exists_reachable_of_run (Server.init Accounting.oneWorker)
    (Server.step Accounting.oneWorker) threeObjects
    (fun s => decide ((view s.world .canvas).count = 2 ∧ (view s.world .sprite).count = 1))
    (by decide)
  rcases of_decide_eq_true hp with ⟨hcanvases, hsprites⟩
  refine ⟨s, ?_, ?_⟩
  · rw [ids_in_order h, hcanvases]
    rfl
  · rw [ids_in_order h, hsprites]
    rfl

/-! ### What an id means -/

/-- A command that makes an object finds a free cell or memory for a larger array. -/
def Grown : ServerLbl → Server → Prop
  | .finish w env, s => ∀ task ∈ s.workers[w]?.join, ∀ k ∈ kindOf task.type,
      RoomFor env.realloc s.world k
  | _, _ => True

instance (realloc : Int → Option Nat) (w : World) (k : ObjKind) :
    Decidable (RoomFor realloc w k) := by
  unfold RoomFor HasRoom
  cases k <;> infer_instance

instance (lbl : ServerLbl) (s : Server) : Decidable (Grown lbl s) := by
  unfold Grown
  cases lbl <;> infer_instance

/-- The runs in which no insertion fails. -/
abbrev grown (cfg : Config) : LTS Server ServerLbl := (Server.system cfg).under Grown

/-- No entry is lost. -/
theorem keeps_step (hs : Server.step cfg lbl s = some s') (hok : Grown lbl s) (h : Ready cfg s)
    (hattached : AllAttached s.world) (k : ObjKind) :
    Keeps (view s.world k) (view s'.world k) := by
  rcases world_step hs h.wired with
    ⟨-, hremoval⟩ | ⟨w, env, task, body, rfl, hw, hpost, -, -, hworld⟩
  · exact (rests_of_removal hremoval).keeps k
  · rcases posted_cases hpost with ⟨client, request, rv, -, hran, hret⟩ | ⟨-, hsame⟩
    · have hroom : ∀ k ∈ kindOf task.type, RoomFor env.realloc s.world k :=
        hok task (by rw [hw]; rfl)
      have hmoved := moved_runRpc hret
      rw [← hran, ← hworld] at hmoved
      -- made or rested; a lost insertion is excluded by the room
      cases hmoved with
      | made hins => exact (made_exec hattached hins).keeps k
      | lost hins hkind => exact absurd (hroom _ hkind) (lost_exec hattached hins).2.2
      | rested hrests => exact hrests.keeps k
    · rw [hworld, hsame]
      exact .refl _

/-- The entry that an id was given out for is there, and is of the client or dead. -/
def Named (s : Server) : Prop :=
  ∀ k, ∀ p ∈ idsOf s k, ∃ (i : Nat) (e : ObjEntry), p.2 = i ∧ i < (view s.world k).count ∧
    (view s.world k).row i = some e ∧ e.id = i ∧ (ownerOf e = some p.1 ∨ ptrOf e = none)

/-- An id that has been told keeps its entry, and a new one has one. -/
theorem named_step (hs : Server.step cfg lbl s = some s') (hok : Grown lbl s) (h : Ready cfg s)
    (h' : Stamps.Stamped s') (hattached : AllAttached s.world) (hn : Named s) : Named s' := by
  intro k p hp
  have hkeeps := keeps_step hs hok h hattached k
  -- an id given out before: its row has only aged
  have hold : p ∈ idsOf s k → ∃ (i : Nat) (e : ObjEntry), p.2 = i ∧ i < (view s'.world k).count ∧
      (view s'.world k).row i = some e ∧ e.id = i ∧
        (ownerOf e = some p.1 ∨ ptrOf e = none) := by
    intro hp
    rcases hn k p hp with ⟨i, e, hi, hlt, hrow, hid, howner⟩
    rcases hkeeps.row i hlt e hrow with ⟨e', hrow', hages⟩
    refine ⟨i, e', hi, Nat.lt_of_lt_of_le hlt hkeeps.count, hrow', hages.id.trans hid, ?_⟩
    rcases howner with howner | hdead
    · exact hages.owner.imp_left fun heq => heq.trans howner
    · exact Or.inr (hages.ptr.elim (fun heq => heq.trans hdead) fun hnone => hnone)
  -- an id given out now is the index of the new row
  cases (givesOut_step (k := k) hs h h' hattached).2 with
  | nothing hids => exact hold (hids ▸ hp)
  | @one client new id hmade hkind hclient hids =>
    rw [hids] at hp
    rcases List.mem_append.mp hp with hp | hp
    · exact hold hp
    · obtain rfl := List.mem_singleton.mp hp
      subst hkind
      refine ⟨id, new.entry id, rfl, ?_, hmade.row, new.id_entry id, Or.inl ?_⟩
      · rw [hmade.count, if_pos rfl, hmade.fresh]
        exact Nat.lt_succ_self _
      · rw [← hclient]
        cases new <;> rfl

/-- As long as no insertion fails, every id that has been told has its entry. -/
theorem reachable_named (h : (grown cfg).Reachable s) : Named s := by
  refine h.invariant_with (fun s hr => hr.of_under) (fun s hs => ?_) (fun lbl s s' hn hr hi => ?_)
  · obtain rfl : s = Server.init cfg := hs
    intro k p hp
    cases hp
  · exact named_step hn.2 hn.1 (reachable_ready hr) (Stamps.reachable_stamped (.step hr hn.2))
      (reachable_numbered hr).attached hi

/-- What stays over a run. -/
theorem keeps_run (h : (Server.system cfg).Reachable s) {ls : List ServerLbl}
    (hrun : run (guarded Grown (Server.step cfg)) ls s = some s') (k : ObjKind) :
    Keeps (view s.world k) (view s'.world k) := by
  induction ls generalizing s with
  | nil =>
    obtain rfl := Option.some.inj hrun
    exact .refl _
  | cons lbl ls ih =>
    rcases Option.bind_eq_some_iff.mp hrun with ⟨t, hstep, hrun⟩
    rcases Option.ite_none_right_eq_some.mp hstep with ⟨hok, hs⟩
    have hkeeps := keeps_step hs hok (reachable_ready h) (reachable_numbered h).attached k
    exact hkeeps.trans (ih (.step h hs) hrun)

/-- The lookup finds an entry that is there. -/
theorem exec_lookup_row {w : World} {i : Nat} {e : ObjEntry} (hi : i < (view w k).count)
    (he : (view w k).row i = some e) : (exec (.lookup k i) w).1 = some i := by
  cases k with
  | canvas =>
    rcases Option.map_eq_some_iff.mp he with ⟨ce, hce, -⟩
    exact lookup_entry hi hce
  | sprite =>
    rcases Option.map_eq_some_iff.mp he with ⟨se, hse, -⟩
    exact lookup_entry hi hse
  | placement =>
    rcases Option.map_eq_some_iff.mp he with ⟨pe, hpe, -⟩
    exact lookup_entry hi hpe

/-- In every run in which no insertion fails: an id that a client has been told goes to the
entry that was made for this client. From then on, whatever the run, the lookup of the id finds
this entry, and the entry has the pointer it had, or none because the object has been
destroyed; it is never another object's. -/
theorem ids_keep_meaning (h : (grown cfg).Reachable s) {client : ClientRef} {id : Int}
    (hid : (client, id) ∈ idsOf s k) :
    ∃ (i : Nat) (e : ObjEntry), id = i ∧ (view s.world k).row i = some e ∧ e.id = i ∧
      (ownerOf e = some client ∨ ptrOf e = none) ∧
      ∀ ls s', run (guarded Grown (Server.step cfg)) ls s = some s' →
        (exec (.lookup k id) s'.world).1 = some i ∧
          ∃ e', (view s'.world k).row i = some e' ∧ Ages e e' := by
  rcases reachable_named h k _ hid with ⟨i, e, hi, hlt, hrow, hentry, howner⟩
  refine ⟨i, e, hi, hrow, hentry, howner, fun ls s' hrun => ?_⟩
  have hkeeps := keeps_run h.of_under hrun k
  rcases hkeeps.row i hlt e hrow with ⟨e', hrow', hages⟩
  refine ⟨?_, e', hrow', hages⟩
  rw [show id = (i : Int) from hi]
  exact exec_lookup_row (Nat.lt_of_lt_of_le hlt hkeeps.count) hrow'

/-- The client hangs up, and its canvases are destroyed. -/
theorem ids_keep_meaning_threeObjects :
    ∃ s s' : Server, (view s.world .canvas).count = 2 ∧ s'.history.removed = [0] ∧
      ∃ (i : Nat) (e e' : ObjEntry), (view s.world .canvas).row i = some e ∧ e.id = 1 ∧
        (view s'.world .canvas).row i = some e' ∧ Ages e e' := by
  -- client 0 has two canvases and hangs up, which destroys both
  obtain ⟨s, h, hp⟩ := exists_reachable_of_run (Server.init Accounting.oneWorker)
    (guarded Grown (Server.step Accounting.oneWorker)) threeObjects
    (fun s => decide ((0, 1) ∈ idsOf s .canvas ∧ (view s.world .canvas).count = 2 ∧
      (run (guarded Grown (Server.step Accounting.oneWorker)) [.hangup 2] s).map
        (fun s' => decide (s'.history.removed = [0])) = some true)) (by decide)
  rw [← under_ofStep] at h
  rcases of_decide_eq_true hp with ⟨hid, hcount, hhangup⟩
  rcases Option.map_eq_some_iff.mp hhangup with ⟨s', hrun, hremoved⟩
  obtain ⟨i, e, hi, hrow, heid, -, hlater⟩ := ids_keep_meaning h hid
  rcases hlater _ s' hrun with ⟨-, e', hrow', hages⟩
  exact ⟨s, s', hcount, of_decide_eq_true hremoved, i, e, e', hrow, heid.trans hi.symm, hrow',
    hages⟩

/-! ### The tables of the server -/

/-- In every run of the server, where a worker runs a task in one step, the tables go through a
run of commands that reach their reply and of cleanups, each of them one step as well. -/
theorem refines_tables (cfg : Config) : Refines (Server.system cfg) tables Server.world where
  init := fun s hs => by
    obtain rfl : s = Server.init cfg := hs
    rfl
  step := fun lbl s s' hr hs => by
    rcases world_step hs (reachable_wired hr) with
      ⟨-, hsame | ⟨c, hworld⟩⟩ | ⟨w, env, task, body, -, -, hpost, -, -, hworld⟩
    · exact Or.inr hsame
    · exact Or.inl ⟨.cleanup c, congrArg some hworld.symm⟩
    · rcases posted_cases hpost with ⟨client, request, rv, -, hran, hret⟩ | ⟨-, hsame⟩
      · refine Or.inl ⟨.rpc task.type env client request s.reg, ?_⟩
        show tableStep _ _ = _
        rw [tableStep, hret, hworld, hran]
        rfl
      · exact Or.inr (hworld.trans hsame)

end Server

end AnimateServer.ObjectNames
