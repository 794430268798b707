import AnimateServer.Verify.TableOwners

/-!
# What a command does

The cases of the switch of `worker_routine` all come down to a few moves: refuse,
make an object and enter it, call the library on a placement, clear an entry and
destroy its object, draw a canvas, share it. `Did` lists these moves and
`did_runRpc` says that a command makes one of them; the invariants of whole runs are
proved from that list. The loops of `client_markdead` make one of the moves, the
clearing of an entry, several times over (`cleanupLoop_induct`).
-/

namespace AnimateServer.CommandCases

open CLib FailedRpc TableOwners

/-! ## What a request looks up -/

/-- The canvas that a request looks up, its id converted to `int`, as an index of the canvas
table. -/
def canvasOf (type : TaskType) (request : CStr) (w : World) : Option Nat :=
  match type with
  | .DESTROY_CANVAS => (parseId MAX_RPC_BUF_LEN request).toOption.bind fun id =>
      w.canvases.lookup (toInt id)
  | .PLACE_SPRITE => (parsePlaceSprite request).toOption.bind fun args =>
      w.canvases.lookup (toInt args.1)
  | .GENERATE => (parseGenerate request).toOption.bind fun args => w.canvases.lookup args.1
  | .SHARE => (parseShare request).toOption.bind fun args => w.canvases.lookup (toInt args.1)
  | _ => none

/-- The placement that a request looks up, its id converted to `int`, as an index of the
placement table. -/
def placementOf (type : TaskType) (request : CStr) (w : World) : Option Nat :=
  match type with
  | .PLACEMENT_UP | .PLACEMENT_DOWN | .PLACEMENT_TOP | .PLACEMENT_BOTTOM
  | .DESTROY_PLACEMENT => (parseCheckedId 64 request).toOption.bind fun id =>
      w.placements.lookup (toInt id)
  | .SET_ANIM_PARAM => (parseAnimParam request).toOption.bind fun args =>
      w.placements.lookup (toInt args.1)
  | _ => none

/-- An entry that a request looks up is one of the table. -/
theorem canvasOf_lt {type : TaskType} {request : CStr} {w : World} {i : Nat}
    (h : canvasOf type request w = some i) : i < w.canvases.count := by
  unfold canvasOf at h
  split at h
  case h_5 => cases h
  all_goals
    rcases Option.bind_eq_some_iff.mp h with ⟨args, hargs, hi⟩
    exact (Table.lookup_eq_some hi).2

theorem placementOf_lt {type : TaskType} {request : CStr} {w : World} {i : Nat}
    (h : placementOf type request w = some i) : i < w.placements.count := by
  unfold placementOf at h
  split at h
  case h_7 => cases h
  all_goals
    rcases Option.bind_eq_some_iff.mp h with ⟨args, hargs, hi⟩
    exact (Table.lookup_eq_some hi).2

/-! ## Calls -/

/-- The kind of object a call makes and the pointer it returned. -/
def makes : Effect → Option (ObjKind × Option Handle)
  | .createCanvas _ _ _ ret => some (.canvas, ret)
  | .createSprite _ ret => some (.sprite, ret)
  | .createRectangle _ _ _ _ ret => some (.sprite, ret)
  | .createCircle _ _ _ ret => some (.sprite, ret)
  | .placeSprite _ _ _ _ ret => some (.placement, ret)
  | _ => none

/-- The placement a call is about. -/
def placementArg : Effect → Option Handle
  | .placementUp pl | .placementDown pl | .placementTop pl | .placementBottom pl => some pl
  | .setAnimationParams pl _ _ _ _ => some pl
  | .destroyPlacement pl => pl
  | _ => none

/-- The canvas a call draws. -/
def drawn : Effect → Option Handle
  | .generateFrame cv _ _ => some cv
  | _ => none

/-- A call that destroys nothing, being given null. -/
def destroysNull : Effect → Bool
  | .destroyCanvas none | .destroySprite none | .destroyPlacement none => true
  | _ => false

/-- A call of `GENERATE` for the canvas `cv`. -/
def Draws (cv : Handle) : Effect → Prop
  | .openFile _ | .writeFrame _ _ _ _ | .system _ => True
  | .generateFrame cv' _ _ => cv' = cv
  | _ => False

/-- What a call makes is new if it is not `NULL`. -/
theorem created_of_makes {call : Effect} {k : ObjKind} {ret : Option Handle}
    (h : makes call = some (k, ret)) : created call = ret.map fun p => (k, p) := by
  cases call <;> cases h <;> rfl

theorem created_of_makes_none {call : Effect} (h : makes call = none) : created call = none := by
  cases call <;> first | rfl | cases h

/-- A call that makes an object does nothing else. -/
theorem makes_only {call : Effect} {k : ObjKind} {ret : Option Handle}
    (h : makes call = some (k, ret)) :
    destroyed call = none ∧ destroysNull call = false ∧ placementArg call = none ∧
      drawn call = none := by
  cases call <;> cases h <;> exact ⟨rfl, rfl, rfl, rfl⟩

/-- A call of `GENERATE` neither makes nor destroys anything, and draws only its canvas. -/
theorem draws_only {cv : Handle} {call : Effect} (h : Draws cv call) :
    makes call = none ∧ destroyed call = none ∧ destroysNull call = false ∧
      placementArg call = none ∧ ∀ cv' ∈ drawn call, cv' = cv := by
  cases call with
  | openFile path => exact ⟨rfl, rfl, rfl, rfl, nofun⟩
  | writeFrame path buf size whole => exact ⟨rfl, rfl, rfl, rfl, nofun⟩
  | system cmd => exact ⟨rfl, rfl, rfl, rfl, nofun⟩
  | generateFrame cv' i rate =>
    refine ⟨rfl, rfl, rfl, rfl, fun cv'' hcv => ?_⟩
    cases hcv
    exact h
  | _ => cases h

/-- A call on a placement destroys no `NULL`. -/
theorem not_destroysNull {call : Effect} {pl : Handle} (h : placementArg call = some pl) :
    destroysNull call = false := by
  cases call with
  | destroyPlacement ptr =>
    cases h
    rfl
  | _ => first | rfl | cases h

/-! ## New entries -/

def newCanvas (p : Handle) (client : ClientRef) (width height : Int) (id : Nat) : CanvasEntry :=
  { ptr := some p, canvasId := id, width, height, owner := some client, shared := [] }

def newSprite (p : Handle) (client : ClientRef) (id : Nat) : SpriteEntry :=
  { ptr := some p, spriteId := id, owner := some client }

def newPlacement (p : Handle) (client : ClientRef) (canvas : CanvasPtr) (id : Nat) :
    PlacementEntry :=
  { ptr := some p, placementId := id, owner := some client, canvas }

section Insert

variable {w w' : World} {realloc : Int → Option Nat} {p : Handle} {client : ClientRef}
  {id : Option Nat}

/-- The insertion of each kind is an insertion in its own table. -/
theorem canvasInsert_eq {width height : Int}
    (h : w.canvasInsert realloc p client width height = (id, w')) :
    ∃ t, w.canvases.insert realloc sizeofCanvasEntry (newCanvas p client width height) = (id, t) ∧
      w' = { w with canvases := t } := by
  cases h
  exact ⟨_, rfl, rfl⟩

theorem spriteInsert_eq (h : w.spriteInsert realloc p client = (id, w')) :
    ∃ t, w.sprites.insert realloc sizeofSpriteEntry (newSprite p client) = (id, t) ∧
      w' = { w with sprites := t } := by
  cases h
  exact ⟨_, rfl, rfl⟩

theorem placementInsert_eq {canvas : CanvasPtr}
    (h : w.placementInsert realloc p client canvas = (id, w')) :
    ∃ t, w.placements.insert realloc sizeofPlacementEntry (newPlacement p client canvas) =
        (id, t) ∧
      w' = { w with placements := t } := by
  cases h
  exact ⟨_, rfl, rfl⟩

end Insert

/-! ## The moves -/

/-- What the command `type request` of `client` can do to the tables `w`: the tables
afterwards and the calls in order. -/
inductive Did (type : TaskType) (env : Env) (client : ClientRef) (request : CStr) (w : World) :
    World → List Effect → Prop where
  | refused : Did type env client request w w []
  | madeNothing {call : Effect} {k : ObjKind} (hcall : makes call = some (k, none))
      (hk : k ≠ .placement) : Did type env client request w w [call]
  | placedNothing {ci : Nat} {ce : CanvasEntry} {cv sp : Handle} {x y : Int}
      (hci : canvasOf type request w = some ci) (hce : w.canvases.entryAt ci = some ce)
      (hcv : ce.ptr = some cv) :
      Did type env client request w w [.placeSprite cv sp x y none]
  | canvas {call : Effect} {p : Handle} {wd h : Int} {id : Nat} {t : Table CanvasEntry}
      (htype : type = .CREATE_CANVAS) (hcall : makes call = some (.canvas, some p))
      (hins : w.canvases.insert env.realloc sizeofCanvasEntry (newCanvas p client wd h) =
        (some id, t)) :
      Did type env client request w { w with canvases := t } [call]
  | canvasLost {call : Effect} {p : Handle} {wd h : Int} {t : Table CanvasEntry}
      (htype : type = .CREATE_CANVAS) (hcall : makes call = some (.canvas, some p))
      (hins : w.canvases.insert env.realloc sizeofCanvasEntry (newCanvas p client wd h) =
        (none, t))
      (hlose : GrowthLoses env.realloc sizeofCanvasEntry w.canvases →
        InsertLoses type env request w) :
      Did type env client request w { w with canvases := t } [call, .destroyCanvas (some p)]
  | sprite {call : Effect} {p : Handle} {id : Nat} {t : Table SpriteEntry}
      (hcall : makes call = some (.sprite, some p))
      (hins : w.sprites.insert env.realloc sizeofSpriteEntry (newSprite p client) =
        (some id, t)) :
      Did type env client request w { w with sprites := t } [call]
  | spriteLost {call : Effect} {p : Handle} {t : Table SpriteEntry}
      (hcall : makes call = some (.sprite, some p))
      (hins : w.sprites.insert env.realloc sizeofSpriteEntry (newSprite p client) = (none, t))
      (hlose : GrowthLoses env.realloc sizeofSpriteEntry w.sprites →
        InsertLoses type env request w) :
      Did type env client request w { w with sprites := t } [call, .destroySprite (some p)]
  | placement {ci : Nat} {ce : CanvasEntry} {cv sp p : Handle} {x y : Int} {block id : Nat}
      {t : Table PlacementEntry} (hci : canvasOf type request w = some ci)
      (hce : w.canvases.entryAt ci = some ce) (hcv : ce.ptr = some cv)
      (hins : w.placements.insert env.realloc sizeofPlacementEntry
        (newPlacement p client ⟨block, ci⟩) = (some id, t)) :
      Did type env client request w { w with placements := t } [.placeSprite cv sp x y (some p)]
  | placementLost {ci : Nat} {ce : CanvasEntry} {cv sp p : Handle} {x y : Int} {block : Nat}
      {t : Table PlacementEntry} (hci : canvasOf type request w = some ci)
      (hce : w.canvases.entryAt ci = some ce) (hcv : ce.ptr = some cv)
      (hins : w.placements.insert env.realloc sizeofPlacementEntry
        (newPlacement p client ⟨block, ci⟩) = (none, t))
      (hlose : GrowthLoses env.realloc sizeofPlacementEntry w.placements →
        InsertLoses type env request w) :
      Did type env client request w { w with placements := t }
        [.placeSprite cv sp x y (some p), .destroyPlacement (some p)]
  | destroyedCanvas {i : Nat} {ce : CanvasEntry} {cv : Handle}
      (hi : canvasOf type request w = some i) (hce : w.canvases.entryAt i = some ce)
      (hcv : ce.ptr = some cv) :
      Did type env client request w
        { w with canvases := w.canvases.setEntry i { ce with ptr := none } }
        [.destroyCanvas (some cv)]
  | destroyedSprite {i : Nat} {se : SpriteEntry} {sp : Handle} (hi : i < w.sprites.count)
      (hse : w.sprites.entryAt i = some se) (hsp : se.ptr = some sp) :
      Did type env client request w
        { w with sprites := w.sprites.setEntry i { se with ptr := none } }
        [.destroySprite (some sp)]
  | destroyedPlacement {i : Nat} {pe : PlacementEntry} {pl : Handle}
      (hi : placementOf type request w = some i) (hpe : w.placements.entryAt i = some pe)
      (hpl : pe.ptr = some pl) :
      Did type env client request w
        { w with placements := w.placements.setEntry i { pe with ptr := none } }
        [.destroyPlacement (some pl)]
  | usedPlacement {call : Effect} {i : Nat} {pe : PlacementEntry} {pl : Handle}
      (hi : placementOf type request w = some i) (hpe : w.placements.entryAt i = some pe)
      (hpl : pe.ptr = some pl) (hcall : placementArg call = some pl)
      (hmakes : makes call = none) (hdestroyed : destroyed call = none)
      (hdrawn : drawn call = none) :
      Did type env client request w w [call]
  | drew {i : Nat} {ce : CanvasEntry} {cv : Handle} {es : List Effect}
      (hi : canvasOf type request w = some i) (hce : w.canvases.entryAt i = some ce)
      (hcv : ce.ptr = some cv)
      (hes : ∀ e ∈ es, Draws cv e) :
      Did type env client request w w es
  | shared {i : Nat} {ce : CanvasEntry} {target : ClientRef}
      (hi : canvasOf type request w = some i) (hce : w.canvases.entryAt i = some ce)
      (hptr : ce.ptr ≠ none) :
      Did type env client request w
        { w with canvases := w.canvases.setEntry i { ce with shared := ce.shared ++ [target] } }
        []

section Commands

variable {env : Env} {client : ClientRef} {request : CStr} {w : World}

/-- A removal clears the pointer of the entry that is found, and hands the object to libanimate. -/
theorem canvasRemove_eq {id : Int} {i : Nat} {ce : CanvasEntry} {cv : Handle}
    (hi : w.canvases.lookup id = some i) (hce : w.canvases.entryAt i = some ce)
    (hcv : ce.ptr = some cv) :
    w.canvasRemove id =
      ({ w with canvases := w.canvases.setEntry i { ce with ptr := none } },
        [.destroyCanvas (some cv)]) := by
  simp only [World.canvasRemove, hi, Table.clearPtr, hce, Option.bind_some, hcv]
  rfl

theorem spriteRemove_eq {id : Int} {i : Nat} {se : SpriteEntry} {sp : Handle}
    (hi : w.sprites.lookup id = some i) (hse : w.sprites.entryAt i = some se)
    (hsp : se.ptr = some sp) :
    w.spriteRemove id =
      ({ w with sprites := w.sprites.setEntry i { se with ptr := none } },
        [.destroySprite (some sp)]) := by
  simp only [World.spriteRemove, hi, Table.clearPtr, hse, Option.bind_some, hsp]
  rfl

theorem placementRemove_eq {id : Int} {i : Nat} {pe : PlacementEntry} {pl : Handle}
    (hi : w.placements.lookup id = some i) (hpe : w.placements.entryAt i = some pe)
    (hpl : pe.ptr = some pl) :
    w.placementRemove id =
      ({ w with placements := w.placements.setEntry i { pe with ptr := none } },
        [.destroyPlacement (some pl)]) := by
  simp only [World.placementRemove, hi, Table.clearPtr, hpe, Option.bind_some, hpl]
  rfl

/-- Each handler does one of the few things that `Did` lists. -/
theorem did_createCanvas :
    Did .CREATE_CANVAS env client request w (createCanvas env client request w).world
      (createCanvas env client request w).effects := by
  unfold createCanvas
  cases hp : parseCreateCanvas request with
  | error a => exact .refused
  | ok args =>
    rcases args with ⟨h, wd, bg⟩
    dsimp only
    cases hc : env.create with
    | none => exact .madeNothing rfl nofun
    | some cv =>
      dsimp only
      split
      · rename_i w' hins
        rcases canvasInsert_eq hins with ⟨t, ht, rfl⟩
        -- the table could not grow: the canvas exists, but no entry holds it
        refine .canvasLost rfl rfl ht fun hlose => ?_
        exact ⟨by rw [hp]; rfl, by simp [hc], hlose⟩
      · rename_i id w' hins
        rcases canvasInsert_eq hins with ⟨t, ht, rfl⟩
        exact .canvas rfl rfl ht

/-- The three handlers that make a sprite share their end. -/
theorem did_keepSprite {type : TaskType} {call : Effect}
    (hcall : makes call = some (.sprite, env.create))
    (hlose : env.create ≠ none → GrowthLoses env.realloc sizeofSpriteEntry w.sprites →
      InsertLoses type env request w) :
    Did type env client request w (keepSprite env call client w).world
      (keepSprite env call client w).effects := by
  unfold keepSprite
  cases hc : env.create with
  | none =>
    rw [hc] at hcall
    exact .madeNothing hcall nofun
  | some sp =>
    rw [hc] at hcall
    dsimp only
    split
    · rename_i w' hins
      rcases spriteInsert_eq hins with ⟨t, ht, rfl⟩
      -- the table could not grow: the sprite exists, but no entry holds it
      exact .spriteLost hcall ht (hlose (by simp [hc]))
    · rename_i id w' hins
      rcases spriteInsert_eq hins with ⟨t, ht, rfl⟩
      exact .sprite hcall ht

theorem did_createSprite :
    Did .CREATE_SPRITE env client request w (createSprite env client request w).world
      (createSprite env client request w).effects := by
  unfold createSprite
  cases hp : parseCreateSprite request with
  | error a => exact .refused
  | ok file => exact did_keepSprite rfl fun hc hlose => ⟨by rw [hp]; rfl, hc, hlose⟩

theorem did_createRectangle :
    Did .CREATE_RECTANGLE env client request w (createRectangle env client request w).world
      (createRectangle env client request w).effects := by
  unfold createRectangle
  cases hp : parseCreateRectangle request with
  | error a => exact .refused
  | ok args => exact did_keepSprite rfl fun hc hlose => ⟨by rw [hp]; rfl, hc, hlose⟩

theorem did_createCircle :
    Did .CREATE_CIRCLE env client request w (createCircle env client request w).world
      (createCircle env client request w).effects := by
  unfold createCircle
  cases hp : parseCreateCircle request with
  | error a => exact .refused
  | ok args => exact did_keepSprite rfl fun hc hlose => ⟨by rw [hp]; rfl, hc, hlose⟩

/-- `PLACE_SPRITE` inserts after all its tests, and undoes the placement if it gets no entry. -/
theorem did_placeSprite :
    Did .PLACE_SPRITE env client request w (placeSprite env client request w).world
      (placeSprite env client request w).effects := by
  unfold placeSprite
  cases hp : parsePlaceSprite request with
  | error a => exact .refused
  | ok args =>
    rcases args with ⟨cid, sid, x, y⟩
    dsimp only
    cases hci : w.canvases.lookup (toInt cid) with
    | none => exact .refused
    | some ci =>
      have hcanvas : canvasOf .PLACE_SPRITE request w = some ci := by
        simp only [canvasOf, hp, Except.toOption, Option.bind_some, hci]
      dsimp only
      cases hce : w.canvases.entryAt ci with
      | none => exact .refused
      | some ce =>
        dsimp only
        cases hcv : ce.ptr with
        | none => exact .refused
        | some cv =>
          cases hsi : w.sprites.lookup (toInt sid) with
          | none => exact .refused
          | some si =>
            dsimp only
            cases hse : w.sprites.entryAt si with
            | none => exact .refused
            | some se =>
              dsimp only
              cases hsp : se.ptr with
              | none => exact .refused
              | some sp =>
                dsimp only [keepPlacement]
                -- canvas and sprite are live: the call is made
                cases hc : env.create with
                | none => exact .placedNothing hcanvas hce hcv
                | some pl =>
                  dsimp only
                  split
                  · rename_i w' hins
                    rcases placementInsert_eq hins with ⟨t, ht, rfl⟩
                    -- the table cannot take it, and it is destroyed
                    refine .placementLost hcanvas hce hcv ht fun hlose => ?_
                    refine ⟨?_, by simp [hc], hlose⟩
                    simp [placeTargets, hp, Except.toOption, hci, hce, hcv, hsi, hse, hsp]
                  · rename_i id w' hins
                    rcases placementInsert_eq hins with ⟨t, ht, rfl⟩
                    exact .placement hcanvas hce hcv ht

/-- The handlers that destroy do so if the object is there. -/
theorem did_destroyCanvas :
    Did .DESTROY_CANVAS env client request w (destroyCanvas request w).world
      (destroyCanvas request w).effects := by
  unfold destroyCanvas
  cases hp : parseId MAX_RPC_BUF_LEN request with
  | error a => exact .refused
  | ok id =>
    dsimp only
    cases hi : w.canvases.lookup (toInt id) with
    | none => exact .refused
    | some i =>
      have hcanvas : canvasOf .DESTROY_CANVAS request w = some i := by
        simp only [canvasOf, hp, Except.toOption, Option.bind_some, hi]
      dsimp only
      cases hce : w.canvases.entryAt i with
      | none => exact .refused
      | some ce =>
        dsimp only
        cases hcv : ce.ptr with
        | none => exact .refused
        | some cv =>
          -- a live canvas: destroyed, and its pointer cleared
          rw [if_neg (Option.some_ne_none cv), canvasRemove_eq hi hce hcv]
          exact .destroyedCanvas hcanvas hce hcv

theorem did_destroySprite {type : TaskType} :
    Did type env client request w (destroySprite env request w).world
      (destroySprite env request w).effects := by
  unfold destroySprite
  cases parseCheckedId 64 request with
  | error a => exact .refused
  | ok id =>
    dsimp only
    cases hi : w.sprites.lookup (toInt id) with
    | none => exact .refused
    | some i =>
      dsimp only
      cases hse : w.sprites.entryAt i with
      | none => exact .refused
      | some se =>
        dsimp only
        cases hsp : se.ptr with
        | none => exact .refused
        | some sp =>
          -- a live sprite: destroyed, and its pointer cleared
          rw [if_neg (Option.some_ne_none sp), spriteRemove_eq hi hse hsp]
          exact .destroyedSprite (Table.lookup_eq_some hi).2 hse hsp

/-- A command on a placement that has been parsed to `id`. -/
theorem did_onPlacement {type : TaskType} {id : Int} {act : Handle → World × List Effect}
    (hact : ∀ i pe pl, w.placements.lookup (toInt id) = some i →
      w.placements.entryAt i = some pe → pe.ptr = some pl →
      Did type env client request w (act pl).1 (act pl).2) :
    Did type env client request w (onPlacement id w act).world (onPlacement id w act).effects := by
  unfold onPlacement
  cases hi : w.placements.lookup (toInt id) with
  | none => exact .refused
  | some i =>
    dsimp only
    cases hpe : w.placements.entryAt i with
    | none => exact .refused
    | some pe =>
      dsimp only
      -- a placement that was destroyed is refused
      cases hpl : pe.ptr with
      | none => exact .refused
      | some pl => exact hact i pe pl hi hpe hpl

/-- The four moves differ in the call. -/
theorem did_movePlacement {type : TaskType} {call : Handle → Effect}
    (hnamed : placementOf type request w = (parseCheckedId 64 request).toOption.bind fun id =>
      w.placements.lookup (toInt id))
    (hcall : ∀ pl, placementArg (call pl) = some pl ∧ makes (call pl) = none ∧
      destroyed (call pl) = none ∧ drawn (call pl) = none) :
    Did type env client request w (movePlacement call request w).world
      (movePlacement call request w).effects := by
  unfold movePlacement
  cases hp : parseCheckedId 64 request with
  | error a => exact .refused
  | ok id =>
    rw [hp] at hnamed
    -- the id looks up a live placement, the call gets its object
    apply did_onPlacement
    intro i pe pl hi hpe hpl
    rcases hcall pl with ⟨harg, hmakes, hdestroyed, hdrawn⟩
    exact .usedPlacement (hnamed.trans hi) hpe hpl harg hmakes hdestroyed hdrawn

theorem did_destroyPlacement :
    Did .DESTROY_PLACEMENT env client request w (destroyPlacement request w).world
      (destroyPlacement request w).effects := by
  unfold destroyPlacement
  cases hp : parseCheckedId 64 request with
  | error a => exact .refused
  | ok id =>
    apply did_onPlacement
    intro i pe pl hi hpe hpl
    have hnamed : placementOf .DESTROY_PLACEMENT request w = some i := by
      simp only [placementOf, hp, Except.toOption, Option.bind_some, hi]
    rw [placementRemove_eq hi hpe hpl]
    exact .destroyedPlacement hnamed hpe hpl

theorem did_setAnimParam :
    Did .SET_ANIM_PARAM env client request w (setAnimParam request w).world
      (setAnimParam request w).effects := by
  unfold setAnimParam
  cases hp : parseAnimParam request with
  | error a => exact .refused
  | ok args =>
    rcases args with ⟨id, vx, vy, ax, ay⟩
    apply did_onPlacement
    intro i pe pl hi hpe hpl
    have hnamed : placementOf .SET_ANIM_PARAM request w = some i := by
      simp only [placementOf, hp, Except.toOption, Option.bind_some, hi]
    exact .usedPlacement hnamed hpe hpl rfl rfl rfl rfl

/-- A frame is drawn, or written. -/
def Films (datPath : CStr) (cv : Handle) (rate : Int) (e : Effect) : Prop :=
  ∃ j, e = .generateFrame cv j rate ∨
    ∃ size whole, e = .writeFrame datPath ⟨cv, j, rate⟩ size whole

/-- The frame loop draws nothing but its canvas, and writes nothing but its frames. -/
theorem films_frameLoop {datPath : CStr} {cv : Handle} {rate last : Int} {e : Effect} :
    ∀ {n : Nat} {i : Int}, e ∈ (frameLoop env datPath cv rate last n i).1 →
      Films datPath cv rate e
  | 0, i, h => by cases h
  | n + 1, i, h => by
    -- one turn draws frame i and writes it, the rest of the loop is the recursion
    have hturn : ∀ {size whole}, e ∈ [Effect.generateFrame cv i rate,
        .writeFrame datPath ⟨cv, i, rate⟩ size whole] → Films datPath cv rate e := by
      intro size whole he
      rcases List.mem_cons.mp he with rfl | he
      · exact ⟨i, Or.inl rfl⟩
      · exact ⟨i, Or.inr ⟨size, whole, List.mem_singleton.mp he⟩⟩
    unfold frameLoop at h
    split at h
    · dsimp only at h
      split at h
      · exact hturn h
      · split at h
        · exact hturn h
        · rcases List.mem_append.mp (show e ∈ [_, _] ++ _ from h) with h | h
          · exact hturn h
          · exact films_frameLoop h
    · cases h

/-- Every way out of `GENERATE` leaves the tables alone and draws one canvas. -/
theorem did_generate :
    Did .GENERATE env client request w (generate env request w).world
      (generate env request w).effects := by
  unfold generate
  cases hp : parseGenerate request with
  | error a => exact .refused
  | ok args =>
    rcases args with ⟨canvasId, filename, start, last, rate⟩
    dsimp only
    cases hi : w.canvases.lookup canvasId with
    | none => exact .refused
    | some i =>
      have hcanvas : canvasOf .GENERATE request w = some i := by
        simp only [canvasOf, hp, Except.toOption, Option.bind_some, hi]
      dsimp only
      cases hce : w.canvases.entryAt i with
      | none => exact .refused
      | some ce =>
        dsimp only
        cases hcv : ce.ptr with
        | none => exact .refused
        | some cv =>
          -- a file is opened, then frames are drawn, then `ffmpeg` is called, and each of
          -- the calls may be the last
          have hframes : ∀ frames tail : List Effect,
              (∀ e ∈ frames, Films (pathOf filename ".dat") cv rate e) →
              (∀ e ∈ tail, ∃ cmd, e = .system cmd) →
              Did .GENERATE env client request w w
                (.openFile (pathOf filename ".dat") :: (frames ++ tail)) := by
            intro frames tail hf ht
            refine .drew hcanvas hce hcv fun e he => ?_
            rcases List.mem_cons.mp he with rfl | he
            · trivial
            · rcases List.mem_append.mp he with he | he
              · rcases hf e he with ⟨j, rfl | ⟨size, whole, rfl⟩⟩
                · rfl
                · trivial
              · rcases ht e he with ⟨cmd, rfl⟩
                trivial
          have hnone := hframes [] [] (by simp) (by simp)
          have hloop : ∀ e ∈ (frameLoop env (pathOf filename ".dat") cv rate last
                (last - start + 2).toNat start).1,
              Films (pathOf filename ".dat") cv rate e := fun e he => films_frameLoop he
          dsimp only
          split
          · exact hnone
          · split
            · exact hnone
            · split
              · exact hnone
              · split <;> rename_i heq <;> rw [heq] at hloop
                · simpa using hframes _ [] hloop (by simp)
                · simpa using hframes _ [] hloop (by simp)
                · split
                  · simpa using hframes _ [] hloop (by simp)
                  · exact hframes _ _ hloop (by simp)

/-- `SHARE` writes into the entry of the canvas and makes no call. -/
theorem did_share (r : ClientRegistry) :
    Did .SHARE env client request w (share request r w).world (share request r w).effects := by
  unfold share
  cases hp : parseShare request with
  | error a => exact .refused
  | ok args =>
    rcases args with ⟨cid, user⟩
    dsimp only
    cases hi : w.canvases.lookup (toInt cid) with
    | none => exact .refused
    | some i =>
      have hcanvas : canvasOf .SHARE request w = some i := by
        simp only [canvasOf, hp, Except.toOption, Option.bind_some, hi]
      dsimp only
      cases hce : w.canvases.entryAt i with
      | none => exact .refused
      | some ce =>
        dsimp only
        -- a destroyed canvas is refused, and so is a name nobody has
        by_cases hptr : ce.ptr = none
        · simp only [if_pos hptr]
          exact .refused
        · simp only [if_neg hptr]
          cases (findUser r.mem user r.brk r.clients).2 with
          | none => exact .refused
          | some target =>
            dsimp only
            split
            · exact .refused
            · exact .shared hcanvas hce hptr

end Commands

/-- A command makes one of the moves. -/
theorem did_runRpc (type : TaskType) (env : Env) (client : ClientRef) (request : CStr)
    (r : ClientRegistry) (w : World) :
    Did type env client request w (runRpc type env client request r w).world
      (runRpc type env client request r w).effects := by
  -- the four moves differ in the call they make
  have hmove : ∀ call ∈ [Effect.placementUp, .placementDown, .placementTop, .placementBottom],
      ∀ pl, placementArg (call pl) = some pl ∧ makes (call pl) = none ∧
        destroyed (call pl) = none ∧ drawn (call pl) = none := by
    simp [placementArg, makes, destroyed, drawn]
  cases type with
  | CREATE_CANVAS => exact did_createCanvas
  | DESTROY_CANVAS => exact did_destroyCanvas
  | CREATE_SPRITE => exact did_createSprite
  | CREATE_RECTANGLE => exact did_createRectangle
  | CREATE_CIRCLE => exact did_createCircle
  | DESTROY_SPRITE => exact did_destroySprite
  | PLACE_SPRITE => exact did_placeSprite
  | PLACEMENT_UP => exact did_movePlacement rfl (hmove _ (by simp))
  | PLACEMENT_DOWN => exact did_movePlacement rfl (hmove _ (by simp))
  | PLACEMENT_TOP => exact did_movePlacement rfl (hmove _ (by simp))
  | PLACEMENT_BOTTOM => exact did_movePlacement rfl (hmove _ (by simp))
  | DESTROY_PLACEMENT => exact did_destroyPlacement
  | SET_ANIM_PARAM => exact did_setAnimParam
  | GENERATE => exact did_generate
  | SHARE => exact did_share r
  | HANDSHAKE => exact .refused
  | AUTHORISE => exact .refused
  | BARRIER => exact .refused

/-! ## Insertion -/

section Insertion

variable {ε : Type} {realloc : Int → Option Nat} {elemSize : Int} {mk : Nat → ε} {t t' : Table ε}

/-- A table without an array is full, so that the next insertion asks for one. -/
def Attached (t : Table ε) : Prop := t.arr = none → (t.count : Int) = t.capacity

/-- The tables start without an array. -/
theorem attached_empty : Attached (Table.empty : Table ε) := fun _ => rfl

/-- Writing an entry does not detach the table from its array. -/
theorem Attached.setEntry (h : Attached t) (i : Nat) (e : ε) : Attached (t.setEntry i e) := by
  intro harr
  apply h
  simpa [Table.setEntry] using harr

/-- An insertion that gets through writes the cell at `count` and no other. -/
theorem insert_some {id : Nat} (h : Attached t)
    (hins : t.insert realloc elemSize mk = (some id, t')) :
    id = t.count ∧ t'.count = t.count + 1 ∧ Attached t' ∧
      ∀ j, t'.entryAt j = if j = t.count then some (mk t.count) else t.entryAt j := by
  -- the entry is pushed to a table with an array that has the cells of `t`
  have hpush : ∀ u : Table ε, u.arr ≠ none → u.count = t.count →
      (∀ j, u.entryAt j = t.entryAt j) → u.push mk = (some id, t') →
      id = t.count ∧ t'.count = t.count + 1 ∧ Attached t' ∧
        ∀ j, t'.entryAt j = if j = t.count then some (mk t.count) else t.entryAt j := by
    intro u harr hcount hcells heq
    rcases Option.ne_none_iff_exists'.mp harr with ⟨a, ha⟩
    cases heq
    refine ⟨hcount, by simp only [hcount], fun hnone => ?_, fun j => ?_⟩
    · simp [Table.setEntry, ha] at hnone
    · rw [← hcells j, ← hcount]
      by_cases hj : j = u.count
      · simp [Table.entryAt, Table.setEntry, ha, hj]
      · simp [Table.entryAt, Table.setEntry, ha, hj]
  unfold Table.insert at hins
  by_cases hfull : (t.count : Int) = t.capacity
  · rw [if_pos hfull] at hins
    cases hr : realloc (toInt (t.newcap * elemSize)) with
    | none => simp [Table.grow, hr] at hins
    | some block =>
      have hsome : ¬ (t.grow realloc elemSize).arr.isNone = true := by simp [Table.grow, hr]
      dsimp only at hins
      rw [if_neg hsome] at hins
      refine hpush _ (by simp [Table.grow, hr]) (count_grow _ _) (fun j => ?_) hins
      cases ha : t.arr with
      | none => simp [Table.grow, hr, Table.entryAt, ha]
      | some a => simp [Table.grow, hr, Table.entryAt, ha]
  · rw [if_neg hfull] at hins
    exact hpush t (fun hnone => hfull (h hnone)) rfl (fun _ => rfl) hins

/-- The count, the capacity and the block of the table after an insertion. -/
theorem insert_fields {id : Nat} (hins : t.insert realloc elemSize mk = (some id, t')) :
    t'.count = t.count + 1 ∧
      t'.capacity = (if (t.count : Int) = t.capacity then t.newcap else t.capacity) ∧
      t'.arr.map Arr.block = if (t.count : Int) = t.capacity then
        realloc (toInt (t.newcap * elemSize)) else t.arr.map Arr.block := by
  unfold Table.insert at hins
  -- the table grows first when it is full
  by_cases hfull : (t.count : Int) = t.capacity
  · rw [if_pos hfull] at hins
    rw [if_pos hfull, if_pos hfull]
    cases hr : realloc (toInt (t.newcap * elemSize)) with
    | none => simp [Table.grow, hr] at hins
    | some block =>
      have hsome : ¬ (t.grow realloc elemSize).arr.isNone = true := by simp [Table.grow, hr]
      dsimp only at hins
      rw [if_neg hsome] at hins
      cases hins
      simp [Table.grow, hr, Table.setEntry]
  · rw [if_neg hfull] at hins
    rw [if_neg hfull, if_neg hfull]
    cases hins
    refine ⟨rfl, rfl, ?_⟩
    cases harr : t.arr <;> simp [Table.setEntry, harr]

/-- An insertion that fails leaves a table without an array. -/
theorem insert_failed (hins : t.insert realloc elemSize mk = (none, t')) :
    t' = { t with arr := none } ∧ Attached t' := by
  rcases insert_none (congrArg Prod.fst hins) with ⟨hfull, -, heq⟩
  rw [hins] at heq
  obtain rfl : t' = { t with arr := none } := heq
  exact ⟨rfl, fun _ => hfull⟩

end Insertion

/-! ## Cells -/

section Cells

variable {ε : Type} {t t' : Table ε}

/-- The second of two writes to one entry counts. -/
theorem setEntry_setEntry (t : Table ε) (i : Nat) (e e' : ε) :
    (t.setEntry i e).setEntry i e' = t.setEntry i e' := by
  unfold Table.setEntry
  cases t.arr with
  | none => rfl
  | some a => simp

/-- A write to a cell that is there. -/
theorem entryAt_setEntry_self {t : Table ε} {i : Nat} {e : ε} (e' : ε)
    (h : t.entryAt i = some e) : (t.setEntry i e').entryAt i = some e' := by
  unfold Table.entryAt at h ⊢
  unfold Table.setEntry
  cases ha : t.arr with
  | none => simp [ha] at h
  | some a => simp

/-- A write to another cell. -/
theorem entryAt_setEntry_ne (t : Table ε) (e : ε) {i j : Nat} (h : j ≠ i) :
    (t.setEntry i e).entryAt j = t.entryAt j := by
  unfold Table.setEntry Table.entryAt
  cases t.arr with
  | none => rfl
  | some a => simp [h]

variable [Entry ε]

/-- The pointer in cell `i`, if that has been written. -/
def cell (t : Table ε) (i : Nat) : Option (Option Handle) := (t.entryAt i).map Entry.ptr

/-- What a cell holds is the pointer of its entry. -/
theorem cell_eq {i : Nat} {e : ε} (he : t.entryAt i = some e) : cell t i = some (Entry.ptr e) := by
  simp only [cell, he, Option.map_some]

/-- Writing an entry changes one cell. -/
theorem cell_setEntry {i : Nat} {e : ε} (e' : ε) (he : t.entryAt i = some e) (j : Nat) :
    cell (t.setEntry i e') j = if j = i then some (Entry.ptr e') else cell t j := by
  by_cases hj : j = i
  · subst hj
    rw [if_pos rfl, cell_eq (entryAt_setEntry_self e' he)]
  · rw [if_neg hj, cell, entryAt_setEntry_ne t e' hj]
    rfl

/-- An insertion adds one cell, behind the last one. -/
theorem cell_insert {realloc : Int → Option Nat} {elemSize : Int} {mk : Nat → ε} {id : Nat}
    (h : Attached t) (hins : t.insert realloc elemSize mk = (some id, t')) (j : Nat) :
    cell t' j = if j = t.count then some (Entry.ptr (mk t.count)) else cell t j := by
  rcases insert_some h hins with ⟨-, -, -, hcells⟩
  unfold cell
  rw [hcells]
  split <;> rfl

end Cells

/-! ## The cleanup -/

/-- A table with its remove function and the call that destroys its objects. -/
structure Owned (ε : Type) [Entry ε] extends TableOwners.Part ε where
  destroy : Option Handle → Effect
  remove_eq : ∀ w (i : Nat) e p, (get w).lookup i = some i → (get w).entryAt i = some e →
    Entry.ptr e = some p →
    remove i w = (put w ((get w).setEntry i (Entry.setPtr e none)), [destroy (some p)])
  put_put : ∀ w t t', put (put w t) t' = put w t'

def ownedCanvases : Owned CanvasEntry where
  toPart := canvasPart
  destroy := .destroyCanvas
  remove_eq := fun _ _ _ _ => canvasRemove_eq
  put_put := fun _ _ _ => rfl

def ownedSprites : Owned SpriteEntry where
  toPart := spritePart
  destroy := .destroySprite
  remove_eq := fun _ _ _ _ => spriteRemove_eq
  put_put := fun _ _ _ => rfl

def ownedPlacements : Owned PlacementEntry where
  toPart := placementPart
  destroy := .destroyPlacement
  remove_eq := fun _ _ _ _ => placementRemove_eq
  put_put := fun _ _ _ => rfl

/-- What is left of an entry that `client_markdead` has removed. -/
def cleared {ε : Type} [Entry ε] (e : ε) : ε := Entry.setOwner (Entry.setPtr e none) none

section Cleanup

variable {ε : Type} [Entry ε]

/-- A turn of the loop does nothing, or clears a live entry of the client and destroys its
object. -/
theorem cleanupTurn_cases (client : ClientRef) (p : Owned ε) (we : World × List Effect) {i : Nat}
    (hi : i < (p.get we.1).count) :
    cleanupTurn client p.get p.put p.remove we i = we ∨
      ∃ e ptr, (p.get we.1).entryAt i = some e ∧ Entry.ptr e = some ptr ∧
        Entry.owner e = some client ∧
        cleanupTurn client p.get p.put p.remove we i =
          (p.put we.1 ((p.get we.1).setEntry i (cleared e)), we.2 ++ [p.destroy (some ptr)]) := by
  cases he : (p.get we.1).entryAt i with
  | none => exact Or.inl (by simp only [cleanupTurn, he])
  | some e =>
    -- an entry of another client, or one already cleared, is passed over
    by_cases hown : Entry.ptr e ≠ none ∧ Entry.owner e = some client
    · rcases Option.ne_none_iff_exists'.mp hown.1 with ⟨ptr, hptr⟩
      refine Or.inr ⟨e, ptr, rfl, hptr, hown.2, ?_⟩
      have hremove := p.remove_eq we.1 i e ptr (lookup_entry hi he) he hptr
      have hread := entryAt_setEntry_self (Entry.setPtr e none) he
      simp only [cleanupTurn, he, if_pos hown, hremove, p.get_put, hread, p.put_put,
        setEntry_setEntry, cleared]
    · exact Or.inl (by simp only [cleanupTurn, he, if_neg hown])

/-- What the clearing of one entry of the client preserves, the loop preserves. -/
theorem cleanupLoop_induct (client : ClientRef) (p : Owned ε) (P : World → List Effect → Prop)
    (hclear : ∀ w es i e ptr, P w es → i < (p.get w).count → (p.get w).entryAt i = some e →
      Entry.ptr e = some ptr → Entry.owner e = some client →
      P (p.put w ((p.get w).setEntry i (cleared e))) (es ++ [p.destroy (some ptr)]))
    {we : World × List Effect} (h : P we.1 we.2) :
    P (cleanupLoop client p.get p.put p.remove we).1
      (cleanupLoop client p.get p.put p.remove we).2 := by
  -- the indices are those of the table, whose count no turn changes
  have hfold : ∀ (is : List Nat) (we : World × List Effect), (∀ i ∈ is, i < (p.get we.1).count) →
      P we.1 we.2 →
      P (is.foldl (cleanupTurn client p.get p.put p.remove) we).1
        (is.foldl (cleanupTurn client p.get p.put p.remove) we).2 := by
    intro is
    induction is with
    | nil => exact fun _ _ h => h
    | cons i is ih =>
      intro we his h
      have hi := his i List.mem_cons_self
      rw [List.foldl_cons]
      rcases cleanupTurn_cases client p we hi with hturn | ⟨e, ptr, he, hptr, hown, hturn⟩
      · -- the entry is not the client's
        rw [hturn]
        exact ih we (fun j hj => his j (List.mem_cons_of_mem _ hj)) h
      · rw [hturn]
        apply ih
        · intro j hj
          rw [p.get_put, count_setEntry]
          exact his j (List.mem_cons_of_mem _ hj)
        · exact hclear _ _ i e ptr h hi he hptr hown
  exact hfold _ we (fun i hi => List.mem_range.mp hi) h

end Cleanup

/-- The three loops of `client_markdead`, each with what it keeps. -/
theorem destroyOwned_induct (client : ClientRef) (P : World → List Effect → Prop)
    (hcanvas : ∀ w es i e ptr, P w es → i < w.canvases.count → w.canvases.entryAt i = some e →
      e.ptr = some ptr → e.owner = some client →
      P { w with canvases := w.canvases.setEntry i (cleared e) }
        (es ++ [.destroyCanvas (some ptr)]))
    (hsprite : ∀ w es i e ptr, P w es → i < w.sprites.count → w.sprites.entryAt i = some e →
      e.ptr = some ptr → e.owner = some client →
      P { w with sprites := w.sprites.setEntry i (cleared e) }
        (es ++ [.destroySprite (some ptr)]))
    (hplacement : ∀ w es i e ptr, P w es → i < w.placements.count →
      w.placements.entryAt i = some e → e.ptr = some ptr → e.owner = some client →
      P { w with placements := w.placements.setEntry i (cleared e) }
        (es ++ [.destroyPlacement (some ptr)]))
    {w : World} (h : P w []) : P (destroyOwned client w).1 (destroyOwned client w).2 := by
  unfold destroyOwned
  -- canvases, then sprites, then placements: the last loop is peeled off first
  apply cleanupLoop_induct client ownedPlacements P hplacement
  apply cleanupLoop_induct client ownedSprites P hsprite
  exact cleanupLoop_induct client ownedCanvases P hcanvas h

/-! ## Tables that have lost their array -/

/-- Every table without an array is full. -/
structure AllAttached (w : World) : Prop where
  canvases : Attached w.canvases
  sprites : Attached w.sprites
  placements : Attached w.placements

/-- The empty tables are attached to their arrays. -/
theorem allAttached_init : AllAttached .init := ⟨attached_empty, attached_empty, attached_empty⟩

/-- An insertion keeps a table attached, whether it gets through or not. -/
theorem attached_insert {ε : Type} {t t' : Table ε} {realloc : Int → Option Nat} {elemSize : Int}
    {mk : Nat → ε} {id : Option Nat} (h : Attached t)
    (hins : t.insert realloc elemSize mk = (id, t')) : Attached t' := by
  cases id with
  | none => exact (insert_failed hins).2
  | some id => exact (insert_some h hins).2.2.1

/-- What a handler does leaves no table with entries and without an array. -/
theorem allAttached_did {type : TaskType} {env : Env} {client : ClientRef} {request : CStr}
    {w w' : World} {es : List Effect} (hdid : Did type env client request w w' es)
    (h : AllAttached w) : AllAttached w' := by
  cases hdid with
  | canvas _ _ hins => exact ⟨attached_insert h.canvases hins, h.sprites, h.placements⟩
  | canvasLost _ _ hins => exact ⟨attached_insert h.canvases hins, h.sprites, h.placements⟩
  | sprite _ hins => exact ⟨h.canvases, attached_insert h.sprites hins, h.placements⟩
  | spriteLost _ hins => exact ⟨h.canvases, attached_insert h.sprites hins, h.placements⟩
  | placement _ _ _ hins => exact ⟨h.canvases, h.sprites, attached_insert h.placements hins⟩
  | placementLost _ _ _ hins => exact ⟨h.canvases, h.sprites, attached_insert h.placements hins⟩
  | destroyedCanvas => exact ⟨h.canvases.setEntry _ _, h.sprites, h.placements⟩
  | destroyedSprite => exact ⟨h.canvases, h.sprites.setEntry _ _, h.placements⟩
  | destroyedPlacement => exact ⟨h.canvases, h.sprites, h.placements.setEntry _ _⟩
  | shared => exact ⟨h.canvases.setEntry _ _, h.sprites, h.placements⟩
  | _ => exact h

/-- The cleanup for a client leaves the arrays. -/
theorem allAttached_cleanup (client : ClientRef) {w : World} (h : AllAttached w) :
    AllAttached (destroyOwned client w).1 := by
  refine destroyOwned_induct client (fun w _ => AllAttached w) ?_ ?_ ?_ h
  · intro w es i e ptr h _ _ _ _
    exact ⟨h.canvases.setEntry _ _, h.sprites, h.placements⟩
  · intro w es i e ptr h _ _ _ _
    exact ⟨h.canvases, h.sprites.setEntry _ _, h.placements⟩
  · intro w es i e ptr h _ _ _ _
    exact ⟨h.canvases, h.sprites, h.placements.setEntry _ _⟩

/-- In every reachable state a table with entries has its array. -/
theorem reachable_allAttached {w : World} (h : tables.Reachable w) : AllAttached w := by
  refine h.invariant (fun w hw => ?_) (fun l w w' (hs : tableStep l w = some w') ih => ?_)
  · rw [show w = World.init from hw]
    exact allAttached_init
  · cases l with
    | cleanup client =>
      obtain rfl : (destroyOwned client w).1 = w' := Option.some.inj hs
      exact allAttached_cleanup client ih
    | rpc type env client request r =>
      obtain ⟨-, rfl⟩ : _ ∧ (runRpc type env client request r w).world = w' := by
        simpa [tableStep] using hs
      exact allAttached_did (did_runRpc type env client request r w) ih

/-! ## Runs with their calls -/

/-- The calls of a step, in order. -/
def effectsOf (l : TableLbl) (w : World) : List Effect :=
  match l with
  | .rpc type env client request r => (runRpc type env client request r w).effects
  | .cleanup client => (destroyOwned client w).2

/-- Append the calls of a step to the log. -/
def logCalls (l : TableLbl) (w _ : World) (log : List Effect) : List Effect :=
  log ++ effectsOf l w

/-- The tables over time, with the log of all calls that have been made. -/
abbrev calls : Transition.LTS (World × List Effect) TableLbl := tables.recording [] logCalls

instance (type : TaskType) (env : Env) (request : CStr) (w : World) :
    Decidable (InsertLoses type env request w) := by
  unfold InsertLoses GrowthLoses
  cases type <;> infer_instance

/-- A request of client 0, with calls that succeed; a create call returns `ptr`. -/
def ask (type : TaskType) (ptr : Handle) (args : String) : TableLbl :=
  .rpc type (.allSucceed ptr) 0 args.toList .init

/-- Client 0 creates a canvas and a rectangle and places the rectangle on the canvas. -/
def placing : List TableLbl :=
  [ask .CREATE_CANVAS 1 "10 10 0", ask .CREATE_RECTANGLE 2 "1 1 0 0",
    ask .PLACE_SPRITE 3 "0 0 0 0"]

end AnimateServer.CommandCases
