import AnimateServer.Verify.Handles
import AnimateServer.Verify.PlacementLife

/-!
# Who may touch a canvas

`CREATE_CANVAS` records the owner of a canvas and `SHARE` the clients it is shared
with, but no handler asks who sends a request. What keeps a canvas from being touched
is only that the request does not look it up: a request is handled in the same way for
every client, and leaves the canvases alone that it neither looks up nor reaches through a
placement. What libanimate is given are pointers, and a pointer says which object is meant
only as long as no placement of a destroyed canvas is used.
-/

namespace AnimateServer.Strangers

open Transition CLib FailedRpc TableOwners CommandCases PlacementLife

/-! ## Leaving a canvas alone -/

/-- The objects that are handed to a call. -/
def args : Effect → List (ObjKind × Handle)
  | .destroyCanvas ptr => ptr.toList.map (Prod.mk .canvas)
  | .destroySprite ptr => ptr.toList.map (Prod.mk .sprite)
  | .destroyPlacement ptr => ptr.toList.map (Prod.mk .placement)
  | .placeSprite cv sp _ _ _ => [(.canvas, cv), (.sprite, sp)]
  | .placementUp pl | .placementDown pl | .placementTop pl | .placementBottom pl
  | .setAnimationParams pl _ _ _ _ => [(.placement, pl)]
  | .generateFrame cv _ _ => [(.canvas, cv)]
  | _ => []

/-- Entry `j` of the placements is `pe`, which was made on the canvas `i`. -/
structure PlacedOn (ps : Table PlacementEntry) (i j : Nat) (pe : PlacementEntry) : Prop where
  lt : j < ps.count
  entry : ps.entryAt j = some pe
  canvas : pe.canvas.index = i

/-- The request looks up, its ids converted to `int`, the canvas `i` or a placement made on
it. -/
def LooksUp (type : TaskType) (request : CStr) (w : World) (i : Nat) : Prop :=
  canvasOf type request w = some i ∨
    ∃ j pe, placementOf type request w = some j ∧ PlacedOn w.placements i j pe

/-- The entry `e` of the canvas `i` is as before, with its list of clients, and so are the
entries of its placements. -/
structure Keeps (w : World) (i : Nat) (e : CanvasEntry) (w' : World) : Prop where
  entry : w'.canvases.entryAt i = some e
  placements : ∀ j pe, PlacedOn w'.placements i j pe ↔ PlacedOn w.placements i j pe

/-- Neither the canvas nor one of its placements is handed to libanimate. -/
structure Spares (w : World) (i : Nat) (e : CanvasEntry) (es : List Effect) : Prop where
  canvas : ∀ call ∈ es, ∀ cv ∈ e.ptr, (.canvas, cv) ∉ args call
  placement : ∀ call ∈ es, ∀ j pe, PlacedOn w.placements i j pe → ∀ pl ∈ pe.ptr,
    (.placement, pl) ∉ args call

/-- A call on one placement. -/
theorem args_used {call : Effect} {pl : Handle} (harg : placementArg call = some pl) :
    args call = [(.placement, pl)] := by
  cases call <;> cases harg <;> rfl

/-- A create call is handed nothing. -/
theorem args_makes {call : Effect} {k : ObjKind} {ret : Option Handle}
    (h : makes call = some (k, ret)) (hk : k ≠ .placement) : args call = [] := by
  cases call with
  | placeSprite => cases h; exact absurd rfl hk
  | _ => first | rfl | cases h

/-- A call of `GENERATE` is handed its canvas at most. -/
theorem args_draws {cv : Handle} {call : Effect} (h : Draws cv call) :
    ∀ o ∈ args call, o = (.canvas, cv) := by
  cases call with
  | generateFrame cv' i rate =>
    cases (show cv' = cv from h)
    intro o ho
    exact List.mem_singleton.mp ho
  | openFile path => nofun
  | writeFrame path buf size whole => nofun
  | system cmd => nofun
  | _ => cases h

/-! ## What is not looked up -/

/-- The object is neither the canvas `cv`, which is in entry `i`, nor a placement on it. -/
structure Foreign (ps : Table PlacementEntry) (i : Nat) (cv : Handle) (o : ObjKind × Handle) :
    Prop where
  canvas : o ≠ (.canvas, cv)
  placement : ∀ j pe, PlacedOn ps i j pe → ∀ pl ∈ pe.ptr, o ≠ (.placement, pl)

section Foreign

variable {w w' : World} {es : List Effect} {a : Anim} {i : Nat} {e : CanvasEntry} {cv : Handle}
  {type : TaskType} {request : CStr}

/-- A sprite is no canvas and no placement on one. -/
theorem foreign_sprite (ps : Table PlacementEntry) (sp : Handle) :
    Foreign ps i cv (.sprite, sp) where
  canvas := nofun
  placement := fun _ _ _ _ _ => nofun

/-- Another canvas is not this one. -/
theorem foreign_canvas (ps : Table PlacementEntry) {cv' : Handle} (h : cv' ≠ cv) :
    Foreign ps i cv (.canvas, cv') where
  canvas := fun heq => h (congrArg Prod.snd heq)
  placement := fun _ _ _ _ _ => nofun

/-- The canvas of an entry that the request looks up is another canvas. -/
theorem foreign_lookedUp (h : Tracks w.canvases w.placements a) (hi : i < w.canvases.count)
    (hcell : cell w.canvases i = some (some cv)) (hnot : ¬ LooksUp type request w i) {k : Nat}
    {ce : CanvasEntry} {cv' : Handle} (hk : canvasOf type request w = some k)
    (hce : w.canvases.entryAt k = some ce) (hcv' : ce.ptr = some cv') :
    Foreign w.placements i cv (.canvas, cv') := by
  apply foreign_canvas
  rintro rfl
  have hkcell := (cell_eq hce).trans (congrArg some hcv')
  obtain rfl := h.canvas_inj k (canvasOf_lt hk) i hi _ hkcell hcell
  exact hnot (Or.inl hk)

/-- The canvas of a placement on it stands. -/
theorem stands_of_live (he : w.canvases.entryAt i = some e) (hcv : e.ptr = some cv) {j : Nat}
    {pe : PlacementEntry} (hpe : PlacedOn w.placements i j pe) : Stands w.canvases pe := by
  intro ce hce
  rw [hpe.canvas, he] at hce
  cases hce
  simp [hcv]

/-- A placement that the request looks up is another one, if its canvas stands. -/
theorem foreign_lookedUpPlacement (h : Tracks w.canvases w.placements a)
    (he : w.canvases.entryAt i = some e) (hcv : e.ptr = some cv)
    (hnot : ¬ LooksUp type request w i) {k : Nat} {pe : PlacementEntry} {pl : Handle}
    (hk : placementOf type request w = some k) (hpe : w.placements.entryAt k = some pe)
    (hpl : pe.ptr = some pl) (hstands : Stands w.canvases pe) :
    Foreign w.placements i cv (.placement, pl) where
  canvas := nofun
  placement := by
    rintro j pe' hpe' pl' hpl' ⟨-⟩
    have hj := Placed.mk hpe'.lt hpe'.entry hpl'
    have hplaced := Placed.mk (placementOf_lt hk) hpe hpl
    obtain rfl := h.placed_inj k pe j pe' pl hplaced hstands hj (stands_of_live he hcv hpe')
    exact hnot (Or.inr ⟨k, pe', hk, hpe'⟩)

/-- An object that libanimate has just made is another one, as it has these. -/
theorem foreign_new (h : Tracks w.canvases w.placements a) (hi : i < w.canvases.count)
    (he : w.canvases.entryAt i = some e) (hcv : e.ptr = some cv) {o : ObjKind × Handle}
    (hnew : a.has o = false) : Foreign w.placements i cv o := by
  constructor
  · rintro rfl
    have hhas := h.canvas i hi cv ((cell_eq he).trans (congrArg some hcv))
    exact Bool.false_ne_true (hnew.symm.trans hhas)
  · rintro j pe hpe pl hpl rfl
    rcases h.placed j pe pl ⟨hpe.lt, hpe.entry, hpl⟩ (stands_of_live he hcv hpe) with ⟨_, hon⟩
    exact Bool.false_ne_true (hnew.symm.trans hon.placement)

/-- Calls that are handed other objects only. -/
theorem spares_of_foreign (hcv : e.ptr = some cv)
    (hargs : ∀ call ∈ es, ∀ o ∈ args call, Foreign w.placements i cv o) : Spares w i e es where
  canvas := by
    intro call hcall cv' hcv' hmem
    rw [hcv] at hcv'
    cases hcv'
    exact (hargs call hcall _ hmem).canvas rfl
  placement := by
    intro call hcall j pe hpe pl hpl hmem
    exact (hargs call hcall _ hmem).placement j pe hpe pl hpl rfl

/-- A new placement on another canvas. -/
theorem placedOn_insert {ps ps' : Table PlacementEntry} {new : PlacementEntry}
    (hcount : ps'.count = ps.count + 1)
    (hcells : ∀ j, ps'.entryAt j = if j = ps.count then some new else ps.entryAt j)
    (hne : new.canvas.index ≠ i) (j : Nat) (pe : PlacementEntry) :
    PlacedOn ps' i j pe ↔ PlacedOn ps i j pe := by
  constructor
  · rintro ⟨hlt, hentry, hcanvas⟩
    rw [hcells] at hentry
    -- the new entry is of another canvas
    by_cases hj : j = ps.count
    · rw [if_pos hj] at hentry
      cases hentry
      exact absurd hcanvas hne
    · rw [if_neg hj] at hentry
      exact ⟨by omega, hentry, hcanvas⟩
  · rintro ⟨hlt, hentry, hcanvas⟩
    refine ⟨by omega, ?_, hcanvas⟩
    rw [hcells, if_neg (by omega)]
    exact hentry

/-- A write to the entry of a placement on another canvas. -/
theorem placedOn_setEntry {ps : Table PlacementEntry} {k : Nat} {pe₀ new : PlacementEntry}
    (hk : ps.entryAt k = some pe₀) (hsame : new.canvas = pe₀.canvas)
    (hne : pe₀.canvas.index ≠ i) (j : Nat) (pe : PlacementEntry) :
    PlacedOn (ps.setEntry k new) i j pe ↔ PlacedOn ps i j pe := by
  by_cases hj : j = k
  · -- neither the old entry nor the new one is on the canvas `i`
    subst hj
    constructor
    · rintro ⟨-, hentry, hcanvas⟩
      rw [entryAt_setEntry_self new hk] at hentry
      cases hentry
      exact absurd (hsame ▸ hcanvas) hne
    · rintro ⟨-, hentry, hcanvas⟩
      rw [hk] at hentry
      cases hentry
      exact absurd hcanvas hne
  · constructor
    · rintro ⟨hlt, hentry, hcanvas⟩
      rw [entryAt_setEntry_ne ps new hj] at hentry
      exact ⟨hlt, hentry, hcanvas⟩
    · rintro ⟨hlt, hentry, hcanvas⟩
      refine ⟨hlt, ?_, hcanvas⟩
      rw [entryAt_setEntry_ne ps new hj]
      exact hentry

end Foreign

/-- The entries after a command that looks up neither the canvas `i` nor a placement on it, and
that loses no table. -/
theorem keeps_did {type : TaskType} {env : Env} {client : ClientRef} {request : CStr}
    {w w' : World} {es : List Effect} {i : Nat} {e : CanvasEntry}
    (hdid : Did type env client request w w' es) (hattached : AllAttached w)
    (hkeep : ¬ InsertLoses type env request w) (hi : i < w.canvases.count)
    (he : w.canvases.entryAt i = some e) (hnot : ¬ LooksUp type request w i) :
    Keeps w i e w' := by
  -- a handler that looks up a canvas looks up another one
  have hne : ∀ {k}, canvasOf type request w = some k → k ≠ i := by
    rintro k hk rfl
    exact hnot (Or.inl hk)
  have hsame : Keeps w i e w := ⟨he, fun _ _ => .rfl⟩
  cases hdid with
  | canvas htype hcall hins =>
    rcases insert_some hattached.canvases hins with ⟨-, -, -, hcells⟩
    exact ⟨(hcells i).trans ((if_neg (by omega)).trans he), fun _ _ => .rfl⟩
  | canvasLost htype hcall hins hlose =>
    obtain rfl := Handles.insert_kept hins fun hl => hkeep (hlose hl)
    exact hsame
  | spriteLost hcall hins hlose => exact ⟨he, fun _ _ => .rfl⟩
  | sprite hcall hins => exact ⟨he, fun _ _ => .rfl⟩
  | placement hci hce hcv' hins =>
    rcases insert_some hattached.placements hins with ⟨-, hcount, -, hcells⟩
    exact ⟨he, placedOn_insert hcount hcells (hne hci)⟩
  | placementLost hci hce hcv' hins hlose =>
    obtain rfl := Handles.insert_kept hins fun hl => hkeep (hlose hl)
    exact hsame
  | destroyedCanvas hk hce hcv' =>
    exact ⟨(entryAt_setEntry_ne _ _ (hne hk).symm).trans he, fun _ _ => .rfl⟩
  | destroyedSprite hk hse hsp => exact ⟨he, fun _ _ => .rfl⟩
  | @destroyedPlacement k pe pl hk hpe hpl =>
    have hindex : pe.canvas.index ≠ i := fun heq =>
      hnot (Or.inr ⟨k, pe, hk, placementOf_lt hk, hpe, heq⟩)
    exact ⟨he, placedOn_setEntry hpe rfl hindex⟩
  | shared hk hce hptr =>
    exact ⟨(entryAt_setEntry_ne _ _ (hne hk).symm).trans he, fun _ _ => .rfl⟩
  | refused => exact hsame
  | madeNothing => exact hsame
  | placedNothing => exact hsame
  | usedPlacement => exact hsame
  | drew => exact hsame

/-- The calls of a command that looks up neither the canvas `i` nor a placement on it, nor a
placement of a destroyed canvas. -/
theorem spares_did {type : TaskType} {env : Env} {client : ClientRef} {request : CStr}
    {w w' : World} {es : List Effect} {a : Anim} {i : Nat} {e : CanvasEntry} {cv : Handle}
    (hdid : Did type env client request w w' es) (h : Tracks w.canvases w.placements a)
    (hfresh : ∀ call ∈ es, ∀ o ∈ created call, a.has o = false)
    (hnamed : NamedStands type request w) (hi : i < w.canvases.count)
    (he : w.canvases.entryAt i = some e) (hcv : e.ptr = some cv)
    (hnot : ¬ LooksUp type request w i) : Spares w i e es := by
  have hcell : cell w.canvases i = some (some cv) := (cell_eq he).trans (congrArg some hcv)
  -- the canvas and the sprite that `PLACE_SPRITE` hands over
  have hplace : ∀ {ci ce cv' sp x y ret}, canvasOf type request w = some ci →
      w.canvases.entryAt ci = some ce → ce.ptr = some cv' →
      ∀ o ∈ args (.placeSprite cv' sp x y ret), Foreign w.placements i cv o := by
    intro ci ce cv' sp x y ret hci hce hcv' o ho
    rcases List.mem_cons.mp ho with rfl | ho
    · exact foreign_lookedUp h hi hcell hnot hci hce hcv'
    · cases List.mem_singleton.mp ho
      exact foreign_sprite _ sp
  have hmakes : ∀ {call k ret}, makes call = some (k, ret) → k ≠ .placement →
      ∀ o ∈ args call, Foreign w.placements i cv o := by
    intro call k ret hcall hk o ho
    rw [args_makes hcall hk] at ho
    cases ho
  -- the placement that the request looks up
  have hused : ∀ {k pe pl}, placementOf type request w = some k →
      w.placements.entryAt k = some pe → pe.ptr = some pl →
      Foreign w.placements i cv (.placement, pl) := fun hk hpe hpl =>
    foreign_lookedUpPlacement h he hcv hnot hk hpe hpl (hnamed _ hk _ hpe (by simp [hpl]))
  apply spares_of_foreign hcv
  cases hdid with
  | refused => simp
  | madeNothing hcall hk => simpa using hmakes hcall hk
  | placedNothing hci hce hcv' =>
    intro call hmem
    cases List.mem_singleton.mp hmem
    exact hplace hci hce hcv'
  | canvas htype hcall hins =>
    intro call hmem
    cases List.mem_singleton.mp hmem
    exact hmakes hcall nofun
  | sprite hcall hins =>
    intro call hmem
    cases List.mem_singleton.mp hmem
    exact hmakes hcall nofun
  | @canvasLost call ptr wd ht t htype hcall hins hlose =>
    have hnew := hfresh call List.mem_cons_self (.canvas, ptr) (by rw [created_of_makes hcall]; rfl)
    intro call' hmem o ho
    rcases List.mem_cons.mp hmem with rfl | hmem
    · exact hmakes hcall nofun o ho
    · cases List.mem_singleton.mp hmem
      cases List.mem_singleton.mp ho
      exact foreign_new h hi he hcv hnew
  | @spriteLost call ptr t hcall hins hlose =>
    intro call' hmem o ho
    rcases List.mem_cons.mp hmem with rfl | hmem
    · exact hmakes hcall nofun o ho
    · cases List.mem_singleton.mp hmem
      cases List.mem_singleton.mp ho
      exact foreign_sprite _ ptr
  | placement hci hce hcv' hins =>
    intro call hmem
    cases List.mem_singleton.mp hmem
    exact hplace hci hce hcv'
  | @placementLost ci ce cv' sp ptr x y block t hci hce hcv' hins hlose =>
    have hnew := hfresh _ List.mem_cons_self (.placement, ptr) rfl
    intro call hmem o ho
    rcases List.mem_cons.mp hmem with rfl | hmem
    · exact hplace hci hce hcv' o ho
    · cases List.mem_singleton.mp hmem
      cases List.mem_singleton.mp ho
      exact foreign_new h hi he hcv hnew
  | destroyedCanvas hk hce hcv' =>
    intro call hmem o ho
    cases List.mem_singleton.mp hmem
    cases List.mem_singleton.mp ho
    exact foreign_lookedUp h hi hcell hnot hk hce hcv'
  | destroyedSprite hk hse hsp =>
    intro call hmem o ho
    cases List.mem_singleton.mp hmem
    cases List.mem_singleton.mp ho
    exact foreign_sprite _ _
  | destroyedPlacement hk hpe hpl =>
    intro call hmem o ho
    cases List.mem_singleton.mp hmem
    cases List.mem_singleton.mp ho
    exact hused hk hpe hpl
  | usedPlacement hk hpe hpl harg hmakes hdestroyed hdrawn =>
    intro call hmem o ho
    cases List.mem_singleton.mp hmem
    rw [args_used harg] at ho
    cases List.mem_singleton.mp ho
    exact hused hk hpe hpl
  | drew hk hce hcv' hes =>
    intro call hmem o ho
    cases args_draws (hes call hmem) o ho
    exact foreign_lookedUp h hi hcell hnot hk hce hcv'
  | shared hk hce hptr => simp

/-! ## The sender -/

section Sender

variable {ε : Type} [Entry ε]

/-- The two tables differ in the owners of their entries only. -/
structure SameButOwners (t t' : Table ε) : Prop where
  count : t'.count = t.count
  entries : ∀ j, (t'.entryAt j).map (fun e => Entry.setOwner e none) =
    (t.entryAt j).map fun e => Entry.setOwner e none

theorem SameButOwners.refl (t : Table ε) : SameButOwners t t := ⟨rfl, fun _ => rfl⟩

/-- Two entries that differ in their owner, inserted into one table. -/
theorem sameButOwners_insert (t : Table ε) (realloc : Int → Option Nat) (elemSize : Int)
    {mk mk' : Nat → ε} (hmk : ∀ id, Entry.setOwner (mk' id) none = Entry.setOwner (mk id) none) :
    (t.insert realloc elemSize mk').1 = (t.insert realloc elemSize mk).1 ∧
      SameButOwners (t.insert realloc elemSize mk).2 (t.insert realloc elemSize mk').2 := by
  -- the entries written differ in the owner only
  have hpush : ∀ u : Table ε, (u.push mk').1 = (u.push mk).1 ∧
      SameButOwners (u.push mk).2 (u.push mk').2 := by
    intro u
    refine ⟨rfl, rfl, fun j => ?_⟩
    show ((u.setEntry u.count (mk' u.count)).entryAt j).map _ =
      ((u.setEntry u.count (mk u.count)).entryAt j).map _
    by_cases hj : j = u.count
    · subst hj
      unfold Table.setEntry Table.entryAt
      cases u.arr with
      | none => rfl
      | some a => simp [hmk]
    · rw [entryAt_setEntry_ne _ _ hj, entryAt_setEntry_ne _ _ hj]
  unfold Table.insert
  split
  · dsimp only
    split
    · exact ⟨rfl, .refl _⟩
    · exact hpush _
  · exact hpush t

end Sender

structure SameWorlds (w w' : World) : Prop where
  canvases : SameButOwners w.canvases w'.canvases
  sprites : SameButOwners w.sprites w'.sprites
  placements : SameButOwners w.placements w'.placements

/-- Who sends a request makes no difference where no entry is made. -/
theorem SameWorlds.refl (w : World) : SameWorlds w w := ⟨.refl _, .refl _, .refl _⟩

/-- The two outcomes differ in the owners of entries only. -/
structure SameOutcome (ran ran' : Ran) : Prop where
  effects : ran'.effects = ran.effects
  retval : ran'.retval = ran.retval
  world : SameWorlds ran.world ran'.world

theorem SameOutcome.refl (ran : Ran) : SameOutcome ran ran := ⟨rfl, rfl, .refl _⟩

section Outcome

variable (env : Env) (client client' : ClientRef) (request : CStr) (w : World)

/-- An insertion differs in the owner of the new entry only. -/
theorem canvasInsert_sender (cv : Handle) (wd h : Int) :
    (w.canvasInsert env.realloc cv client' wd h).1 =
        (w.canvasInsert env.realloc cv client wd h).1 ∧
      SameWorlds (w.canvasInsert env.realloc cv client wd h).2
        (w.canvasInsert env.realloc cv client' wd h).2 := by
  have hmk : ∀ id, Entry.setOwner (newCanvas cv client' wd h id) none =
      Entry.setOwner (newCanvas cv client wd h id) none := fun _ => rfl
  rcases sameButOwners_insert w.canvases env.realloc sizeofCanvasEntry hmk with ⟨hid, hsame⟩
  exact ⟨hid, hsame, .refl _, .refl _⟩

theorem spriteInsert_sender (sp : Handle) :
    (w.spriteInsert env.realloc sp client').1 = (w.spriteInsert env.realloc sp client).1 ∧
      SameWorlds (w.spriteInsert env.realloc sp client).2
        (w.spriteInsert env.realloc sp client').2 := by
  have hmk : ∀ id, Entry.setOwner (newSprite sp client' id) none =
      Entry.setOwner (newSprite sp client id) none := fun _ => rfl
  rcases sameButOwners_insert w.sprites env.realloc sizeofSpriteEntry hmk with ⟨hid, hsame⟩
  exact ⟨hid, .refl _, hsame, .refl _⟩

theorem placementInsert_sender (pl : Handle) (canvas : CanvasPtr) :
    (w.placementInsert env.realloc pl client' canvas).1 =
        (w.placementInsert env.realloc pl client canvas).1 ∧
      SameWorlds (w.placementInsert env.realloc pl client canvas).2
        (w.placementInsert env.realloc pl client' canvas).2 := by
  have hmk : ∀ id, Entry.setOwner (newPlacement pl client' canvas id) none =
      Entry.setOwner (newPlacement pl client canvas id) none := fun _ => rfl
  rcases sameButOwners_insert w.placements env.realloc sizeofPlacementEntry hmk with ⟨hid, hsame⟩
  exact ⟨hid, .refl _, .refl _, hsame⟩

/-- `CREATE_CANVAS` goes the same way for every client. -/
theorem sameOutcome_createCanvas :
    SameOutcome (createCanvas env client request w) (createCanvas env client' request w) := by
  unfold createCanvas
  split
  · exact .refl _
  · rename_i h wd bg _
    cases env.create with
    | none => exact .refl _
    | some cv =>
      rcases canvasInsert_sender env client client' w cv (toInt wd) (toInt h) with ⟨hid, hworlds⟩
      dsimp only
      -- both insertions succeed or fail together and give the same id
      generalize w.canvasInsert env.realloc cv client (toInt wd) (toInt h) = p at hid hworlds ⊢
      generalize w.canvasInsert env.realloc cv client' (toInt wd) (toInt h) = p' at hid hworlds ⊢
      rcases p with ⟨id, w₁⟩
      rcases p' with ⟨id', w₂⟩
      obtain rfl : id' = id := hid
      cases id' with
      | none => exact ⟨rfl, rfl, hworlds⟩
      | some id => exact ⟨rfl, rfl, hworlds⟩

theorem sameOutcome_keepSprite (call : Effect) :
    SameOutcome (keepSprite env call client w) (keepSprite env call client' w) := by
  unfold keepSprite
  cases env.create with
  | none => exact .refl _
  | some sp =>
    rcases spriteInsert_sender env client client' w sp with ⟨hid, hworlds⟩
    dsimp only
    -- both insertions succeed or fail together and give the same id
    generalize w.spriteInsert env.realloc sp client = p at hid hworlds ⊢
    generalize w.spriteInsert env.realloc sp client' = p' at hid hworlds ⊢
    rcases p with ⟨id, w₁⟩
    rcases p' with ⟨id', w₂⟩
    obtain rfl : id' = id := hid
    cases id' with
    | none => exact ⟨rfl, rfl, hworlds⟩
    | some id => exact ⟨rfl, rfl, hworlds⟩

theorem sameOutcome_keepPlacement (call : Effect) (touched : List (ObjKind × Nat))
    (canvas : CanvasPtr) :
    SameOutcome (keepPlacement env call touched client canvas w)
      (keepPlacement env call touched client' canvas w) := by
  unfold keepPlacement
  cases env.create with
  | none => exact .refl _
  | some pl =>
    rcases placementInsert_sender env client client' w pl canvas with ⟨hid, hworlds⟩
    dsimp only
    -- both insertions succeed or fail together and give the same id
    generalize w.placementInsert env.realloc pl client canvas = p at hid hworlds ⊢
    generalize w.placementInsert env.realloc pl client' canvas = p' at hid hworlds ⊢
    rcases p with ⟨id, w₁⟩
    rcases p' with ⟨id', w₂⟩
    obtain rfl : id' = id := hid
    cases id' with
    | none => exact ⟨rfl, rfl, hworlds⟩
    | some id => exact ⟨rfl, rfl, hworlds⟩

/-- Of the commands, only those that make an entry look at the sender at all. -/
theorem sameOutcome_runRpc (type : TaskType) (r : ClientRegistry) :
    SameOutcome (runRpc type env client request r w) (runRpc type env client' request r w) := by
  -- only the handlers that insert an entry read who the client is
  cases type with
  | CREATE_CANVAS => exact sameOutcome_createCanvas env client client' request w
  | CREATE_SPRITE =>
    simp only [runRpc, createSprite]
    split
    · exact .refl _
    · exact sameOutcome_keepSprite env client client' w _
  | CREATE_RECTANGLE =>
    simp only [runRpc, createRectangle]
    split
    · exact .refl _
    · exact sameOutcome_keepSprite env client client' w _
  | CREATE_CIRCLE =>
    simp only [runRpc, createCircle]
    split
    · exact .refl _
    · exact sameOutcome_keepSprite env client client' w _
  | PLACE_SPRITE =>
    simp only [runRpc, placeSprite]
    repeat' split
    all_goals first | exact .refl _ | exact sameOutcome_keepPlacement env client client' w _ _ _
  | _ => exact .refl _

end Outcome

/-! ## Every request -/

/-- The runs in which libanimate returns no object that it has already, and no placement of a
destroyed canvas is used. -/
abbrev standing : LTS (World × List Effect) TableLbl := library.under fun l p => OnStanding l p.1

/-- In every reachable state, a request that looks up neither a canvas nor a placement on it
leaves their entries as they are, if it loses no table; and it hands neither of them to
libanimate, if up to this request and in it no placement of a destroyed canvas is used. Who
sends a request makes no difference but for the owner of a new entry. -/
theorem touched_when_looked_up {p : World × List Effect} (hp : calls.Reachable p) {i : Nat}
    {e : CanvasEntry} (hi : i < p.1.canvases.count) (he : p.1.canvases.entryAt i = some e)
    (hlive : e.ptr ≠ none) (type : TaskType) (env : Env) (client : ClientRef) (request : CStr)
    (r : ClientRegistry) :
    (¬ LooksUp type request p.1 i →
      (¬ InsertLoses type env request p.1 →
        Keeps p.1 i e (runRpc type env client request r p.1).world) ∧
      (standing.Reachable p → Fresh (.rpc type env client request r) p →
        NamedStands type request p.1 →
        Spares p.1 i e (runRpc type env client request r p.1).effects)) ∧
      ∀ client', SameOutcome (runRpc type env client request r p.1)
        (runRpc type env client' request r p.1) := by
  -- everything a handler can do is one of the cases of Did
  have hdid := did_runRpc type env client request r p.1
  refine ⟨fun hnot => ⟨fun hkeep => ?_, fun hstanding hfresh hnamed => ?_⟩, fun client' => ?_⟩
  · exact keeps_did hdid (reachable_allAttached hp.of_recording) hkeep hi he hnot
  · rcases Option.ne_none_iff_exists'.mp hlive with ⟨cv, hcv⟩
    exact spares_did hdid (good_reachable hstanding).1 hfresh hnamed hi he hcv hnot
  · exact sameOutcome_runRpc env client client' request p.1 type r

/-- The canvas that client 0 creates first, with the pointer 1. -/
def firstCanvas : CanvasEntry := newCanvas 1 0 10 10 0

/-- A second canvas is made, destroyed, and made again where it was. A request of client 5 to
destroy it leaves the first canvas alone. -/
theorem touched_when_looked_up_firstCanvas :
    ∃ p : World × List Effect, p.1.canvases.entryAt 0 = some firstCanvas ∧
      Keeps p.1 0 firstCanvas
        (runRpc .DESTROY_CANVAS (.allSucceed 3) 5 "2".toList .init p.1).world ∧
      Spares p.1 0 firstCanvas
        (runRpc .DESTROY_CANVAS (.allSucceed 3) 5 "2".toList .init p.1).effects := by
  have hrun := exists_reachable_of_run (World.init, [])
    (guarded (fun l p => OnStanding l p.1) (guarded Fresh (recordStep logCalls tableStep)))
    [ask .CREATE_CANVAS 1 "10 10 0", ask .CREATE_CANVAS 2 "10 10 0", ask .DESTROY_CANVAS 0 "1",
      ask .CREATE_CANVAS 2 "10 10 0"]
    (fun p => decide (0 < p.1.canvases.count ∧ p.1.canvases.entryAt 0 = some firstCanvas ∧
      Fresh (.rpc .DESTROY_CANVAS (.allSucceed 3) 5 "2".toList .init) p ∧
      canvasOf .DESTROY_CANVAS "2".toList p.1 = some 2)) (by decide)
  rcases hrun with ⟨p, hreach, hstate⟩
  rw [← under_ofStep, ← under_ofStep, ← recording_ofStep] at hreach
  -- another client destroys canvas 2, made after one was destroyed
  rcases of_decide_eq_true hstate with ⟨hi, he, hfresh, hlooked⟩
  have hnot : ¬ LooksUp .DESTROY_CANVAS "2".toList p.1 0 := by
    rintro (hcanvas | ⟨j, pe, hj, -⟩)
    · rw [hlooked] at hcanvas
      cases hcanvas
    · cases hj
  have htouched := (touched_when_looked_up hreach.of_under.of_under hi he nofun .DESTROY_CANVAS
    (.allSucceed 3) 5 "2".toList .init).1 hnot
  exact ⟨p, he, htouched.1 id, htouched.2 hreach hfresh nofun⟩

/-- Client 5 destroys the canvas of client 0, which is shared with nobody. -/
theorem stranger_destroys_canvas :
    ¬ ∀ p, standing.Reachable p → ∀ i e, i < p.1.canvases.count →
      p.1.canvases.entryAt i = some e → e.ptr ≠ none →
      ∀ client, e.owner ≠ some client → client ∉ e.shared →
      ∀ type env request r, LooksUp type request p.1 i →
        Keeps p.1 i e (runRpc type env client request r p.1).world ∧
          Spares p.1 i e (runRpc type env client request r p.1).effects := by
  intro hall
  have hrun := exists_reachable_of_run (World.init, [])
    (guarded (fun l p => OnStanding l p.1) (guarded Fresh (recordStep logCalls tableStep)))
    [ask .CREATE_CANVAS 1 "10 10 0"]
    (fun p => decide (0 < p.1.canvases.count ∧ p.1.canvases.entryAt 0 = some firstCanvas ∧
      canvasOf .DESTROY_CANVAS "0".toList p.1 = some 0 ∧
      (runRpc .DESTROY_CANVAS (.allSucceed 2) 5 "0".toList .init p.1).world.canvases.entryAt 0 ≠
        some firstCanvas)) (by decide)
  rcases hrun with ⟨p, hreach, hstate⟩
  rw [← under_ofStep, ← under_ofStep, ← recording_ofStep] at hreach
  rcases of_decide_eq_true hstate with ⟨hi, he, hlooked, hdestroyed⟩
  -- client 5 neither owns canvas 0 nor shares it
  have halone := hall p hreach 0 firstCanvas hi he nofun 5 (by decide) (by decide)
    .DESTROY_CANVAS (.allSucceed 2) "0".toList .init (Or.inl hlooked)
  exact hdestroyed halone.1.entry

end AnimateServer.Strangers
