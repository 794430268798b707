import AnimateServer.Model.Worker

/-!
# What a refused command leaves behind

A command that answers with a negative number should have done nothing. The
create and place commands run into libanimate before they insert, so there a
failure has to be undone: the object is destroyed again. The table is not
restored: `grow_array` returns null when `realloc` fails and the caller stores
that null over the pointer to the old array.
-/

namespace AnimateServer.FailedRpc

open CLib

/-! ## Objects made and destroyed -/

/-- The library object a call has created. -/
def created : Effect → Option (ObjKind × Handle)
  | .createCanvas _ _ _ ret => ret.map fun p => (.canvas, p)
  | .createSprite _ ret => ret.map fun p => (.sprite, p)
  | .createRectangle _ _ _ _ ret => ret.map fun p => (.sprite, p)
  | .createCircle _ _ _ ret => ret.map fun p => (.sprite, p)
  | .placeSprite _ _ _ _ ret => ret.map fun p => (.placement, p)
  | _ => none

/-- The library object a call has destroyed. -/
def destroyed : Effect → Option (ObjKind × Handle)
  | .destroyCanvas ptr => ptr.map fun p => (.canvas, p)
  | .destroySprite ptr => ptr.map fun p => (.sprite, p)
  | .destroyPlacement ptr => ptr.map fun p => (.placement, p)
  | _ => none

/-- Every object created is destroyed later on. -/
def Undone : List Effect → Prop
  | [] => True
  | e :: es => (∀ o, created e = some o → ∃ e' ∈ es, destroyed e' = some o) ∧ Undone es

/-- Where nothing is created there is nothing to undo. -/
theorem undone_of_none : ∀ {es : List Effect}, (∀ e ∈ es, created e = none) → Undone es
  | [], _ => trivial
  | e :: es, h => by
    refine ⟨fun o ho => ?_, undone_of_none fun e' he' => h e' (List.mem_cons_of_mem _ he')⟩
    rw [h e List.mem_cons_self] at ho
    cases ho

/-- An object that is created and destroyed at once is undone. -/
theorem undone_pair {e e' : Effect} {o : ObjKind × Handle} (he : created e = some o)
    (he' : destroyed e' = some o) (hn : created e' = none) : Undone [e, e'] := by
  refine ⟨fun o' ho' => ⟨e', by simp, ?_⟩, undone_of_none (by simpa using hn)⟩
  rw [← ho', he, he']

/-- A negative reply means that the tables are as before and that what was created is
gone. -/
def FailureUndone (w : World) (ran : Ran) : Prop :=
  ∀ rv, ran.retval = some rv → rv.a < 0 → ran.world = w ∧ Undone ran.effects

/-- A handler that only replies leaves nothing behind. -/
theorem failureUndone_reply (w : World) (rv : RetVal) : FailureUndone w (w.reply rv) :=
  fun _ _ _ => ⟨rfl, trivial⟩

theorem failureUndone_replyAt (w : World) (touched : List (ObjKind × Nat)) (rv : RetVal) :
    FailureUndone w (w.replyAt touched rv) :=
  fun _ _ _ => ⟨rfl, trivial⟩

theorem failureUndone_undefinedAt (w : World) (touched : List (ObjKind × Nat)) :
    FailureUndone w (w.undefinedAt touched) :=
  fun _ h => by cases h

/-- A command that reports success has nothing to undo. -/
theorem failureUndone_of_success {w : World} {ran : Ran} {rv : RetVal}
    (h : ran.retval = some rv) (ha : 0 ≤ rv.a) : FailureUndone w ran := by
  intro rv' h' ha'
  obtain rfl : rv = rv' := Option.some.inj (h.symm.trans h')
  omega

/-! ## Insertion -/

/-- The table is full, its array exists, and `realloc` cannot make it bigger. -/
def GrowthLoses {ε : Type} (realloc : Int → Option Nat) (elemSize : Int) (t : Table ε) : Prop :=
  (t.count : Int) = t.capacity ∧ t.arr ≠ none ∧ realloc (toInt (t.newcap * elemSize)) = none

section Insert

variable {ε : Type} {realloc : Int → Option Nat} {elemSize : Int} {mk : Nat → ε} {t : Table ε}

/-- An insertion that fails has stored the null pointer over the array. -/
theorem insert_none (h : (t.insert realloc elemSize mk).1 = none) :
    (t.count : Int) = t.capacity ∧ realloc (toInt (t.newcap * elemSize)) = none ∧
      (t.insert realloc elemSize mk).2 = { t with arr := none } := by
  unfold Table.insert Table.grow Table.push at h ⊢
  by_cases hfull : (t.count : Int) = t.capacity
  · cases hr : realloc (toInt (t.newcap * elemSize)) with
    | none => simp [hfull]
    | some block => simp [hfull, hr] at h
  · simp [hfull] at h

/-- A table that cannot grow takes no entry. -/
theorem insert_eq_none_of_growthLoses (h : GrowthLoses realloc elemSize t) :
    (t.insert realloc elemSize mk).1 = none := by
  rcases h with ⟨hfull, -, hr⟩
  simp [Table.insert, Table.grow, hfull, hr]

/-- After a failed insertion the table is as before exactly if it had no array. -/
theorem insert_none_iff (h : (t.insert realloc elemSize mk).1 = none) :
    (t.insert realloc elemSize mk).2 = t ↔ ¬ GrowthLoses realloc elemSize t := by
  rcases insert_none h with ⟨hfull, hr, heq⟩
  rw [heq]
  constructor
  · intro ht hlose
    exact hlose.2.1 (congrArg Table.arr ht).symm
  · intro hno
    have harr : t.arr = none := by
      by_contra hne
      exact hno ⟨hfull, hne, hr⟩
    rw [← harr]

end Insert

/-! ## The commands that create -/

section Create

variable (env : Env) (client : ClientRef) (w : World)

/-- The answer of a create command once the library has returned an object: insert it,
and destroy it if that fails. `put` stores the table in the world. -/
theorem failureUndone_insert_iff {ran : Ran} {ε : Type} {t : Table ε} {elemSize : Int}
    {mk : Nat → ε} {p : Option Nat × Table ε} (hp : t.insert env.realloc elemSize mk = p)
    (put : Table ε → World) (hput : ∀ t', put t' = w ↔ t' = t)
    (hfail : p.1 = none →
      ran.world = put p.2 ∧ (∃ rv, ran.retval = some rv ∧ rv.a < 0) ∧ Undone ran.effects)
    (hok : p.1 ≠ none → ∃ rv, ran.retval = some rv ∧ 0 ≤ rv.a) :
    FailureUndone w ran ↔ ¬ GrowthLoses env.realloc elemSize t := by
  subst hp
  cases hi : (t.insert env.realloc elemSize mk).1 with
  | none =>
    rcases hfail hi with ⟨hworld, ⟨rv, hrv, ha⟩, hundone⟩
    -- a failed insertion leaves the table as it was unless growing lost the array
    rw [← insert_none_iff hi, ← hput, ← hworld]
    constructor
    · intro h
      exact (h rv hrv ha).1
    · intro hw rv' _ _
      exact ⟨hw, hundone⟩
  | some id =>
    rcases hok (by simp [hi]) with ⟨rv, hrv, ha⟩
    refine iff_of_true (failureUndone_of_success hrv ha) fun hlose => ?_
    rw [insert_eq_none_of_growthLoses hlose] at hi
    cases hi

/-- A create call that returned null has made nothing. -/
theorem failureUndone_nothing {call : Effect} {touched : List (ObjKind × Nat)} {a : Int}
    (hcall : created call = none) :
    FailureUndone w { w.replyAt touched (ret1 a) with effects := [call] } :=
  fun _ _ _ => ⟨rfl, undone_of_none (by simpa using hcall)⟩

/-- The end of the three handlers that make a sprite fails cleanly unless the table is lost. -/
theorem keepSprite_iff {call : Effect}
    (hcall : created call = env.create.map fun p => (ObjKind.sprite, p)) :
    FailureUndone w (keepSprite env call client w) ↔
      ¬ (env.create ≠ none ∧ GrowthLoses env.realloc sizeofSpriteEntry w.sprites) := by
  unfold keepSprite
  cases hc : env.create with
  | none =>
    rw [hc] at hcall
    exact iff_of_true (failureUndone_nothing w hcall) (by simp)
  | some sp =>
    rw [hc] at hcall
    simp only [ne_eq, reduceCtorEq, not_false_eq_true, true_and, World.spriteInsert]
    -- a sprite was made, so all depends on the insertion
    generalize hins : w.sprites.insert env.realloc sizeofSpriteEntry
      (fun id => (⟨some sp, id, some client⟩ : SpriteEntry)) = p
    refine failureUndone_insert_iff env w hins (fun t => { w with sprites := t })
      (fun t' => ?_) (fun hi => ?_) (fun hi => ?_)
    · cases w
      simp
    · rcases p with ⟨id, t⟩
      obtain rfl : id = none := hi
      exact ⟨rfl, ⟨ret1 (-3), rfl, by decide⟩, undone_pair hcall rfl rfl⟩
    · rcases p with ⟨id, t⟩
      rcases Option.ne_none_iff_exists'.mp hi with ⟨id, rfl⟩
      exact ⟨ret2 0 id, rfl, le_refl _⟩

/-- `CREATE_CANVAS` fails cleanly unless the table of the canvases is lost. -/
theorem createCanvas_iff (request : CStr) :
    FailureUndone w (createCanvas env client request w) ↔
      ¬ ((parseCreateCanvas request).isOk ∧ env.create ≠ none ∧
        GrowthLoses env.realloc sizeofCanvasEntry w.canvases) := by
  unfold createCanvas
  cases parseCreateCanvas request with
  | error a => exact iff_of_true (failureUndone_reply w _) (by simp [Except.isOk, Except.toBool])
  | ok args =>
    rcases args with ⟨h, wd, bg⟩
    cases hc : env.create with
    | none => exact iff_of_true (failureUndone_nothing w rfl) (by simp)
    | some cv =>
      simp only [ne_eq, reduceCtorEq, not_false_eq_true, true_and, World.canvasInsert,
        Except.isOk, Except.toBool]
      -- a canvas was made, so all depends on the insertion
      generalize hins : w.canvases.insert env.realloc sizeofCanvasEntry
        (fun id => (⟨some cv, id, toInt wd, toInt h, some client, []⟩ : CanvasEntry)) = p
      refine failureUndone_insert_iff env w hins (fun t => { w with canvases := t })
        (fun t' => ?_) (fun hi => ?_) (fun hi => ?_)
      · cases w
        simp
      · rcases p with ⟨id, t⟩
        obtain rfl : id = none := hi
        exact ⟨rfl, ⟨ret1 (-3), rfl, by decide⟩, undone_pair rfl rfl rfl⟩
      · rcases p with ⟨id, t⟩
        rcases Option.ne_none_iff_exists'.mp hi with ⟨id, rfl⟩
        exact ⟨ret2 0 id, rfl, le_refl _⟩

/-- A placement that gets no entry is destroyed again. -/
theorem keepPlacement_iff {call : Effect} {touched : List (ObjKind × Nat)} {canvas : CanvasPtr}
    (hcall : created call = env.create.map fun p => (ObjKind.placement, p)) :
    FailureUndone w (keepPlacement env call touched client canvas w) ↔
      ¬ (env.create ≠ none ∧ GrowthLoses env.realloc sizeofPlacementEntry w.placements) := by
  unfold keepPlacement
  cases hc : env.create with
  | none =>
    rw [hc] at hcall
    exact iff_of_true (failureUndone_nothing w hcall) (by simp)
  | some pl =>
    rw [hc] at hcall
    simp only [ne_eq, reduceCtorEq, not_false_eq_true, true_and, World.placementInsert]
    -- a placement was made, so all depends on the insertion
    generalize hins : w.placements.insert env.realloc sizeofPlacementEntry
      (fun id => (⟨some pl, id, some client, canvas⟩ : PlacementEntry)) = p
    refine failureUndone_insert_iff env w hins (fun t => { w with placements := t })
      (fun t' => ?_) (fun hi => ?_) (fun hi => ?_)
    · cases w
      simp
    · rcases p with ⟨id, t⟩
      obtain rfl : id = none := hi
      exact ⟨rfl, ⟨ret1 (-3), rfl, by decide⟩, undone_pair hcall rfl rfl⟩
    · rcases p with ⟨id, t⟩
      rcases Option.ne_none_iff_exists'.mp hi with ⟨id, rfl⟩
      exact ⟨ret2 0 id, rfl, le_refl _⟩

/-- The live canvas and the live sprite that a `PLACE_SPRITE` request names. -/
def placeTargets (request : CStr) (w : World) : Option (Handle × Handle) := do
  let (cid, sid, _, _) ← (parsePlaceSprite request).toOption
  let ci ← w.canvases.lookup (toInt cid)
  let ce ← w.canvases.entryAt ci
  let cv ← ce.ptr
  let si ← w.sprites.lookup (toInt sid)
  let se ← w.sprites.entryAt si
  let sp ← se.ptr
  some (cv, sp)

/-- `PLACE_SPRITE` can lose the table only if both objects are there. -/
theorem placeSprite_iff (request : CStr) :
    FailureUndone w (placeSprite env client request w) ↔
      ¬ ((placeTargets request w).isSome ∧ env.create ≠ none ∧
        GrowthLoses env.realloc sizeofPlacementEntry w.placements) := by
  unfold placeSprite placeTargets
  cases parsePlaceSprite request with
  | error a => exact iff_of_true (failureUndone_reply w _) (by simp [Except.toOption])
  | ok args =>
    rcases args with ⟨cid, sid, x, y⟩
    simp only [Except.toOption, Option.bind_eq_bind, Option.bind_some]
    cases w.canvases.lookup (toInt cid) with
    | none => exact iff_of_true (failureUndone_reply w _) (by simp)
    | some ci =>
      simp only [Option.bind_some]
      cases w.canvases.entryAt ci with
      | none => exact iff_of_true (failureUndone_undefinedAt w _) (by simp)
      | some ce =>
        simp only [Option.bind_some]
        cases ce.ptr with
        | none => exact iff_of_true (failureUndone_replyAt w _ _) (by simp)
        | some cv =>
          simp only [Option.bind_some]
          cases w.sprites.lookup (toInt sid) with
          | none => exact iff_of_true (failureUndone_replyAt w _ _) (by simp)
          | some si =>
            simp only [Option.bind_some]
            cases w.sprites.entryAt si with
            | none => exact iff_of_true (failureUndone_undefinedAt w _) (by simp)
            | some se =>
              simp only [Option.bind_some]
              cases se.ptr with
              | none => exact iff_of_true (failureUndone_replyAt w _ _) (by simp)
              | some sp =>
                simp only [Option.bind_some, Option.isSome_some, true_and]
                -- both targets are live: the placement may be made
                exact keepPlacement_iff env client w rfl

end Create

/-! ## All commands -/

/-- The command gets as far as an insertion that cannot grow the table. -/
def InsertLoses (type : TaskType) (env : Env) (request : CStr) (w : World) : Prop :=
  match type with
  | .CREATE_CANVAS => (parseCreateCanvas request).isOk ∧ env.create ≠ none ∧
      GrowthLoses env.realloc sizeofCanvasEntry w.canvases
  | .CREATE_SPRITE => (parseCreateSprite request).isOk ∧ env.create ≠ none ∧
      GrowthLoses env.realloc sizeofSpriteEntry w.sprites
  | .CREATE_RECTANGLE => (parseCreateRectangle request).isOk ∧ env.create ≠ none ∧
      GrowthLoses env.realloc sizeofSpriteEntry w.sprites
  | .CREATE_CIRCLE => (parseCreateCircle request).isOk ∧ env.create ≠ none ∧
      GrowthLoses env.realloc sizeofSpriteEntry w.sprites
  | .PLACE_SPRITE => (placeTargets request w).isSome ∧ env.create ≠ none ∧
      GrowthLoses env.realloc sizeofPlacementEntry w.placements
  | _ => False

section Others

variable (env : Env) (client : ClientRef) (request : CStr) (w : World)

/-- The handlers that create nothing fail cleanly in every case. -/
theorem failureUndone_destroyCanvas : FailureUndone w (destroyCanvas request w) := by
  unfold destroyCanvas
  split
  · exact failureUndone_reply w _
  · split
    · exact failureUndone_reply w _
    · split
      · exact failureUndone_undefinedAt w _
      · split
        · exact failureUndone_replyAt w _ _
        · exact failureUndone_of_success rfl (le_refl _)

theorem failureUndone_destroySprite : FailureUndone w (destroySprite env request w) := by
  unfold destroySprite
  split
  · exact failureUndone_reply w _
  · split
    · exact failureUndone_reply w _
    · split
      · exact failureUndone_undefinedAt w _
      · split
        · exact failureUndone_replyAt w _ _
        · exact failureUndone_of_success rfl (le_refl _)

theorem failureUndone_onPlacement (id : Int) (act : Handle → World × List Effect) :
    FailureUndone w (onPlacement id w act) := by
  unfold onPlacement
  split
  · exact failureUndone_reply w _
  · split
    · exact failureUndone_undefinedAt w _
    · split
      · exact failureUndone_replyAt w _ _
      · exact failureUndone_of_success rfl (le_refl _)

theorem failureUndone_movePlacement (call : Handle → Effect) :
    FailureUndone w (movePlacement call request w) := by
  unfold movePlacement
  split
  · exact failureUndone_reply w _
  · exact failureUndone_onPlacement w _ _

theorem failureUndone_destroyPlacement : FailureUndone w (destroyPlacement request w) := by
  unfold destroyPlacement
  split
  · exact failureUndone_reply w _
  · exact failureUndone_onPlacement w _ _

theorem failureUndone_setAnimParam : FailureUndone w (setAnimParam request w) := by
  unfold setAnimParam
  split
  · exact failureUndone_reply w _
  · exact failureUndone_onPlacement w _ _

theorem failureUndone_share (r : ClientRegistry) : FailureUndone w (share request r w) := by
  unfold share
  split
  · exact failureUndone_reply w _
  · split
    · exact failureUndone_reply w _
    · split
      · exact failureUndone_undefinedAt w _
      · split
        · exact failureUndone_replyAt w _ _
        · split
          -- a failed share has followed clients and written nothing
          rename_i visited target _
          cases target with
          | none => exact fun _ _ _ => ⟨rfl, trivial⟩
          | some target =>
            simp only []
            split
            · exact fun _ _ _ => ⟨rfl, trivial⟩
            · exact failureUndone_of_success rfl (le_refl _)

/-- `GENERATE` writes files, but no table. -/
theorem failureUndone_generate : FailureUndone w (generate env request w) := by
  have hopen : ∀ path touched (rv : RetVal),
      FailureUndone w ⟨w, [.openFile path], touched, [], some rv⟩ :=
    fun _ _ _ _ _ _ => ⟨rfl, undone_of_none (by simp [created])⟩
  unfold generate
  split
  · exact failureUndone_reply w _
  · split
    · exact failureUndone_reply w _
    · split
      · exact failureUndone_undefinedAt w _
      · split
        · exact failureUndone_replyAt w _ _
        · simp only []
          split
          · exact hopen _ _ _
          · split
            · exact hopen _ _ _
            · split
              · exact hopen _ _ _
              · -- from the first frame on, the first value of the reply is 0
                split
                · exact fun _ h => by cases h
                · exact failureUndone_of_success rfl (le_refl _)
                · split
                  · exact failureUndone_of_success rfl (le_refl _)
                  · exact failureUndone_of_success rfl (le_refl _)

end Others

/-- Whatever the library and `realloc` answer, a command that refuses a request has
changed nothing and left nothing behind, if and only if it did not lose an array while
growing it. -/
theorem failure_undone_iff (type : TaskType) (env : Env) (client : ClientRef) (request : CStr)
    (r : ClientRegistry) (w : World) :
    FailureUndone w (runRpc type env client request r w) ↔ ¬ InsertLoses type env request w := by
  -- the three that make a sprite, once their tokens have been parsed
  have hsprite : ∀ (parsed : Bool) (call : Effect),
      created call = env.create.map (fun p => (ObjKind.sprite, p)) → parsed = true →
      (FailureUndone w (keepSprite env call client w) ↔
        ¬ (parsed = true ∧ env.create ≠ none ∧
          GrowthLoses env.realloc sizeofSpriteEntry w.sprites)) := by
    intro parsed call hcall hparsed
    simpa [hparsed] using keepSprite_iff env client w hcall
  cases type with
  | CREATE_CANVAS => exact createCanvas_iff env client w request
  | PLACE_SPRITE => exact placeSprite_iff env client w request
  | CREATE_SPRITE =>
    simp only [runRpc, InsertLoses, createSprite]
    cases parseCreateSprite request with
    | error a => exact iff_of_true (failureUndone_reply w _) (by simp [Except.isOk, Except.toBool])
    | ok file => exact hsprite _ _ rfl rfl
  | CREATE_RECTANGLE =>
    simp only [runRpc, InsertLoses, createRectangle]
    cases parseCreateRectangle request with
    | error a => exact iff_of_true (failureUndone_reply w _) (by simp [Except.isOk, Except.toBool])
    | ok args => exact hsprite _ _ rfl rfl
  | CREATE_CIRCLE =>
    simp only [runRpc, InsertLoses, createCircle]
    cases parseCreateCircle request with
    | error a => exact iff_of_true (failureUndone_reply w _) (by simp [Except.isOk, Except.toBool])
    | ok args => exact hsprite _ _ rfl rfl
  | DESTROY_CANVAS => exact iff_of_true (failureUndone_destroyCanvas request w) id
  | DESTROY_SPRITE => exact iff_of_true (failureUndone_destroySprite env request w) id
  | PLACEMENT_UP => exact iff_of_true (failureUndone_movePlacement request w _) id
  | PLACEMENT_DOWN => exact iff_of_true (failureUndone_movePlacement request w _) id
  | PLACEMENT_TOP => exact iff_of_true (failureUndone_movePlacement request w _) id
  | PLACEMENT_BOTTOM => exact iff_of_true (failureUndone_movePlacement request w _) id
  | DESTROY_PLACEMENT => exact iff_of_true (failureUndone_destroyPlacement request w) id
  | SET_ANIM_PARAM => exact iff_of_true (failureUndone_setAnimParam request w) id
  | GENERATE => exact iff_of_true (failureUndone_generate env request w) id
  | SHARE => exact iff_of_true (failureUndone_share request w r) id
  | HANDSHAKE => exact iff_of_true (failureUndone_undefinedAt w _) id
  | AUTHORISE => exact iff_of_true (failureUndone_undefinedAt w _) id
  | BARRIER => exact iff_of_true (failureUndone_undefinedAt w _) id

/-! ## A table that fills up -/

/-- The command `create_canvas 10 10 0`, everything succeeding. -/
def createOne (w : World) : Ran := createCanvas (.allSucceed 7) 0 "10 10 0".toList w

theorem createOne_eq (w : World) :
    createOne w =
      match w.canvasInsert (fun _ => some 1) 7 0 (toInt 10) (toInt 10) with
      | (none, w) =>
        { w.reply (ret1 (-3)) with
          effects := [.createCanvas 10 10 0 (some 7), .destroyCanvas (some 7)] }
      | (some id, w) =>
        ⟨w, [.createCanvas 10 10 0 (some 7)], [(.canvas, id)], [], some (ret2 0 id)⟩ := by
  have hparse : parseCreateCanvas "10 10 0".toList = .ok (10, 10, 0) := by decide
  simp only [createOne, createCanvas, hparse]
  rfl

/-- The canvas table holds `n` canvases in its first array. -/
structure Filled (n : Nat) (w : World) : Prop where
  count : w.canvases.count = n
  capacity : w.canvases.capacity = if n = 0 then 0 else INITIAL_CAPACITY
  arr : n ≠ 0 → w.canvases.arr ≠ none

theorem filled_init : Filled 0 .init := ⟨rfl, rfl, fun h => absurd rfl h⟩

/-- One more canvas fits as long as there are fewer than 64. -/
theorem Filled.createOne {n : Nat} {w : World} (h : Filled n w) (hn : n < 64) :
    (createOne w).retval.isSome ∧ Filled (n + 1) (createOne w).world := by
  rw [createOne_eq]
  unfold World.canvasInsert Table.insert
  -- the first canvas allocates the array, the next 63 fit into it
  by_cases hzero : n = 0
  · subst hzero
    have hcap : w.canvases.capacity = 0 := h.capacity
    simp only [h.count, hcap, Table.grow, Table.newcap, Table.push, Table.setEntry]
    exact ⟨rfl, rfl, rfl, fun _ => by simp⟩
  · have hcap : w.canvases.capacity = 64 := by
      rw [h.capacity, if_neg hzero]
      rfl
    have hne : ¬ ((n : Int) = 64) := by omega
    simp only [h.count, hcap, hne, if_false, Table.push, Table.setEntry]
    refine ⟨rfl, rfl, rfl, fun _ => ?_⟩
    have harr := h.arr hzero
    simpa using harr

/-- The tables after `n` canvases. -/
def canvases (n : Nat) : World := (fun w => (createOne w).world)^[n] .init

/-- As many canvases as are asked for fit in below the first growth. -/
theorem filled_canvases : ∀ {n : Nat}, n ≤ 64 → Filled n (canvases n)
  | 0, _ => filled_init
  | n + 1, hn => by
    have h := (filled_canvases (Nat.le_of_succ_le hn)).createOne hn
    rw [canvases, Function.iterate_succ_apply']
    exact h.2

/-- They are made by requests. -/
theorem reachable_canvases : ∀ {n : Nat}, n ≤ 64 → tables.Reachable (canvases n)
  | 0, _ => .init rfl
  | n + 1, hn => by
    have h := (filled_canvases (Nat.le_of_succ_le hn)).createOne hn
    rw [canvases, Function.iterate_succ_apply']
    refine .step (l := .rpc .CREATE_CANVAS (.allSucceed 7) 0 "10 10 0".toList .init)
      (reachable_canvases (Nat.le_of_succ_le hn)) ?_
    exact if_pos h.1

/-- With 64 canvases and no memory, a refused `create_canvas` loses the whole table. -/
theorem refused_create_loses_table :
    ¬ ∀ w, tables.Reachable w → ∀ type env client request r,
      FailureUndone w (runRpc type env client request r w) := by
  intro h
  obtain ⟨w, hreach, hfilled⟩ : ∃ w, tables.Reachable w ∧ Filled 64 w :=
    ⟨canvases 64, reachable_canvases (le_refl 64), filled_canvases (le_refl 64)⟩
  have hundone := h w hreach .CREATE_CANVAS
    { Env.allSucceed 7 with realloc := fun _ => none } 0 "10 10 0".toList .init
  refine (createCanvas_iff _ 0 w _).mp hundone
    ⟨by decide, Option.some_ne_none 7, ?_, hfilled.arr (by decide), rfl⟩
  rw [hfilled.count, hfilled.capacity]
  rfl

end AnimateServer.FailedRpc
