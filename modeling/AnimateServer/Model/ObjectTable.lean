import AnimateServer.Model.ClientRegistry

/-!
# `server/src/object_table.c`

The three object tables are growing arrays of entries. An array is the address
of its block and its cells; a cell that was never written is `none`, and so is
every cell of the null array. `realloc` is a parameter: the address of the new
block for the requested number of bytes, or null.
-/

namespace AnimateServer

open CLib

/-! ## Entries -/

/-- `CanvasEntry`. `shared` is the part `shared[0 .. shared_count)` of the array. -/
structure CanvasEntry where
  ptr : Option Handle
  canvasId : Int
  width : Int
  height : Int
  owner : Option ClientRef
  shared : List ClientRef
deriving DecidableEq, Repr

/-- `SpriteEntry`. -/
structure SpriteEntry where
  ptr : Option Handle
  spriteId : Int
  owner : Option ClientRef
deriving DecidableEq, Repr

/-- A `CanvasEntry *`: the block of the canvas array and an index into it. -/
structure CanvasPtr where
  block : Nat
  index : Nat
deriving DecidableEq, Repr

/-- `PlacementEntry`. -/
structure PlacementEntry where
  ptr : Option Handle
  placementId : Int
  owner : Option ClientRef
  canvas : CanvasPtr
deriving DecidableEq, Repr

/-- What the three kinds of entries have in common. -/
class Entry (ε : Type) where
  ptr : ε → Option Handle
  owner : ε → Option ClientRef
  setPtr : ε → Option Handle → ε
  setOwner : ε → Option ClientRef → ε

instance : Entry CanvasEntry where
  ptr := CanvasEntry.ptr
  owner := CanvasEntry.owner
  setPtr := fun e p => { e with ptr := p }
  setOwner := fun e o => { e with owner := o }

instance : Entry SpriteEntry where
  ptr := SpriteEntry.ptr
  owner := SpriteEntry.owner
  setPtr := fun e p => { e with ptr := p }
  setOwner := fun e o => { e with owner := o }

instance : Entry PlacementEntry where
  ptr := PlacementEntry.ptr
  owner := PlacementEntry.owner
  setPtr := fun e p => { e with ptr := p }
  setOwner := fun e o => { e with owner := o }

/-! ## Tables -/

/-- An allocated array. -/
structure Arr (ε : Type) where
  block : Nat
  cells : Nat → Option ε

/-- `CanvasTable`, `SpriteTable` and `PlacementTable`. -/
structure Table (ε : Type) where
  arr : Option (Arr ε)
  count : Nat
  capacity : Int

namespace Table

variable {ε : Type}

/-- `tables_init`, for one table. -/
def empty : Table ε where
  arr := none
  count := 0
  capacity := 0

/-- `arr[i]`, if that cell exists and has been written. -/
def entryAt (t : Table ε) (i : Nat) : Option ε :=
  t.arr.bind fun a => a.cells i

/-- `arr[i] = e`. -/
def setEntry (t : Table ε) (i : Nat) (e : ε) : Table ε :=
  { t with arr := t.arr.map fun a => { a with cells := Function.update a.cells i (some e) } }

/-- What `grow_array` asks `realloc` for: `newcap`, and `newcap * elem_size` as
`int` arithmetic computes it. -/
def newcap (t : Table ε) : Int :=
  if t.capacity = 0 then INITIAL_CAPACITY else toInt (t.capacity * 2)

/-- `grow_array` and the assignment of its result to `arr`: a failed `realloc`
leaves the array null, its old block unreachable. -/
def grow (realloc : Int → Option Nat) (elemSize : Int) (t : Table ε) : Table ε :=
  match realloc (toInt (t.newcap * elemSize)) with
  | none => { t with arr := none }
  | some block =>
    { t with
      arr := some ⟨block, match t.arr with
        | some a => a.cells
        | none => fun _ => none⟩
      capacity := t.newcap }

/-- `arr[count]` is filled and `count` incremented; the id of the new entry. -/
def push (mk : Nat → ε) (t : Table ε) : Option Nat × Table ε :=
  (some t.count, { t.setEntry t.count (mk t.count) with count := t.count + 1 })

/-- The three insert functions: grow if full, then fill the entry at `count`. The
index of the new entry, or `none` for the return value `-1`. -/
def insert (realloc : Int → Option Nat) (elemSize : Int) (mk : Nat → ε) (t : Table ε) :
    Option Nat × Table ε :=
  if (t.count : Int) = t.capacity then
    let t := t.grow realloc elemSize
    if t.arr.isNone then (none, t) else t.push mk
  else t.push mk

/-- The three lookup functions: `&arr[id]` as an index. The address of entry 0
of a null array is the null pointer. -/
def lookup (t : Table ε) (id : Int) : Option Nat :=
  if id < 0 ∨ (t.count : Int) ≤ id then none
  else if t.arr.isNone ∧ id = 0 then none
  else some id.toNat

theorem lookup_eq_some {t : Table ε} {id : Int} {j : Nat} (h : t.lookup id = some j) :
    id = j ∧ j < t.count := by
  unfold lookup at h
  split at h
  · cases h
  · split at h
    · cases h
    · rename_i hr _
      obtain rfl := Option.some.inj h
      omega

/-- The three remove functions without the call into libanimate: reset `ptr`. -/
def clearPtr [Entry ε] (t : Table ε) (i : Nat) : Table ε :=
  match t.entryAt i with
  | some e => t.setEntry i (Entry.setPtr e none)
  | none => t

end Table

/-! ## The global tables and libanimate -/

/-- `CANVAS_TABLE`, `SPRITE_TABLE` and `PLACEMENT_TABLE`. -/
structure World where
  canvases : Table CanvasEntry
  sprites : Table SpriteEntry
  placements : Table PlacementEntry

/-- `tables_init`. -/
def World.init : World where
  canvases := .empty
  sprites := .empty
  placements := .empty

/-- Sizes of the entries on LP64. -/
def sizeofCanvasEntry : Int := 616
def sizeofSpriteEntry : Int := 24
def sizeofPlacementEntry : Int := 32

/-- What `animate_generate_frame` leaves in the buffer that it is given. -/
structure Frame where
  canvas : Handle
  index : Int
  rate : Int
deriving DecidableEq, Repr

/-- Calls into libanimate and the other effects of a command outside the
server's memory, with what they return. The colours are those that were parsed,
before the cast to `color_t`. A `write` of a frame goes to the file that was opened
as `path`, with the frame that is in the buffer; `whole` says that it returned `size`. -/
inductive Effect where
  | createCanvas (h w : Nat) (color : Int) (ret : Option Handle)
  | destroyCanvas (ptr : Option Handle)
  | createSprite (file : CStr) (ret : Option Handle)
  | createRectangle (w h : Nat) (color : Int) (filled : Bool) (ret : Option Handle)
  | createCircle (radius : Nat) (color : Int) (filled : Bool) (ret : Option Handle)
  | destroySprite (ptr : Option Handle)
  | placeSprite (canvas sprite : Handle) (x y : Int) (ret : Option Handle)
  | placementUp (ptr : Handle)
  | placementDown (ptr : Handle)
  | placementTop (ptr : Handle)
  | placementBottom (ptr : Handle)
  | destroyPlacement (ptr : Option Handle)
  | setAnimationParams (ptr : Handle) (vx vy ax ay : Int)
  | openFile (path : CStr)
  | generateFrame (canvas : Handle) (i : Int) (rate : Int)
  | writeFrame (path : CStr) (buf : Frame) (size : Nat) (whole : Bool)
  | system (cmd : CStr)
deriving DecidableEq, Repr

namespace World

/-! ## Insertion -/

/-- `canvas_insert`. -/
def canvasInsert (realloc : Int → Option Nat) (ptr : Handle) (owner : ClientRef)
    (width height : Int) (w : World) : Option Nat × World :=
  let (id, t) := w.canvases.insert realloc sizeofCanvasEntry fun id =>
    { ptr := some ptr, canvasId := id, width, height, owner := some owner, shared := [] }
  (id, { w with canvases := t })

/-- `sprite_insert`. -/
def spriteInsert (realloc : Int → Option Nat) (ptr : Handle) (owner : ClientRef) (w : World) :
    Option Nat × World :=
  let (id, t) := w.sprites.insert realloc sizeofSpriteEntry fun id =>
    { ptr := some ptr, spriteId := id, owner := some owner }
  (id, { w with sprites := t })

/-- `placement_insert`. -/
def placementInsert (realloc : Int → Option Nat) (ptr : Handle) (owner : ClientRef)
    (canvas : CanvasPtr) (w : World) : Option Nat × World :=
  let (id, t) := w.placements.insert realloc sizeofPlacementEntry fun id =>
    { ptr := some ptr, placementId := id, owner := some owner, canvas }
  (id, { w with placements := t })

/-! ## Removal -/

/-- `canvas_remove`. -/
def canvasRemove (id : Int) (w : World) : World × List Effect :=
  match w.canvases.lookup id with
  | none => (w, [])
  | some i =>
    ({ w with canvases := w.canvases.clearPtr i },
      [.destroyCanvas ((w.canvases.entryAt i).bind CanvasEntry.ptr)])

/-- `sprite_remove`; its return value is that of `animate_destroy_sprite`. -/
def spriteRemove (id : Int) (w : World) : World × List Effect :=
  match w.sprites.lookup id with
  | none => (w, [])
  | some i =>
    ({ w with sprites := w.sprites.clearPtr i },
      [.destroySprite ((w.sprites.entryAt i).bind SpriteEntry.ptr)])

/-- `placement_remove`. -/
def placementRemove (id : Int) (w : World) : World × List Effect :=
  match w.placements.lookup id with
  | none => (w, [])
  | some i =>
    ({ w with placements := w.placements.clearPtr i },
      [.destroyPlacement ((w.placements.entryAt i).bind PlacementEntry.ptr)])

end World

/-! ## Cleanup of a departing client -/

/-- One turn of a loop of `client_markdead`: entry `i` is removed by id if it is
live and owned by `client`, and its owner is reset. There is no entry to look at
when a failed growth has lost the array; the C code dereferences null then. -/
def cleanupTurn {ε : Type} [Entry ε] (client : ClientRef) (get : World → Table ε)
    (put : World → Table ε → World) (remove : Int → World → World × List Effect)
    (we : World × List Effect) (i : Nat) : World × List Effect :=
  match (get we.1).entryAt i with
  | none => we
  | some e =>
    if Entry.ptr e ≠ none ∧ Entry.owner e = some client then
      let (w, es) := remove i we.1
      let w := match (get w).entryAt i with
        | some e => put w ((get w).setEntry i (Entry.setOwner e none))
        | none => w
      (w, we.2 ++ es)
    else we

/-- One `for (i = 0; i < count; i++)` loop of `client_markdead`. -/
def cleanupLoop {ε : Type} [Entry ε] (client : ClientRef) (get : World → Table ε)
    (put : World → Table ε → World) (remove : Int → World → World × List Effect)
    (we : World × List Effect) : World × List Effect :=
  (List.range (get we.1).count).foldl (cleanupTurn client get put remove) we

/-- The part of `client_markdead` after the locked section. -/
def destroyOwned (client : ClientRef) (w : World) : World × List Effect :=
  let we := cleanupLoop client World.canvases (fun w t => { w with canvases := t })
    World.canvasRemove (w, [])
  let we := cleanupLoop client World.sprites (fun w t => { w with sprites := t })
    World.spriteRemove we
  cleanupLoop client World.placements (fun w t => { w with placements := t })
    World.placementRemove we

end AnimateServer
