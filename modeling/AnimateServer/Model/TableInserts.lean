import AnimateServer.Model.ObjectTable

/-!
# Workers inserting into the tables

The insert functions of `object_table.c` take no lock, and any number of workers run
them at the same time. Each of their accesses to the shared table is a step of the
worker: the test of `count` against `capacity`, the growth, the reading of `count`
together with the address of the entry, the filling of the entry, and the increment. An
entry that does not lie in the array any more cannot be filled.
-/

namespace AnimateServer

open CLib

abbrev Worker := Nat

/-- Where a worker is in an insert function; `fields id` is the entry it writes. -/
inductive InsertPc (ε : Type) where
  | idle
  /-- The table was full. -/
  | growing (fields : Nat → ε)
  /-- The table had room, or has been grown. -/
  | reading (fields : Nat → ε)
  /-- Behind the reading of `count`, with the block that the entry lies in. -/
  | filling (fields : Nat → ε) (id : Nat) (block : Option Nat)
  | incrementing (fields : Nat → ε) (id : Nat)

/-- The worker is in no insert function. -/
def InsertPc.isIdle {ε : Type} : InsertPc ε → Bool
  | .idle => true
  | _ => false

/-- The worker has read `count` and has not incremented it yet. -/
def InsertPc.hasId {ε : Type} : InsertPc ε → Bool
  | .filling _ _ _ | .incrementing _ _ => true
  | _ => false

/-- A table, its inserting workers, and the inserts that have returned an id. -/
structure TableInserts (ε : Type) where
  table : Table ε
  pc : Worker → InsertPc ε
  returned : List (Nat × (Nat → ε))

inductive InsertLbl (ε : Type) where
  | test (worker : Worker) (fields : Nat → ε)
  | grow (worker : Worker) (realloc : Int → Option Nat)
  | read (worker : Worker)
  | fill (worker : Worker)
  | increment (worker : Worker)

def InsertLbl.worker {ε : Type} : InsertLbl ε → Worker
  | .test w _ | .grow w _ | .read w | .fill w | .increment w => w

namespace TableInserts

variable {ε : Type}

/-- `tables_init`, for one table. -/
def init : TableInserts ε where
  table := .empty
  pc := fun _ => .idle
  returned := []

/-- The worker moves on to `pc`. -/
def goto (w : Worker) (pc : InsertPc ε) (s : TableInserts ε) : TableInserts ε :=
  { s with pc := Function.update s.pc w pc }

@[simp] theorem table_goto (w : Worker) (pc : InsertPc ε) (s : TableInserts ε) :
    (s.goto w pc).table = s.table := rfl

@[simp] theorem pc_goto (w : Worker) (pc : InsertPc ε) (s : TableInserts ε) :
    (s.goto w pc).pc = Function.update s.pc w pc := rfl

@[simp] theorem returned_goto (w : Worker) (pc : InsertPc ε) (s : TableInserts ε) :
    (s.goto w pc).returned = s.returned := rfl

/-- The entry `id` of the block `block` lies in the array. -/
def InArray (t : Table ε) (id : Nat) (block : Option Nat) : Prop :=
  block ≠ none ∧ t.arr.map Arr.block = block ∧ (id : Int) < t.capacity

instance (t : Table ε) (id : Nat) (block : Option Nat) : Decidable (InArray t id block) := by
  unfold InArray
  infer_instance

/-- A step of one of `n` workers; `elemSize` is the size of an entry. -/
def step (n : Nat) (elemSize : Int) : InsertLbl ε → TableInserts ε → Option (TableInserts ε)
  | .test w fields, s =>
    match s.pc w with
    | .idle =>
      if w < n then
        some (s.goto w (if (s.table.count : Int) = s.table.capacity then .growing fields
          else .reading fields))
      else none
    | _ => none
  | .grow w realloc, s =>
    match s.pc w with
    | .growing fields =>
      let t := s.table.grow realloc elemSize
      -- without an array the function returns -1
      some ({ s with table := t }.goto w (if t.arr.isNone then .idle else .reading fields))
    | _ => none
  | .read w, s =>
    match s.pc w with
    -- `arr` and `count` are read without a lock
    | .reading fields => some (s.goto w (.filling fields s.table.count (s.table.arr.map Arr.block)))
    | _ => none
  | .fill w, s =>
    match s.pc w with
    | .filling fields id block =>
      -- through a pointer to a block that is gone, the write is undefined
      if InArray s.table id block then
        some ({ s with table := s.table.setEntry id (fields id) }.goto w (.incrementing fields id))
      else none
    | _ => none
  | .increment w, s =>
    match s.pc w with
    | .incrementing fields id =>
      some ({ s with
        table := { s.table with count := s.table.count + 1 }
        returned := s.returned ++ [(id, fields)] }.goto w .idle)
    | _ => none

end TableInserts

/-- The three tables. -/
structure PoolInserts where
  canvases : TableInserts CanvasEntry
  sprites : TableInserts SpriteEntry
  placements : TableInserts PlacementEntry

inductive PoolInsertLbl where
  | canvas (l : InsertLbl CanvasEntry)
  | sprite (l : InsertLbl SpriteEntry)
  | placement (l : InsertLbl PlacementEntry)

namespace PoolInserts

def init : PoolInserts where
  canvases := .init
  sprites := .init
  placements := .init

/-- A step of one of `n` workers in `canvas_insert`, `sprite_insert` or
`placement_insert`. It is in one of them at a time. -/
def step (n : Nat) : PoolInsertLbl → PoolInserts → Option PoolInserts
  | .canvas l, s =>
    if (s.sprites.pc l.worker).isIdle ∧ (s.placements.pc l.worker).isIdle then
      (s.canvases.step n sizeofCanvasEntry l).map fun t => { s with canvases := t }
    else none
  | .sprite l, s =>
    if (s.canvases.pc l.worker).isIdle ∧ (s.placements.pc l.worker).isIdle then
      (s.sprites.step n sizeofSpriteEntry l).map fun t => { s with sprites := t }
    else none
  | .placement l, s =>
    if (s.canvases.pc l.worker).isIdle ∧ (s.sprites.pc l.worker).isIdle then
      (s.placements.step n sizeofPlacementEntry l).map fun t => { s with placements := t }
    else none

end PoolInserts

end AnimateServer
