import AnimateServer.Verify.CommandCases

/-!
# The object tables are append-only maps

The three tables of `object_table.c` have insert, lookup and remove functions of their own,
written alike. `View` is what the tables have in common. As long as every growth gets its
memory, an insertion appends a row, a removal clears the pointer of a row, and nothing else
happens to the rows: a table is the list of the objects inserted into it, and their ids are
the positions in this list.
-/

namespace AnimateServer.TableMaps

open CLib Transition TableOwners CommandCases

/-! ## Operations -/

/-- The arguments of the three insert functions. -/
inductive NewObject where
  | canvas (ptr : Handle) (owner : ClientRef) (width height : Int)
  | sprite (ptr : Handle) (owner : ClientRef)
  | placement (ptr : Handle) (owner : ClientRef) (canvas : CanvasPtr)

def NewObject.kind : NewObject → ObjKind
  | .canvas .. => .canvas
  | .sprite .. => .sprite
  | .placement .. => .placement

/-- A call of one of the functions, an insertion with the answers of `realloc`. -/
inductive TableOp where
  | insert (realloc : Int → Option Nat) (new : NewObject)
  | lookup (k : ObjKind) (id : Int)
  | remove (k : ObjKind) (id : Int)

/-- The call: the id that an insertion returns or the index that a lookup finds, and the
tables afterwards. -/
def exec : TableOp → World → Option Nat × World
  | .insert realloc (.canvas ptr owner wd h), w => w.canvasInsert realloc ptr owner wd h
  | .insert realloc (.sprite ptr owner), w => w.spriteInsert realloc ptr owner
  | .insert realloc (.placement ptr owner canvas), w => w.placementInsert realloc ptr owner canvas
  | .lookup .canvas id, w => (w.canvases.lookup id, w)
  | .lookup .sprite id, w => (w.sprites.lookup id, w)
  | .lookup .placement id, w => (w.placements.lookup id, w)
  | .remove .canvas id, w => (none, (w.canvasRemove id).1)
  | .remove .sprite id, w => (none, (w.spriteRemove id).1)
  | .remove .placement id, w => (none, (w.placementRemove id).1)

/-- If the table has to grow, the size it asks for is an `int`, and `realloc` gives it that. -/
def Grows {ε : Type} (realloc : Int → Option Nat) (elemSize : Int) (t : Table ε) : Prop :=
  let bytes := (if t.capacity = 0 then INITIAL_CAPACITY else t.capacity * 2) * elemSize
  (t.count : Int) = t.capacity → bytes ≤ INT_MAX ∧ realloc bytes ≠ none

instance {ε : Type} (realloc : Int → Option Nat) (elemSize : Int) (t : Table ε) :
    Decidable (Grows realloc elemSize t) := by
  unfold Grows
  infer_instance

def GrowthSucceeds : TableOp → World → Prop
  | .insert realloc (.canvas ..), w => Grows realloc sizeofCanvasEntry w.canvases
  | .insert realloc (.sprite ..), w => Grows realloc sizeofSpriteEntry w.sprites
  | .insert realloc (.placement ..), w => Grows realloc sizeofPlacementEntry w.placements
  | .lookup .., _ => True
  | .remove .., _ => True

instance (op : TableOp) (w : World) : Decidable (GrowthSucceeds op w) := by
  cases op with
  | insert realloc new => cases new <;> exact inferInstanceAs (Decidable (Grows _ _ _))
  | lookup k id => exact .isTrue trivial
  | remove k id => exact .isTrue trivial

/-! ## What the tables have in common -/

inductive ObjEntry where
  | canvas (e : CanvasEntry)
  | sprite (e : SpriteEntry)
  | placement (e : PlacementEntry)
deriving DecidableEq, Repr

namespace ObjEntry

/-- `canvas_id`, `sprite_id` and `placement_id`. -/
def id : ObjEntry → Int
  | .canvas e => e.canvasId
  | .sprite e => e.spriteId
  | .placement e => e.placementId

/-- The entry with `ptr` set to `NULL`. -/
def clear : ObjEntry → ObjEntry
  | .canvas e => .canvas { e with ptr := none }
  | .sprite e => .sprite { e with ptr := none }
  | .placement e => .placement { e with ptr := none }

/-- Clearing an entry leaves its id. -/
@[simp] theorem id_clear (e : ObjEntry) : e.clear.id = e.id := by cases e <;> rfl

end ObjEntry

/-- The entry that an insert function fills in. -/
def NewObject.entry (new : NewObject) (id : Nat) : ObjEntry :=
  match new with
  | .canvas ptr owner wd h => .canvas (newCanvas ptr owner wd h id)
  | .sprite ptr owner => .sprite (newSprite ptr owner id)
  | .placement ptr owner cv => .placement (newPlacement ptr owner cv id)

@[simp] theorem NewObject.id_entry (new : NewObject) (id : Nat) : (new.entry id).id = id := by
  cases new <;> rfl

/-- A table without the type of its entries. -/
structure View where
  null : Bool
  count : Nat
  capacity : Int
  row : Nat → Option ObjEntry

def viewOf {ε : Type} (wrap : ε → ObjEntry) (t : Table ε) : View where
  null := t.arr.isNone
  count := t.count
  capacity := t.capacity
  row := fun i => (t.entryAt i).map wrap

def view (w : World) : ObjKind → View
  | .canvas => viewOf .canvas w.canvases
  | .sprite => viewOf .sprite w.sprites
  | .placement => viewOf .placement w.placements

namespace View

/-- The rows below `count` are filled and carry their index, and there is room for them. -/
structure Sound (v : View) : Prop where
  attached : v.null = true → (v.count : Int) = v.capacity
  count_le : (v.count : Int) ≤ v.capacity
  own_id : ∀ i < v.count, ∃ e, v.row i = some e ∧ e.id = i

/-- The row `e` was appended. -/
structure Appended (v v' : View) (e : ObjEntry) : Prop where
  null : v'.null = false
  count : v'.count = v.count + 1
  count_le : (v'.count : Int) ≤ v'.capacity
  row : ∀ i, v'.row i = if i = v.count then some e else v.row i

/-- The pointer of row `id`, if there is one, was set to `NULL`. -/
structure Cleared (v v' : View) (id : Int) : Prop where
  null : v'.null = v.null
  count : v'.count = v.count
  capacity : v'.capacity = v.capacity
  row : ∀ i, v'.row i = if id = i ∧ i < v.count then (v.row i).map ObjEntry.clear else v.row i

variable {v v' : View}

/-- A table with one entry more is sound, if the entry has the next id. -/
theorem Sound.appended (h : v.Sound) {e : ObjEntry} (ha : v.Appended v' e) (he : e.id = v.count) :
    v'.Sound := by
  refine ⟨fun hnull => absurd hnull (by simp [ha.null]), ha.count_le, fun i hi => ?_⟩
  rw [ha.row]
  by_cases heq : i = v.count
  · exact ⟨e, if_pos heq, heq ▸ he⟩
  · rw [if_neg heq]
    exact h.own_id i (by have := ha.count; omega)

/-- A table with a cleared entry is. -/
theorem Sound.cleared (h : v.Sound) {id : Int} (hc : v.Cleared v' id) : v'.Sound := by
  constructor
  · rw [hc.null, hc.count, hc.capacity]
    exact h.attached
  · rw [hc.count, hc.capacity]
    exact h.count_le
  · intro i hi
    rcases h.own_id i (hc.count ▸ hi) with ⟨e, hrow, hid⟩
    rw [hc.row, hrow]
    split
    · exact ⟨e.clear, rfl, by rw [ObjEntry.id_clear, hid]⟩
    · exact ⟨e, rfl, hid⟩

end View

/-! ## The functions on one table -/

section Table

variable {ε : Type} {wrap : ε → ObjEntry} {t : Table ε}

/-- The size of the growth comes out as `realloc` gets it. -/
theorem newcap_of_grows {realloc : Int → Option Nat} {elemSize : Int} (hsize : 0 < elemSize)
    (hcap : 0 ≤ t.capacity) (hfull : (t.count : Int) = t.capacity)
    (hgrows : Grows realloc elemSize t) :
    t.newcap = (if t.capacity = 0 then INITIAL_CAPACITY else t.capacity * 2) ∧
      realloc (toInt (t.newcap * elemSize)) ≠ none := by
  rcases hgrows hfull with ⟨hbytes, hmem⟩
  have hle : ∀ n : Int, 0 ≤ n → n ≤ n * elemSize := fun n hn => le_mul_of_one_le_right hn hsize
  -- the doubling stays an int, for even its byte size does
  have hnew : t.newcap = if t.capacity = 0 then INITIAL_CAPACITY else t.capacity * 2 := by
    unfold Table.newcap
    by_cases hzero : t.capacity = 0
    · simp only [if_pos hzero]
    · simp only [if_neg hzero] at hbytes ⊢
      have hfits := hle (t.capacity * 2) (by omega)
      exact toInt_of_range (by unfold INT_MIN; omega) (by omega)
  refine ⟨hnew, ?_⟩
  have hpos : (0 : Int) ≤ if t.capacity = 0 then INITIAL_CAPACITY else t.capacity * 2 := by
    split_ifs
    · decide
    · omega
  have hnonneg := hle _ hpos
  rw [hnew, toInt_of_range (by unfold INT_MIN; omega) hbytes]
  exact hmem

/-- An insertion for which there is memory. -/
theorem appended_insert (mk : Nat → ε) (new : NewObject) {realloc : Int → Option Nat}
    {elemSize : Int} (hsize : 0 < elemSize) (hmk : ∀ n, wrap (mk n) = new.entry n)
    (h : (viewOf wrap t).Sound) (hgrows : Grows realloc elemSize t) :
    ∃ t', t.insert realloc elemSize mk = (some t.count, t') ∧
      (viewOf wrap t).Appended (viewOf wrap t') (new.entry t.count) := by
  have hcount : (t.count : Int) ≤ t.capacity := h.count_le
  have hcap : 0 ≤ t.capacity := by omega
  cases hins : t.insert realloc elemSize mk with
  | mk id t' =>
    cases id with
    | none =>
      rcases FailedRpc.insert_none (congrArg Prod.fst hins) with ⟨hfull, hnone, -⟩
      exact absurd hnone (newcap_of_grows hsize hcap hfull hgrows).2
    | some id =>
      have hattached : Attached t := fun harr => h.attached (by simp [viewOf, harr])
      rcases insert_some hattached hins with ⟨rfl, hsucc, -, hcells⟩
      rcases insert_fields hins with ⟨-, hcap', -⟩
      have hlast := hcells t.count
      rw [if_pos rfl] at hlast
      refine ⟨t', rfl, ?_, hsucc, ?_, fun i => ?_⟩
      · show t'.arr.isNone = false
        cases harr : t'.arr with
        | none => simp [Table.entryAt, harr] at hlast
        | some a => rfl
      · show (t'.count : Int) ≤ t'.capacity
        rw [hsucc, hcap']
        push_cast
        split_ifs with hfull
        · -- the capacity has been doubled, or is the initial one
          rw [(newcap_of_grows hsize hcap hfull hgrows).1]
          split_ifs
          · unfold INITIAL_CAPACITY
            omega
          · omega
        · omega
      · show (t'.entryAt i).map wrap = _
        rw [hcells, ← hmk]
        by_cases hi : i = t.count
        · rw [if_pos hi]
          exact (if_pos hi).symm
        · rw [if_neg hi]
          exact (if_neg hi).symm

/-- A lookup below `count` finds the row of that index. -/
theorem lookup_eq (h : (viewOf wrap t).Sound) (id : Int) :
    t.lookup id = if 0 ≤ id ∧ id < t.count then some id.toNat else none := by
  unfold Table.lookup
  by_cases hin : 0 ≤ id ∧ id < t.count
  · have harr : ¬ (t.arr.isNone = true ∧ id = 0) := by
      rintro ⟨hnone, -⟩
      rcases h.own_id 0 (show 0 < t.count by omega) with ⟨e, hrow, -⟩
      rw [Option.isNone_iff_eq_none] at hnone
      simp [viewOf, Table.entryAt, hnone] at hrow
    rw [if_neg (by omega), if_neg harr, if_pos hin]
  · rw [if_pos (by omega), if_neg hin]

/-- The removal of what a lookup finds. -/
theorem cleared_removal [Entry ε] (hclear : ∀ e : ε, wrap (Entry.setPtr e none) = (wrap e).clear)
    (h : (viewOf wrap t).Sound) (id : Int) :
    (viewOf wrap t).Cleared (viewOf wrap (match t.lookup id with
      | none => t
      | some i => t.clearPtr i)) id := by
  rw [lookup_eq h]
  split_ifs with hin
  · rcases h.own_id id.toNat (show id.toNat < t.count by omega) with ⟨e, hrow, -⟩
    rcases Option.map_eq_some_iff.mp hrow with ⟨e, he, rfl⟩
    -- the row found is the one with this id: ids are indices
    have hset : t.clearPtr id.toNat = t.setEntry id.toNat (Entry.setPtr e none) := by
      simp only [Table.clearPtr, he]
    dsimp only
    rw [hset]
    refine ⟨?_, rfl, rfl, fun i => ?_⟩
    · simp [viewOf, Table.setEntry]
    · show ((t.setEntry id.toNat (Entry.setPtr e none)).entryAt i).map wrap = _
      by_cases hi : i = id.toNat
      · subst hi
        rw [entryAt_setEntry_self _ he, if_pos ⟨by omega, show id.toNat < t.count by omega⟩, hrow,
          Option.map_some, Option.map_some, hclear]
      · rw [entryAt_setEntry_ne _ _ hi, if_neg (by omega)]
        rfl
  · refine ⟨rfl, rfl, rfl, fun i => (if_neg ?_).symm⟩
    rintro ⟨rfl, hi⟩
    exact hin ⟨by omega, by exact_mod_cast hi⟩

end Table

/-! ## The functions on the three tables -/

section World

variable {w : World}

/-- An insertion appends a row to its table and returns the index of this row. -/
theorem exec_insert (hs : ∀ k, (view w k).Sound) {realloc : Int → Option Nat} {new : NewObject}
    (hg : GrowthSucceeds (.insert realloc new) w) :
    (exec (.insert realloc new) w).1 = some (view w new.kind).count ∧
      ∃ v, view (exec (.insert realloc new) w).2 = Function.update (view w) new.kind v ∧
        (view w new.kind).Appended v (new.entry (view w new.kind).count) := by
  -- the three tables have the same insertion
  cases new with
  | canvas ptr owner wd h =>
    obtain ⟨t', hins, happ⟩ := appended_insert (newCanvas ptr owner wd h) (.canvas ptr owner wd h)
      (by decide) (fun _ => rfl) (hs .canvas) hg
    show (w.canvasInsert realloc ptr owner wd h).1 = _ ∧
      ∃ v, view (w.canvasInsert realloc ptr owner wd h).2 = _ ∧ _
    cases hres : w.canvasInsert realloc ptr owner wd h with
    | mk id w' =>
      rcases canvasInsert_eq hres with ⟨t, ht, rfl⟩
      rcases Prod.mk.inj (hins.symm.trans ht) with ⟨rfl, rfl⟩
      exact ⟨rfl, _, funext fun k => by cases k <;> rfl, happ⟩
  | sprite ptr owner =>
    obtain ⟨t', hins, happ⟩ := appended_insert (newSprite ptr owner) (.sprite ptr owner)
      (by decide) (fun _ => rfl) (hs .sprite) hg
    show (w.spriteInsert realloc ptr owner).1 = _ ∧
      ∃ v, view (w.spriteInsert realloc ptr owner).2 = _ ∧ _
    cases hres : w.spriteInsert realloc ptr owner with
    | mk id w' =>
      rcases spriteInsert_eq hres with ⟨t, ht, rfl⟩
      rcases Prod.mk.inj (hins.symm.trans ht) with ⟨rfl, rfl⟩
      exact ⟨rfl, _, funext fun k => by cases k <;> rfl, happ⟩
  | placement ptr owner cv =>
    obtain ⟨t', hins, happ⟩ := appended_insert (newPlacement ptr owner cv) (.placement ptr owner cv)
      (by decide) (fun _ => rfl) (hs .placement) hg
    show (w.placementInsert realloc ptr owner cv).1 = _ ∧
      ∃ v, view (w.placementInsert realloc ptr owner cv).2 = _ ∧ _
    cases hres : w.placementInsert realloc ptr owner cv with
    | mk id w' =>
      rcases placementInsert_eq hres with ⟨t, ht, rfl⟩
      rcases Prod.mk.inj (hins.symm.trans ht) with ⟨rfl, rfl⟩
      exact ⟨rfl, _, funext fun k => by cases k <;> rfl, happ⟩

/-- A lookup finds the ids below the count. -/
theorem exec_lookup (hs : ∀ k, (view w k).Sound) (k : ObjKind) (id : Int) :
    exec (.lookup k id) w =
      (if 0 ≤ id ∧ id < (view w k).count then some id.toNat else none, w) := by
  cases k with
  | canvas => exact Prod.ext (lookup_eq (hs .canvas) id) rfl
  | sprite => exact Prod.ext (lookup_eq (hs .sprite) id) rfl
  | placement => exact Prod.ext (lookup_eq (hs .placement) id) rfl

/-- A removal clears the pointer of a row. -/
theorem exec_remove (hs : ∀ k, (view w k).Sound) (k : ObjKind) (id : Int) :
    ∃ v, view (exec (.remove k id) w).2 = Function.update (view w) k v ∧
      (view w k).Cleared v id := by
  -- the three tables have the same removal
  cases k with
  | canvas =>
    refine ⟨_, funext fun k => ?_, cleared_removal (fun _ => rfl) (hs .canvas) id⟩
    show view (w.canvasRemove id).1 k = _
    unfold World.canvasRemove
    cases w.canvases.lookup id <;> cases k <;> rfl
  | sprite =>
    refine ⟨_, funext fun k => ?_, cleared_removal (fun _ => rfl) (hs .sprite) id⟩
    show view (w.spriteRemove id).1 k = _
    unfold World.spriteRemove
    cases w.sprites.lookup id <;> cases k <;> rfl
  | placement =>
    refine ⟨_, funext fun k => ?_, cleared_removal (fun _ => rfl) (hs .placement) id⟩
    show view (w.placementRemove id).1 k = _
    unfold World.placementRemove
    cases w.placements.lookup id <;> cases k <;> rfl

/-- The empty tables are sound. -/
theorem sound_init (k : ObjKind) : (view .init k).Sound := by
  cases k <;> exact ⟨fun _ => rfl, Int.le_refl _, fun i hi => absurd hi (Nat.not_lt_zero i)⟩

/-- Every operation leaves the tables sound, if the arrays can grow. -/
theorem sound_exec (hs : ∀ k, (view w k).Sound) {op : TableOp} (hg : GrowthSucceeds op w)
    (k : ObjKind) : (view (exec op w).2 k).Sound := by
  -- an operation changes one of the three views
  have hupdate : ∀ k' v, v.Sound → (Function.update (view w) k' v k).Sound := by
    intro k' v hv
    by_cases hk : k = k'
    · rw [hk, Function.update_self]
      exact hv
    · rw [Function.update_of_ne hk]
      exact hs k
  cases op with
  | insert realloc new =>
    rcases exec_insert hs hg with ⟨-, v, heq, happ⟩
    rw [heq]
    exact hupdate _ v ((hs _).appended happ (new.id_entry _))
  | lookup k' id =>
    rw [exec_lookup hs]
    exact hs k
  | remove k' id =>
    rcases exec_remove hs k' id with ⟨v, heq, hclear⟩
    rw [heq]
    exact hupdate k' v ((hs k').cleared hclear)

end World

/-! ## Runs -/

/-- The tables over any sequence of calls, from `tables_init` on. -/
abbrev objects : LTS World TableOp := ofStep .init fun op w => some (exec op w).2

/-- The calls with their results. -/
def logResult (op : TableOp) (w _ : World) (log : List (TableOp × Option Nat)) :
    List (TableOp × Option Nat) :=
  log ++ [(op, (exec op w).1)]

/-- The call inserts into this table. -/
def TableOp.insertsInto (k : ObjKind) : TableOp → Bool
  | .insert _ new => new.kind == k
  | _ => false

/-- The call removes this object. -/
def TableOp.removes (k : ObjKind) (id : Int) : TableOp → Bool
  | .remove k' id' => k' == k && id' == id
  | _ => false

/-- What the insertions into a table have returned, in their order. -/
def insertedIds (k : ObjKind) (log : List (TableOp × Option Nat)) : List (Option Nat) :=
  (log.filter fun r => r.1.insertsInto k).map Prod.snd

/-- The tables after a run. -/
structure AppendOnly (w : World) (log : List (TableOp × Option Nat)) : Prop where
  ids : ∀ k, insertedIds k log = (List.range (view w k).count).map some
  count_le : ∀ k, ((view w k).count : Int) ≤ (view w k).capacity
  own_id : ∀ k i, i < (view w k).count → ∃ e, (view w k).row i = some e ∧ e.id = i
  lookup : ∀ k id, (exec (.lookup k id) w).1 =
    if 0 ≤ id ∧ id < (view w k).count then some id.toNat else none

/-- What one more call does. -/
structure Keeps (op : TableOp) (w w' : World) : Prop where
  count : ∀ k, (view w' k).count = (view w k).count + if op.insertsInto k then 1 else 0
  capacity : ∀ k, op.insertsInto k = false → (view w' k).capacity = (view w k).capacity
  row : ∀ k i, i < (view w k).count → (view w' k).row i =
    if op.removes k i then ((view w k).row i).map ObjEntry.clear else (view w k).row i
  filled : ∀ realloc new, op = .insert realloc new →
    (view w' new.kind).row (view w new.kind).count = some (new.entry (view w new.kind).count)

/-- A call on the table `k` alone. -/
theorem Keeps.of_update {op : TableOp} {w w' : World} {k : ObjKind} {v : View}
    (heq : view w' = Function.update (view w) k v)
    (hinto : ∀ j, j ≠ k → op.insertsInto j = false)
    (hremoves : ∀ j, j ≠ k → ∀ id, op.removes j id = false)
    (hcount : v.count = (view w k).count + if op.insertsInto k then 1 else 0)
    (hcapacity : op.insertsInto k = false → v.capacity = (view w k).capacity)
    (hrow : ∀ i < (view w k).count, v.row i =
      if op.removes k i then ((view w k).row i).map ObjEntry.clear else (view w k).row i)
    (hfilled : ∀ realloc new, op = .insert realloc new →
      new.kind = k ∧ v.row (view w k).count = some (new.entry (view w k).count)) :
    Keeps op w w' := by
  -- the views of the other tables are untouched
  have hother : ∀ j, j ≠ k → view w' j = view w j := by
    intro j hj
    rw [heq, Function.update_of_ne hj]
  have hown : view w' k = v := by
    rw [heq, Function.update_self]
  constructor
  · intro j
    by_cases hj : j = k
    · rw [hj, hown, hcount]
    · rw [hother j hj, hinto j hj]
      simp
  · intro j hno
    by_cases hj : j = k
    · rw [hj, hown, hcapacity (hj ▸ hno)]
    · rw [hother j hj]
  · intro j i hi
    by_cases hj : j = k
    · subst hj
      rw [hown, hrow i hi]
    · rw [hother j hj, hremoves j hj]
      simp
  · intro realloc new hop
    rcases hfilled realloc new hop with ⟨hk, hnew⟩
    rw [hk, hown, hnew]

/-- An operation keeps the entries of the other tables, and in its own all but the one it is about.
-/
theorem keeps_exec {w : World} (hs : ∀ k, (view w k).Sound) {op : TableOp}
    (hg : GrowthSucceeds op w) : Keeps op w (exec op w).2 := by
  -- a lookup, an insertion and a removal
  cases op with
  | insert realloc new =>
    rcases exec_insert hs hg with ⟨-, v, heq, happ⟩
    refine Keeps.of_update heq ?_ ?_ ?_ ?_ ?_ ?_
    · intro j hj
      simpa [TableOp.insertsInto] using Ne.symm hj
    · intro _ _ _
      rfl
    · simpa [TableOp.insertsInto] using happ.count
    · intro hno
      simp [TableOp.insertsInto] at hno
    · -- the rows in front of the new one
      intro i hi
      rw [happ.row, if_neg (by omega)]
      simp [TableOp.removes]
    · intro _ _ hop
      cases hop
      rw [happ.row, if_pos rfl]
      exact ⟨rfl, rfl⟩
  | lookup k id =>
    rw [exec_lookup hs]
    exact ⟨fun _ => rfl, fun _ _ => rfl, fun _ _ _ => rfl, fun _ _ hop => by cases hop⟩
  | remove k id =>
    rcases exec_remove hs k id with ⟨v, heq, hclear⟩
    refine Keeps.of_update heq ?_ ?_ ?_ ?_ ?_ ?_
    · intro _ _
      rfl
    · intro j hj id'
      simp [TableOp.removes, Ne.symm hj]
    · simpa [TableOp.insertsInto] using hclear.count
    · intro _
      exact hclear.capacity
    · -- a removal clears the row, and keeps it
      intro i hi
      rw [hclear.row]
      simp [TableOp.removes, hi]
    · intro _ _ hop
      cases hop

/-- The invariant of a run with its results. -/
theorem reachable_sound {p : World × List (TableOp × Option Nat)}
    (h : ((objects.under GrowthSucceeds).recording [] logResult).Reachable p) :
    (∀ k, (view p.1 k).Sound) ∧
      ∀ k, insertedIds k p.2 = (List.range (view p.1 k).count).map some := by
  refine h.invariant (fun p hp => ?_) (fun op p p' hn hi => ?_)
  · rcases p with ⟨w, log⟩
    rcases hp with ⟨rfl, rfl⟩
    exact ⟨sound_init, fun k => by cases k <;> rfl⟩
  · rcases p with ⟨w, log⟩
    rcases p' with ⟨w', log'⟩
    rcases hn with ⟨⟨hg, hstep⟩, hlog'⟩
    obtain rfl : (exec op w).2 = w' := Option.some.inj hstep
    obtain rfl : log' = log ++ [(op, (exec op w).1)] := hlog'
    rcases hi with ⟨hs, hids⟩
    refine ⟨sound_exec hs hg, fun k => ?_⟩
    have hcount := (keeps_exec hs hg).count k
    show insertedIds k _ = (List.range (view (exec op w).2 k).count).map some
    have hlog : insertedIds k (log ++ [(op, (exec op w).1)]) =
        insertedIds k log ++ if op.insertsInto k then [(exec op w).1] else [] := by
      rw [insertedIds, List.filter_append, List.map_append]
      cases hop : op.insertsInto k <;> simp [insertedIds, hop]
    rw [hlog, hids k, hcount]
    cases hop : op.insertsInto k with
    | false => simp
    | true =>
      -- the new id is the count before the insertion
      have hid : (exec op w).1 = some (view w k).count := by
        cases op with
        | insert realloc new =>
          obtain rfl : new.kind = k := by simpa [TableOp.insertsInto] using hop
          exact (exec_insert hs hg).1
        | lookup k' id => simp [TableOp.insertsInto] at hop
        | remove k' id => simp [TableOp.insertsInto] at hop
      rw [hid, if_pos rfl, if_pos rfl, List.range_succ, List.map_append]
      rfl

/-- As long as the growths succeed, the three tables are append-only maps from ids to objects:
ids are given out in order, none twice, and a call changes no object but the one it removes. -/
theorem tables_append_only {w : World} {log : List (TableOp × Option Nat)}
    (h : ((objects.under GrowthSucceeds).recording [] logResult).Reachable (w, log)) :
    AppendOnly w log ∧ ∀ op, GrowthSucceeds op w → Keeps op w (exec op w).2 := by
  rcases reachable_sound h with ⟨hs, hids⟩
  refine ⟨⟨hids, fun k => (hs k).count_le, fun k => (hs k).own_id, fun k id => ?_⟩,
    fun op hg => keeps_exec hs hg⟩
  rw [exec_lookup hs]

/-- Two canvases are created and the first one is destroyed. -/
def firstDestroyed : List TableOp :=
  [.insert (fun _ => some 1) (.canvas 7 0 10 10), .insert (fun _ => some 1) (.canvas 8 0 20 20),
    .remove .canvas 0, .lookup .canvas 0]

theorem tables_append_only_firstDestroyed :
    ∃ w log, insertedIds .canvas log = [some 0, some 1] ∧ (exec (.lookup .canvas 0) w).1 = some 0 ∧
      ((view w .canvas).row 0).map ObjEntry.clear = (view w .canvas).row 0 ∧ AppendOnly w log := by
  obtain ⟨⟨w, log⟩, hr, hp⟩ := exists_reachable_of_run (World.init, [])
    (recordStep logResult (guarded GrowthSucceeds fun op w => some (exec op w).2)) firstDestroyed
    (fun p => decide (insertedIds .canvas p.2 = [some 0, some 1] ∧
      (exec (.lookup .canvas 0) p.1).1 = some 0 ∧
      ((view p.1 .canvas).row 0).map ObjEntry.clear = (view p.1 .canvas).row 0)) (by decide)
  rw [← recording_ofStep, ← under_ofStep] at hr
  rcases of_decide_eq_true hp with ⟨hids, hlook, hrow⟩
  exact ⟨w, log, hids, hlook, hrow, (tables_append_only hr).1⟩

/-! ## The maps -/

/-- The objects ever inserted into each table, in their order. The id of an object is its
position. -/
abbrev Maps := ObjKind → List ObjEntry

namespace Maps

/-- A call on the maps. -/
def exec : TableOp → Maps → Option Nat × Maps
  | .insert _ new, m =>
    (some (m new.kind).length,
      Function.update m new.kind (m new.kind ++ [new.entry (m new.kind).length]))
  | .lookup k id, m => (if 0 ≤ id ∧ id < (m k).length then some id.toNat else none, m)
  | .remove k id, m =>
    (none, if 0 ≤ id then Function.update m k ((m k).modify id.toNat ObjEntry.clear) else m)

abbrev system : LTS Maps TableOp := ofStep (fun _ => []) fun op m => some (exec op m).2

end Maps

namespace View

variable {v v' : View} {e : ObjEntry}

/-- The rows of a table as a list. -/
def rows (v : View) : List ObjEntry := (List.range v.count).filterMap v.row

/-- The rows of a sound table are its entries. -/
theorem Sound.getElem?_rows (h : v.Sound) :
    v.rows.length = v.count ∧ ∀ i < v.count, v.rows[i]? = v.row i := by
  -- by induction on the number of rows read so far
  have hprefix : ∀ n ≤ v.count, ((List.range n).filterMap v.row).length = n ∧
      ∀ i < n, ((List.range n).filterMap v.row)[i]? = v.row i := by
    intro n
    induction n with
    | zero => exact fun _ => ⟨rfl, fun i hi => absurd hi (Nat.not_lt_zero i)⟩
    | succ n ih =>
      intro hn
      rcases ih (by omega) with ⟨hlen, hget⟩
      rcases h.own_id n hn with ⟨e, hrow, -⟩
      have hsucc : (List.range (n + 1)).filterMap v.row =
          (List.range n).filterMap v.row ++ [e] := by
        simp [List.range_succ, List.filterMap_append, hrow]
      rw [hsucc]
      refine ⟨by simp [hlen], fun i hi => ?_⟩
      rcases Nat.lt_succ_iff_lt_or_eq.mp hi with hlt | rfl
      · rw [List.getElem?_append_left (by omega), hget i hlt]
      · rw [List.getElem?_append_right (by omega), hlen, Nat.sub_self, hrow]
        rfl
  exact hprefix v.count (Nat.le_refl _)

/-- An insertion adds a row at the end. -/
theorem Sound.rows_appended (h : v.Sound) (ha : v.Appended v' e) (hv' : v'.Sound) :
    v'.rows = v.rows ++ [e] := by
  rcases h.getElem?_rows with ⟨hlen, hget⟩
  rcases hv'.getElem?_rows with ⟨hlen', hget'⟩
  have hcount := ha.count
  apply List.ext_getElem?
  intro i
  rcases Nat.lt_trichotomy i v.count with hlt | rfl | hgt
  · rw [hget' i (by omega), ha.row, if_neg (by omega), List.getElem?_append_left (by omega),
      hget i hlt]
  · rw [hget' _ (by omega), ha.row, if_pos rfl, List.getElem?_append_right (by omega), hlen,
      Nat.sub_self]
    rfl
  · rw [List.getElem?_eq_none (by omega), List.getElem?_eq_none (by simp; omega)]

/-- A removal clears the row of the id. -/
theorem Sound.rows_cleared (h : v.Sound) {id : Int} (hc : v.Cleared v' id) (hv' : v'.Sound) :
    v'.rows = if 0 ≤ id then v.rows.modify id.toNat ObjEntry.clear else v.rows := by
  rcases h.getElem?_rows with ⟨hlen, hget⟩
  rcases hv'.getElem?_rows with ⟨hlen', hget'⟩
  have hcount := hc.count
  -- index by index: the row of this id is cleared, the others are as before
  apply List.ext_getElem?
  intro i
  rcases Nat.lt_or_ge i v.count with hlt | hge
  · rw [hget' i (by omega), hc.row]
    split_ifs with hid hnonneg hnonneg
    · have hi : id.toNat = i := by omega
      rw [List.getElem?_modify, hget i hlt, hi]
      simp
    · omega
    · have hi : id.toNat ≠ i := by omega
      rw [List.getElem?_modify, hget i hlt]
      simp [hi]
    · exact (hget i hlt).symm
  · rw [List.getElem?_eq_none (by omega)]
    split_ifs
    · rw [List.getElem?_eq_none (by rw [List.length_modify]; omega)]
    · rw [List.getElem?_eq_none (by omega)]

end View

/-- The tables as maps. -/
def toMaps (w : World) : Maps := fun k => (view w k).rows

/-- Every operation is that of the maps, with the same result. -/
theorem exec_toMaps {w : World} (hs : ∀ k, (view w k).Sound) {op : TableOp}
    (hg : GrowthSucceeds op w) :
    (exec op w).1 = (Maps.exec op (toMaps w)).1 ∧
      toMaps (exec op w).2 = (Maps.exec op (toMaps w)).2 := by
  have hlen : ∀ k, (toMaps w k).length = (view w k).count := fun k => (hs k).getElem?_rows.1
  have hsound := sound_exec hs hg
  -- the map of the table that the call is about; the others are the same
  have hupdate : ∀ k v, view (exec op w).2 = Function.update (view w) k v →
      toMaps (exec op w).2 = Function.update (toMaps w) k v.rows := by
    intro k v heq
    funext j
    by_cases hj : j = k
    · subst hj
      rw [toMaps, heq, Function.update_self, Function.update_self]
    · rw [toMaps, heq, Function.update_of_ne hj, Function.update_of_ne hj]
      rfl
  -- one case for each kind of operation
  cases op with
  | insert realloc new =>
    rcases exec_insert hs hg with ⟨hid, v, heq, happ⟩
    have hv : v.Sound := by
      have hown := hsound new.kind
      rwa [heq, Function.update_self] at hown
    rw [hid, hupdate _ v heq, (hs _).rows_appended happ hv]
    simp only [Maps.exec, hlen]
    exact ⟨trivial, rfl⟩
  | lookup k id =>
    rw [exec_lookup hs]
    simp only [Maps.exec, hlen]
    exact ⟨trivial, trivial⟩
  | remove k id =>
    rcases exec_remove hs k id with ⟨v, heq, hclear⟩
    have hv : v.Sound := by
      have hown := hsound k
      rwa [heq, Function.update_self] at hown
    rw [hupdate _ v heq, (hs _).rows_cleared hclear hv]
    refine ⟨by cases k <;> rfl, ?_⟩
    simp only [Maps.exec]
    split_ifs
    · rfl
    · exact Function.update_eq_self k (toMaps w)

/-- A run of the tables is a run of the maps. -/
theorem refines_maps : Refines (objects.under GrowthSucceeds) Maps.system toMaps where
  init := fun w hw => by
    subst hw
    funext k
    cases k <;> rfl
  step := fun op w w' hr hn => by
    rcases hr.exists_recording [] logResult with ⟨log, hlog⟩
    rcases hn with ⟨hg, hstep⟩
    obtain rfl : (exec op w).2 = w' := Option.some.inj hstep
    exact Or.inl ⟨op, congrArg some (exec_toMaps (reachable_sound hlog).1 hg).2.symm⟩

end AnimateServer.TableMaps
