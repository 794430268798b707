import AnimateServer.Verify.CommandCases

/-!
# The arithmetic of `grow_array`

The capacity of a table doubles from 64 on and nothing bounds it. The number of bytes is a
product of two `int`s, so what the code can handle depends on the size of an entry: a canvas
table stops at `2 ^ 21` entries, where the next growth would need more than `INT_MAX` bytes.
-/

namespace AnimateServer.Growth

open CLib Transition FailedRpc CommandCases

variable {ε : Type}

/-- What `grow_array` is to make of the capacity. -/
def doubled (capacity : Int) : Int := if capacity = 0 then INITIAL_CAPACITY else capacity * 2

/-- `capacity * 2` and `newcap * elem_size` are in the range of `int`. -/
def Fits (elemSize capacity : Int) : Prop :=
  (INT_MIN ≤ doubled capacity ∧ doubled capacity ≤ INT_MAX) ∧
    INT_MIN ≤ doubled capacity * elemSize ∧ doubled capacity * elemSize ≤ INT_MAX

instance (elemSize capacity : Int) : Decidable (Fits elemSize capacity) := by
  unfold Fits
  infer_instance

/-- The growth of `t` computes without overflow, asks for the bytes of the doubled capacity,
and has room for that many entries when it succeeds. -/
def GrowsExactly (elemSize : Int) (t : Table ε) : Prop :=
  Fits elemSize t.capacity ∧
    asSizeT (toInt (t.newcap * elemSize)) = doubled t.capacity * elemSize ∧
    ∀ realloc : Int → Option Nat, realloc (toInt (t.newcap * elemSize)) ≠ none →
      (t.grow realloc elemSize).capacity = doubled t.capacity ∧
        (t.grow realloc elemSize).capacity * elemSize ≤ asSizeT (toInt (t.newcap * elemSize))

/-- Growths that succeed, from `tables_init` on. -/
def growth (elemSize : Int) : LTS (Table ε) (Int → Option Nat) :=
  ofStep .empty fun realloc t =>
    if (realloc (toInt (t.newcap * elemSize))).isSome then some (t.grow realloc elemSize) else none

/-! ### Capacities -/

/-- The capacities that doubling leads to; the doubling of `2 ^ 30` wraps around. -/
def capacities : List Int :=
  0 :: INT_MIN :: (List.range 25).map fun k => INITIAL_CAPACITY * 2 ^ k

theorem newcap_mem {t : Table ε} (h : t.capacity ∈ capacities) : t.newcap ∈ capacities := by
  have hall : ∀ c ∈ capacities,
      (if c = 0 then INITIAL_CAPACITY else toInt (c * 2)) ∈ capacities := by decide
  exact hall t.capacity h

theorem capacity_growth {elemSize : Int} {t : Table ε} (h : (growth elemSize).Reachable t) :
    t.capacity ∈ capacities := by
  refine h.invariant (fun t ht => ?_) (fun realloc t t' hn ih => ?_)
  · rw [show t = Table.empty from ht]
    exact List.mem_cons_self
  · have hstep : (if (realloc (toInt (t.newcap * elemSize))).isSome then
        some (t.grow realloc elemSize) else none) = some t' := hn
    split at hstep
    · cases hstep
      unfold Table.grow
      split
      · exact ih
      · exact newcap_mem ih
    · cases hstep

/-- No table of a running server has another capacity. -/
structure Capacities (w : World) : Prop where
  canvases : w.canvases.capacity ∈ capacities
  sprites : w.sprites.capacity ∈ capacities
  placements : w.placements.capacity ∈ capacities

theorem capacity_insert {realloc : Int → Option Nat} {elemSize : Int} {mk : Nat → ε}
    {t t' : Table ε} {id : Option Nat} (hins : t.insert realloc elemSize mk = (id, t'))
    (h : t.capacity ∈ capacities) : t'.capacity ∈ capacities := by
  cases id with
  | none =>
    rcases insert_failed hins with ⟨rfl, -⟩
    exact h
  | some id =>
    rw [(insert_fields hins).2.1]
    split
    · exact newcap_mem h
    · exact h

theorem capacities_did {type : TaskType} {env : Env} {client : ClientRef} {request : CStr}
    {w w' : World} {es : List Effect} (hdid : Did type env client request w w' es)
    (h : Capacities w) : Capacities w' := by
  cases hdid with
  | canvas _ _ hins => exact ⟨capacity_insert hins h.canvases, h.sprites, h.placements⟩
  | canvasLost _ _ hins => exact ⟨capacity_insert hins h.canvases, h.sprites, h.placements⟩
  | sprite _ hins => exact ⟨h.canvases, capacity_insert hins h.sprites, h.placements⟩
  | spriteLost _ hins => exact ⟨h.canvases, capacity_insert hins h.sprites, h.placements⟩
  | placement _ _ _ hins => exact ⟨h.canvases, h.sprites, capacity_insert hins h.placements⟩
  | placementLost _ _ _ hins => exact ⟨h.canvases, h.sprites, capacity_insert hins h.placements⟩
  | _ => exact ⟨h.canvases, h.sprites, h.placements⟩

theorem reachable_capacities {w : World} (h : tables.Reachable w) : Capacities w := by
  refine h.invariant (fun w hw => ?_) (fun l w w' hs ih => ?_)
  · rw [show w = World.init from hw]
    exact ⟨List.mem_cons_self, List.mem_cons_self, List.mem_cons_self⟩
  · cases l with
    | cleanup client =>
      -- the cells are cleared, the tables keep their size
      obtain rfl := Option.some.inj hs
      exact destroyOwned_induct client (fun w _ => Capacities w)
        (fun w _ i e ptr hw _ _ _ _ => ⟨hw.canvases, hw.sprites, hw.placements⟩)
        (fun w _ i e ptr hw _ _ _ _ => ⟨hw.canvases, hw.sprites, hw.placements⟩)
        (fun w _ i e ptr hw _ _ _ _ => ⟨hw.canvases, hw.sprites, hw.placements⟩) ih
    | rpc type env client request r =>
      have hstep : tableStep (.rpc type env client request r) w = some w' := hs
      obtain ⟨-, rfl⟩ : _ ∧ (runRpc type env client request r w).world = w' := by
        simpa [tableStep] using hstep
      exact capacities_did (did_runRpc type env client request r w) ih

/-! ### Where the product overflows -/

/-- Without overflow the growth does what it is meant to. -/
theorem growsExactly_iff {elemSize : Int} (hsize : 0 < elemSize) (t : Table ε) :
    GrowsExactly elemSize t ↔ Fits elemSize t.capacity ∧ 0 ≤ t.capacity := by
  constructor
  · rintro ⟨hfits, hbytes, -⟩
    refine ⟨hfits, ?_⟩
    -- a size is not negative
    by_contra hneg
    have hpos : 0 ≤ asSizeT (toInt (t.newcap * elemSize)) := Int.emod_nonneg _ (by decide)
    rw [hbytes] at hpos
    have hdoubled : doubled t.capacity < 0 := by
      unfold doubled
      split <;> omega
    exact absurd hpos (Int.not_le.mpr (Int.mul_neg_of_neg_of_pos hdoubled hsize))
  · rintro ⟨hfits, hpos⟩
    rcases hfits with ⟨⟨hlo, hhi⟩, hlo', hhi'⟩
    have hnew : t.newcap = doubled t.capacity := by
      unfold Table.newcap doubled at *
      split
      · rfl
      · rename_i hne
        rw [if_neg hne] at hlo hhi
        exact toInt_of_range hlo hhi
    have hdoubled : 0 ≤ doubled t.capacity := by
      unfold doubled
      split
      · decide
      · omega
    have hbytes : asSizeT (toInt (t.newcap * elemSize)) = doubled t.capacity * elemSize := by
      rw [hnew, toInt_of_range hlo' hhi']
      have hmul := Int.mul_nonneg hdoubled (Int.le_of_lt hsize)
      unfold INT_MAX at hhi'
      exact Int.emod_eq_of_lt hmul (by omega)
    refine ⟨⟨⟨hlo, hhi⟩, hlo', hhi'⟩, hbytes, ?_⟩
    intro realloc hr
    rcases Option.ne_none_iff_exists'.mp hr with ⟨block, hblock⟩
    have hgrown : (t.grow realloc elemSize).capacity = doubled t.capacity := by
      unfold Table.grow
      rw [hblock]
      exact hnew
    rw [hgrown, hbytes]
    exact ⟨rfl, Int.le_refl _⟩

/-- The bounds of the three tables, over all capacities there are. -/
theorem fits_iff : ∀ c ∈ capacities,
    (Fits sizeofCanvasEntry c ∧ 0 ≤ c ↔ 0 ≤ c ∧ c < 2097152) ∧
    (Fits sizeofSpriteEntry c ∧ 0 ≤ c ↔ 0 ≤ c ∧ c < 67108864) ∧
    (Fits sizeofPlacementEntry c ∧ 0 ≤ c ↔ 0 ≤ c ∧ c < 33554432) := by
  decide

/-- Growth is exact for fewer than `2 ^ 21` canvases, `2 ^ 26` sprites and `2 ^ 25` placements,
and for no other capacity: after any growths, and in any state of a running server. -/
theorem growsExactly_below {canvases : Table CanvasEntry} {sprites : Table SpriteEntry}
    {placements : Table PlacementEntry} {w : World}
    (hcanvases : (growth sizeofCanvasEntry).Reachable canvases)
    (hsprites : (growth sizeofSpriteEntry).Reachable sprites)
    (hplacements : (growth sizeofPlacementEntry).Reachable placements)
    (hw : tables.Reachable w) :
    (GrowsExactly sizeofCanvasEntry canvases ↔
      0 ≤ canvases.capacity ∧ canvases.capacity < 2097152) ∧
    (GrowsExactly sizeofSpriteEntry sprites ↔
      0 ≤ sprites.capacity ∧ sprites.capacity < 67108864) ∧
    (GrowsExactly sizeofPlacementEntry placements ↔
      0 ≤ placements.capacity ∧ placements.capacity < 33554432) ∧
    (GrowsExactly sizeofCanvasEntry w.canvases ↔
      0 ≤ w.canvases.capacity ∧ w.canvases.capacity < 2097152) ∧
    (GrowsExactly sizeofSpriteEntry w.sprites ↔
      0 ≤ w.sprites.capacity ∧ w.sprites.capacity < 67108864) ∧
    (GrowsExactly sizeofPlacementEntry w.placements ↔
      0 ≤ w.placements.capacity ∧ w.placements.capacity < 33554432) := by
  -- among the capacities that can occur, a bound on the bytes is one on the capacity
  have hcanvas : ∀ t : Table CanvasEntry, t.capacity ∈ capacities →
      (GrowsExactly sizeofCanvasEntry t ↔ 0 ≤ t.capacity ∧ t.capacity < 2097152) := fun t h =>
    (growsExactly_iff (by decide) t).trans (fits_iff _ h).1
  have hsprite : ∀ t : Table SpriteEntry, t.capacity ∈ capacities →
      (GrowsExactly sizeofSpriteEntry t ↔ 0 ≤ t.capacity ∧ t.capacity < 67108864) := fun t h =>
    (growsExactly_iff (by decide) t).trans (fits_iff _ h).2.1
  have hplacement : ∀ t : Table PlacementEntry, t.capacity ∈ capacities →
      (GrowsExactly sizeofPlacementEntry t ↔ 0 ≤ t.capacity ∧ t.capacity < 33554432) :=
    fun t h => (growsExactly_iff (by decide) t).trans (fits_iff _ h).2.2
  have hcaps := reachable_capacities hw
  exact ⟨hcanvas _ (capacity_growth hcanvases), hsprite _ (capacity_growth hsprites),
    hplacement _ (capacity_growth hplacements), hcanvas _ hcaps.canvases,
    hsprite _ hcaps.sprites, hplacement _ hcaps.placements⟩

/-- A table that has grown twice. -/
def grownTwice (elemSize : Int) : Table ε :=
  (Table.empty.grow (fun _ => some 1) elemSize).grow (fun _ => some 1) elemSize

theorem reachable_grownTwice (elemSize : Int) :
    (growth elemSize).Reachable (grownTwice elemSize : Table ε) :=
  .step (.step (.init rfl) (l := fun _ => some 1) rfl) (l := fun _ => some 1) rfl

/-- The tables after a first `create_canvas`. -/
def firstCanvas : World := (createCanvas (.allSucceed 7) 0 "10 10 0".toList .init).world

theorem reachable_firstCanvas : tables.Reachable firstCanvas :=
  .step (.init rfl) (l := .rpc .CREATE_CANVAS (.allSucceed 7) 0 "10 10 0".toList .init) rfl

/-- The third growth of each table, from 128 entries, and the second one of a canvas table that
a command has made grow. -/
theorem growsExactly_below_grownTwice :
    (grownTwice sizeofCanvasEntry : Table CanvasEntry).capacity = 128 ∧
      GrowsExactly sizeofCanvasEntry (grownTwice sizeofCanvasEntry : Table CanvasEntry) ∧
      GrowsExactly sizeofSpriteEntry (grownTwice sizeofSpriteEntry : Table SpriteEntry) ∧
      GrowsExactly sizeofPlacementEntry
        (grownTwice sizeofPlacementEntry : Table PlacementEntry) ∧
      firstCanvas.canvases.capacity = 64 ∧
      GrowsExactly sizeofCanvasEntry firstCanvas.canvases := by
  obtain ⟨hcanvas, hsprite, hplacement, hfirst, -⟩ :=
    growsExactly_below (reachable_grownTwice sizeofCanvasEntry)
      (reachable_grownTwice sizeofSpriteEntry) (reachable_grownTwice sizeofPlacementEntry)
      reachable_firstCanvas
  exact ⟨by decide, hcanvas.mpr (by decide), hsprite.mpr (by decide),
    hplacement.mpr (by decide), by decide, hfirst.mpr (by decide)⟩

/-- After sixteen growths of the canvas table the seventeenth asks for a negative number of
bytes, which is an enormous `size_t`. -/
theorem canvas_growth_overflows :
    ∃ t : Table CanvasEntry, (growth sizeofCanvasEntry).Reachable t ∧ t.capacity = 2097152 ∧
      toInt (t.newcap * sizeofCanvasEntry) = -1711276032 ∧ ¬GrowsExactly sizeofCanvasEntry t := by
  obtain ⟨t, hreach, ht⟩ := exists_reachable_of_run (Table.empty : Table CanvasEntry)
    (fun realloc t => if (realloc (toInt (t.newcap * sizeofCanvasEntry))).isSome then
      some (t.grow realloc sizeofCanvasEntry) else none)
    (List.replicate 16 fun _ => some 1) (fun t => decide (t.capacity = 2097152)) (by decide)
  have hcap : t.capacity = 2097152 := of_decide_eq_true ht
  refine ⟨t, hreach, hcap, ?_, ?_⟩
  · rw [Table.newcap, hcap]
    decide
  · rintro ⟨hfits, -⟩
    rw [hcap] at hfits
    exact absurd hfits (by decide)

end AnimateServer.Growth
