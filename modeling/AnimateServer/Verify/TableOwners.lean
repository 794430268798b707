import AnimateServer.Verify.FailedRpc
import AnimateServer.Verify.Registry

/-!
# Which clients the tables name

A live table entry names its owner, and a live canvas the clients it is shared
with. A command makes the tables name a client in two ways only: a create command
that gets through names its own client, and `SHARE` a client of the registry.
-/

namespace AnimateServer.TableOwners

open CLib Links Registry

/-! ## Live entries -/

/-- `e` is an entry of the table with a non-null `ptr`. -/
def Live {ε : Type} [Entry ε] (t : Table ε) (e : ε) : Prop :=
  ∃ i < t.count, t.entryAt i = some e ∧ Entry.ptr e ≠ none

/-- A live entry of the table has the owner `c`. -/
def Owns {ε : Type} [Entry ε] (t : Table ε) (c : ClientRef) : Prop :=
  ∃ e, Live t e ∧ Entry.owner e = some c

/-- A live canvas is shared with `c`. -/
def SharedWith (t : Table CanvasEntry) (c : ClientRef) : Prop :=
  ∃ e, Live t e ∧ c ∈ e.shared

/-- The tables name `c`. -/
def Names (w : World) (c : ClientRef) : Prop :=
  Owns w.canvases c ∨ Owns w.sprites c ∨ Owns w.placements c ∨ SharedWith w.canvases c

/-- The insertion into `t` does not need a `realloc` that fails. -/
def HasRoom {ε : Type} (realloc : Int → Option Nat) (elemSize : Int) (t : Table ε) : Prop :=
  ¬ ((t.count : Int) = t.capacity ∧ realloc (toInt (t.newcap * elemSize)) = none)

section Table

variable {ε : Type} {t : Table ε}

/-- Another entry than the one that was set is as before. -/
theorem entryAt_setEntry {i j : Nat} {e e' : ε} (h : (t.setEntry i e').entryAt j = some e) :
    (j = i ∧ e = e') ∨ (j ≠ i ∧ t.entryAt j = some e) := by
  unfold Table.setEntry Table.entryAt at h
  cases ha : t.arr with
  | none => simp [ha] at h
  | some a =>
    by_cases hj : j = i
    · subst hj
      exact Or.inl ⟨rfl, by simpa [ha] using h.symm⟩
    · exact Or.inr ⟨hj, by simpa [Table.entryAt, ha, hj] using h⟩

/-- A `realloc` invents no entry: it keeps the array or loses it. -/
theorem entryAt_grow {realloc : Int → Option Nat} {elemSize : Int} {j : Nat} {e : ε}
    (h : (t.grow realloc elemSize).entryAt j = some e) : t.entryAt j = some e := by
  unfold Table.grow Table.entryAt at h
  cases hr : realloc (toInt (t.newcap * elemSize)) with
  | none => simp [hr] at h
  | some block =>
    cases ha : t.arr with
    | none => simp [hr, ha] at h
    | some a => simpa [Table.entryAt, hr, ha] using h

/-- The count does not depend on whether the array could grow. -/
theorem count_grow (realloc : Int → Option Nat) (elemSize : Int) :
    (t.grow realloc elemSize).count = t.count := by
  unfold Table.grow
  split <;> rfl

theorem count_setEntry (t : Table ε) (i : Nat) (e : ε) : (t.setEntry i e).count = t.count := rfl

/-- An entry that is there is found by its index. -/
theorem lookup_entry {i : Nat} {e : ε} (hi : i < t.count)
    (he : t.entryAt i = some e) : t.lookup i = some i := by
  have harr : t.arr ≠ none := by
    intro hnone
    simp [Table.entryAt, hnone] at he
  unfold Table.lookup
  rw [if_neg (by omega), if_neg (by simp [harr])]
  simp

variable [Entry ε] {e : ε}

theorem count_clearPtr (t : Table ε) (i : Nat) : (t.clearPtr i).count = t.count := by
  unfold Table.clearPtr
  split <;> rfl

/-- The only new live entry is the one that was inserted. -/
theorem live_push {mk : Nat → ε} (h : Live (t.push mk).2 e) : Live t e ∨ e = mk t.count := by
  rcases h with ⟨i, hi, he, hptr⟩
  have hset : (t.setEntry t.count (mk t.count)).entryAt i = some e := he
  rcases entryAt_setEntry hset with ⟨-, rfl⟩ | ⟨hne, he⟩
  · exact Or.inr rfl
  · have hi' : i < t.count + 1 := hi
    exact Or.inl ⟨i, by omega, he, hptr⟩

/-- Growing makes no entry live. -/
theorem live_grow {realloc : Int → Option Nat} {elemSize : Int}
    (h : Live (t.grow realloc elemSize) e) : Live t e := by
  rcases h with ⟨i, hi, he, hptr⟩
  exact ⟨i, count_grow (t := t) realloc elemSize ▸ hi, entryAt_grow he, hptr⟩

/-- An insertion adds the new entry, or none. -/
theorem live_insert {realloc : Int → Option Nat} {elemSize : Int} {mk : Nat → ε}
    (h : Live (t.insert realloc elemSize mk).2 e) :
    Live t e ∨ (HasRoom realloc elemSize t ∧ e = mk t.count) := by
  unfold Table.insert at h
  by_cases hfull : (t.count : Int) = t.capacity
  · simp only [if_pos hfull] at h
    cases hr : realloc (toInt (t.newcap * elemSize)) with
    | none =>
      -- when the array cannot grow, the new entry is lost
      have hnone : (t.grow realloc elemSize).arr.isNone = true := by simp [Table.grow, hr]
      rw [if_pos hnone] at h
      exact Or.inl (live_grow h)
    | some block =>
      have hsome : ¬ (t.grow realloc elemSize).arr.isNone = true := by simp [Table.grow, hr]
      rw [if_neg hsome] at h
      rcases live_push h with h | rfl
      · exact Or.inl (live_grow h)
      · exact Or.inr ⟨fun hno => (by simp [hr] at hno), by rw [count_grow]⟩
  · rw [if_neg hfull] at h
    exact (live_push h).imp_right fun heq => ⟨fun hno => hfull hno.1, heq⟩

/-- Overwriting an entry makes no other one live. -/
theorem live_setEntry {i : Nat} {e' : ε} (h : Live (t.setEntry i e') e) : Live t e ∨ e = e' := by
  rcases h with ⟨j, hj, he, hptr⟩
  rcases entryAt_setEntry he with ⟨-, rfl⟩ | ⟨-, he⟩
  · exact Or.inr rfl
  · exact Or.inl ⟨j, hj, he, hptr⟩

end Table

/-! ## Removal -/

/-- Writing a field and reading it. -/
class LawfulEntry (ε : Type) [Entry ε] : Prop where
  ptr_setPtr : ∀ (e : ε) p, Entry.ptr (Entry.setPtr e p) = p
  ptr_setOwner : ∀ (e : ε) o, Entry.ptr (Entry.setOwner e o) = Entry.ptr e

instance : LawfulEntry CanvasEntry := ⟨fun _ _ => rfl, fun _ _ => rfl⟩
instance : LawfulEntry SpriteEntry := ⟨fun _ _ => rfl, fun _ _ => rfl⟩
instance : LawfulEntry PlacementEntry := ⟨fun _ _ => rfl, fun _ _ => rfl⟩

section Cleanup

variable {ε : Type} [Entry ε]

/-- Cell `i` holds the live entry `e`. -/
def LiveAt (t : Table ε) (i : Nat) (e : ε) : Prop := t.entryAt i = some e ∧ Entry.ptr e ≠ none

/-- An entry that is overwritten by a dead one is no longer live, the others are as they were. -/
theorem liveAt_setEntry_dead {t : Table ε} {i j : Nat} {e e' : ε} (hdead : Entry.ptr e' = none)
    (h : LiveAt (t.setEntry i e') j e) : LiveAt t j e ∧ j ≠ i := by
  rcases entryAt_setEntry h.1 with ⟨-, rfl⟩ | ⟨hne, he⟩
  · exact absurd hdead h.2
  · exact ⟨⟨he, h.2⟩, hne⟩

/-- A table as a part of the world, with its remove function. -/
structure Part (ε : Type) [Entry ε] where
  get : World → Table ε
  put : World → Table ε → World
  remove : Int → World → World × List Effect
  get_put : ∀ w t, get (put w t) = t
  get_remove : ∀ w i, (get w).lookup i = some i.toNat →
    get (remove i w).1 = (get w).clearPtr i.toNat

/-- A part of the world that neither `put` nor `remove` changes survives the loop. -/
theorem cleanupLoop_frame {α : Type} (get' : World → α) (client : ClientRef) (p : Part ε)
    (hput : ∀ w t, get' (p.put w t) = get' w) (hremove : ∀ w i, get' (p.remove i w).1 = get' w)
    (we : World × List Effect) :
    get' (cleanupLoop client p.get p.put p.remove we).1 = get' we.1 := by
  -- one turn writes to its own table and destroys through its own remove
  have hturn : ∀ we i, get' (cleanupTurn client p.get p.put p.remove we i).1 = get' we.1 := by
    intro we i
    unfold cleanupTurn
    split
    · rfl
    · split
      · have hkept := hremove we.1 i
        cases hr : p.remove i we.1 with
        | mk w es =>
          rw [hr] at hkept
          cases he : (p.get w).entryAt i with
          | none => simpa only [he] using hkept
          | some e => simpa only [he] using (hput _ _).trans hkept
      · rfl
  unfold cleanupLoop
  induction List.range (p.get we.1).count generalizing we with
  | nil => rfl
  | cons i is ih => rw [List.foldl_cons, ih, hturn]

variable [LawfulEntry ε]

/-- Clearing a pointer leaves the other live entries and no new one. -/
theorem liveAt_clearPtr {t : Table ε} {i j : Nat} {e : ε} (h : LiveAt (t.clearPtr i) j e) :
    LiveAt t j e ∧ j ≠ i := by
  unfold Table.clearPtr at h
  cases he : t.entryAt i with
  | none =>
    rw [he] at h
    have hlive : LiveAt t j e := h
    refine ⟨hlive, ?_⟩
    rintro rfl
    rw [LiveAt, he] at hlive
    cases hlive.1
  | some e' =>
    rw [he] at h
    exact liveAt_setEntry_dead (LawfulEntry.ptr_setPtr e' none) h

theorem live_clearPtr {t : Table ε} {i : Nat} {e : ε} (h : Live (t.clearPtr i) e) : Live t e := by
  rcases h with ⟨j, hj, hlive⟩
  have hold := (liveAt_clearPtr hlive).1
  exact ⟨j, count_clearPtr t i ▸ hj, hold.1, hold.2⟩

/-- What one turn does to its table: cell `i` is not a live entry of the client any more. -/
theorem cleanupTurn_spec (client : ClientRef) (p : Part ε) (we : World × List Effect) {i : Nat}
    (hi : i < (p.get we.1).count) :
    (p.get (cleanupTurn client p.get p.put p.remove we i).1).count = (p.get we.1).count ∧
      ∀ j e, LiveAt (p.get (cleanupTurn client p.get p.put p.remove we i).1) j e →
        LiveAt (p.get we.1) j e ∧ (j = i → Entry.owner e ≠ some client) := by
  cases he : (p.get we.1).entryAt i with
  | none =>
    have hturn : cleanupTurn client p.get p.put p.remove we i = we := by
      simp only [cleanupTurn, he]
    rw [hturn]
    refine ⟨rfl, fun j e h => ⟨h, ?_⟩⟩
    rintro rfl
    rw [LiveAt, he] at h
    cases h.1
  | some e₀ =>
    -- the turn removes the object and clears its owner, or does nothing
    by_cases hown : Entry.ptr e₀ ≠ none ∧ Entry.owner e₀ = some client
    · have hremove := p.get_remove we.1 i (by simpa using lookup_entry hi he)
      rw [Int.toNat_natCast] at hremove
      have hcleared : (p.get (p.remove i we.1).1).entryAt i = some (Entry.setPtr e₀ none) := by
        rw [hremove, Table.clearPtr, he]
        cases ha : (p.get we.1).arr with
        | none => simp [Table.entryAt, ha] at he
        | some a => simp [Table.entryAt, Table.setEntry, ha]
      have hturn : (cleanupTurn client p.get p.put p.remove we i).1 =
          p.put (p.remove i we.1).1 ((p.get (p.remove i we.1).1).setEntry i
            (Entry.setOwner (Entry.setPtr e₀ none) none)) := by
        simp only [cleanupTurn, he, if_pos hown, hcleared]
      rw [hturn, p.get_put, count_setEntry, hremove, count_clearPtr]
      refine ⟨rfl, fun j e h => ?_⟩
      have hdead : Entry.ptr (Entry.setOwner (Entry.setPtr e₀ none) none) = none := by
        rw [LawfulEntry.ptr_setOwner, LawfulEntry.ptr_setPtr]
      rcases liveAt_setEntry_dead hdead h with ⟨h, hne⟩
      exact ⟨(liveAt_clearPtr h).1, fun heq => absurd heq hne⟩
    · have hturn : cleanupTurn client p.get p.put p.remove we i = we := by
        simp only [cleanupTurn, he, if_neg hown]
      rw [hturn]
      refine ⟨rfl, fun j e h => ⟨h, ?_⟩⟩
      rintro rfl hclient
      obtain rfl : e₀ = e := Option.some.inj (he.symm.trans h.1)
      exact hown ⟨h.2, hclient⟩

/-- After the turns for the cells `is`, none of these is a live entry of the client. -/
theorem cleanup_foldl (client : ClientRef) (p : Part ε) :
    ∀ (is : List Nat) (we : World × List Effect), (∀ i ∈ is, i < (p.get we.1).count) →
      (p.get (is.foldl (cleanupTurn client p.get p.put p.remove) we).1).count =
          (p.get we.1).count ∧
        ∀ j e, LiveAt (p.get (is.foldl (cleanupTurn client p.get p.put p.remove) we).1) j e →
          LiveAt (p.get we.1) j e ∧ (j ∈ is → Entry.owner e ≠ some client)
  | [], we, _ => ⟨rfl, fun j e h => ⟨h, fun hj => by simp at hj⟩⟩
  | i :: is, we, his => by
    -- the induction is on the indices that are left
    rcases cleanupTurn_spec client p we (his i List.mem_cons_self) with ⟨hcount, hturn⟩
    obtain ⟨hcount', hrest⟩ := cleanup_foldl client p is
      (cleanupTurn client p.get p.put p.remove we i)
      (fun k hk => hcount ▸ his k (List.mem_cons_of_mem _ hk))
    refine ⟨hcount'.trans hcount, fun j e h => ?_⟩
    rcases hrest j e h with ⟨hafter, hnot⟩
    rcases hturn j e hafter with ⟨hbefore, hi⟩
    refine ⟨hbefore, fun hj => ?_⟩
    rcases List.mem_cons.mp hj with rfl | hj
    · exact hi rfl
    · exact hnot hj

/-- The loop leaves no live entry of the client in the table. -/
theorem live_cleanupLoop (client : ClientRef) (p : Part ε) (we : World × List Effect) {e : ε}
    (h : Live (p.get (cleanupLoop client p.get p.put p.remove we).1) e) :
    Live (p.get we.1) e ∧ Entry.owner e ≠ some client := by
  obtain ⟨hcount, hcells⟩ := cleanup_foldl client p (List.range (p.get we.1).count) we
    (fun i hi => List.mem_range.mp hi)
  rcases h with ⟨j, hj, hlive⟩
  rcases hcells j e hlive with ⟨hold, hnot⟩
  have hj' : j < (p.get we.1).count := hcount ▸ hj
  exact ⟨⟨j, hj', hold.1, hold.2⟩, hnot (List.mem_range.mpr hj')⟩

end Cleanup

def canvasPart : Part CanvasEntry where
  get := World.canvases
  put := fun w t => { w with canvases := t }
  remove := World.canvasRemove
  get_put := fun _ _ => rfl
  get_remove := fun w i h => by simp [World.canvasRemove, h]

def spritePart : Part SpriteEntry where
  get := World.sprites
  put := fun w t => { w with sprites := t }
  remove := World.spriteRemove
  get_put := fun _ _ => rfl
  get_remove := fun w i h => by simp [World.spriteRemove, h]

def placementPart : Part PlacementEntry where
  get := World.placements
  put := fun w t => { w with placements := t }
  remove := World.placementRemove
  get_put := fun _ _ => rfl
  get_remove := fun w i h => by simp [World.placementRemove, h]

/-- Each of the three removals touches its own table only. -/
theorem sprites_canvasRemove (w : World) (id : Int) :
    (w.canvasRemove id).1.sprites = w.sprites := by
  unfold World.canvasRemove
  split <;> rfl

theorem placements_canvasRemove (w : World) (id : Int) :
    (w.canvasRemove id).1.placements = w.placements := by
  unfold World.canvasRemove
  split <;> rfl

theorem canvases_spriteRemove (w : World) (id : Int) :
    (w.spriteRemove id).1.canvases = w.canvases := by
  unfold World.spriteRemove
  split <;> rfl

theorem placements_spriteRemove (w : World) (id : Int) :
    (w.spriteRemove id).1.placements = w.placements := by
  unfold World.spriteRemove
  split <;> rfl

theorem canvases_placementRemove (w : World) (id : Int) :
    (w.placementRemove id).1.canvases = w.canvases := by
  unfold World.placementRemove
  split <;> rfl

theorem sprites_placementRemove (w : World) (id : Int) :
    (w.placementRemove id).1.sprites = w.sprites := by
  unfold World.placementRemove
  split <;> rfl

/-- What `client_markdead` leaves: live entries from before with other owners. -/
structure Swept (client : ClientRef) (w w' : World) : Prop where
  canvases : ∀ e, Live w'.canvases e → Live w.canvases e ∧ e.owner ≠ some client
  sprites : ∀ e, Live w'.sprites e → Live w.sprites e ∧ e.owner ≠ some client
  placements : ∀ e, Live w'.placements e → Live w.placements e ∧ e.owner ≠ some client

/-- The three loops of `client_markdead` leave no live entry of the client in any table. -/
theorem swept_destroyOwned (client : ClientRef) (w : World) :
    Swept client w (destroyOwned client w).1 := by
  -- the worlds between the loops, and what each loop leaves alone
  let we₁ := cleanupLoop client canvasPart.get canvasPart.put canvasPart.remove (w, [])
  let we₂ := cleanupLoop client spritePart.get spritePart.put spritePart.remove we₁
  let we₃ := cleanupLoop client placementPart.get placementPart.put placementPart.remove we₂
  have heq : destroyOwned client w = we₃ := rfl
  have hc₂ : we₂.1.canvases = we₁.1.canvases :=
    cleanupLoop_frame World.canvases client spritePart (fun _ _ => rfl) canvases_spriteRemove we₁
  have hc₃ : we₃.1.canvases = we₂.1.canvases :=
    cleanupLoop_frame World.canvases client placementPart (fun _ _ => rfl)
      canvases_placementRemove we₂
  have hs₁ : we₁.1.sprites = w.sprites :=
    cleanupLoop_frame World.sprites client canvasPart (fun _ _ => rfl) sprites_canvasRemove (w, [])
  have hs₃ : we₃.1.sprites = we₂.1.sprites :=
    cleanupLoop_frame World.sprites client placementPart (fun _ _ => rfl)
      sprites_placementRemove we₂
  have hp₁ : we₁.1.placements = w.placements :=
    cleanupLoop_frame World.placements client canvasPart (fun _ _ => rfl)
      placements_canvasRemove (w, [])
  have hp₂ : we₂.1.placements = we₁.1.placements :=
    cleanupLoop_frame World.placements client spritePart (fun _ _ => rfl)
      placements_spriteRemove we₁
  rw [heq]
  refine ⟨fun e h => ?_, fun e h => ?_, fun e h => ?_⟩
  · rw [hc₃, hc₂] at h
    exact live_cleanupLoop client canvasPart (w, []) h
  · rw [hs₃] at h
    have hlive := live_cleanupLoop client spritePart we₁ h
    rwa [show spritePart.get we₁.1 = w.sprites from hs₁] at hlive
  · have hlive := live_cleanupLoop client placementPart we₂ h
    rwa [show placementPart.get we₂.1 = w.placements from hp₂.trans hp₁] at hlive

/-- Whatever the tables name after the cleanup they named before. -/
theorem Swept.names {client c : ClientRef} {w w' : World} (h : Swept client w w')
    (hc : Names w' c) : Names w c := by
  rcases hc with ⟨e, he, ho⟩ | ⟨e, he, ho⟩ | ⟨e, he, ho⟩ | ⟨e, he, hm⟩
  · exact Or.inl ⟨e, (h.canvases e he).1, ho⟩
  · exact Or.inr (Or.inl ⟨e, (h.sprites e he).1, ho⟩)
  · exact Or.inr (Or.inr (Or.inl ⟨e, (h.placements e he).1, ho⟩))
  · exact Or.inr (Or.inr (Or.inr ⟨e, (h.canvases e he).1, hm⟩))

/-- The client itself can only be left in the list of a canvas it does not own. -/
theorem Swept.names_self {client : ClientRef} {w w' : World} (h : Swept client w w')
    (hc : Names w' client) :
    ∃ e, Live w.canvases e ∧ e.owner ≠ some client ∧ client ∈ e.shared := by
  rcases hc with ⟨e, he, ho⟩ | ⟨e, he, ho⟩ | ⟨e, he, ho⟩ | ⟨e, he, hm⟩
  · exact absurd ho (h.canvases e he).2
  · exact absurd ho (h.sprites e he).2
  · exact absurd ho (h.placements e he).2
  · exact ⟨e, (h.canvases e he).1, (h.canvases e he).2, hm⟩

/-! ## Commands -/

section World

variable {w : World} {realloc : Int → Option Nat} {ptr : Handle} {owner c : ClientRef}

/-- An insertion names nobody new but the owner, and the owner only if there was room for the entry.
-/
theorem names_canvasInsert {wd h : Int}
    (hc : Names (w.canvasInsert realloc ptr owner wd h).2 c) :
    Names w c ∨ (HasRoom realloc sizeofCanvasEntry w.canvases ∧ c = owner) := by
  rcases hc with ⟨e, he, ho⟩ | hc | hc | ⟨e, he, hm⟩
  · rcases live_insert he with he | ⟨hroom, rfl⟩
    · exact Or.inl (Or.inl ⟨e, he, ho⟩)
    · exact Or.inr ⟨hroom, (Option.some.inj ho).symm⟩
  · exact Or.inl (Or.inr (Or.inl hc))
  · exact Or.inl (Or.inr (Or.inr (Or.inl hc)))
  · rcases live_insert he with he | ⟨-, rfl⟩
    · exact Or.inl (Or.inr (Or.inr (Or.inr ⟨e, he, hm⟩)))
    · cases hm

theorem names_spriteInsert (hc : Names (w.spriteInsert realloc ptr owner).2 c) :
    Names w c ∨ (HasRoom realloc sizeofSpriteEntry w.sprites ∧ c = owner) := by
  rcases hc with hc | ⟨e, he, ho⟩ | hc | hc
  · exact Or.inl (Or.inl hc)
  · rcases live_insert he with he | ⟨hroom, rfl⟩
    · exact Or.inl (Or.inr (Or.inl ⟨e, he, ho⟩))
    · exact Or.inr ⟨hroom, (Option.some.inj ho).symm⟩
  · exact Or.inl (Or.inr (Or.inr (Or.inl hc)))
  · exact Or.inl (Or.inr (Or.inr (Or.inr hc)))

theorem names_placementInsert {canvas : CanvasPtr}
    (hc : Names (w.placementInsert realloc ptr owner canvas).2 c) :
    Names w c ∨ (HasRoom realloc sizeofPlacementEntry w.placements ∧ c = owner) := by
  rcases hc with hc | hc | ⟨e, he, ho⟩ | hc
  · exact Or.inl (Or.inl hc)
  · exact Or.inl (Or.inr (Or.inl hc))
  · rcases live_insert he with he | ⟨hroom, rfl⟩
    · exact Or.inl (Or.inr (Or.inr (Or.inl ⟨e, he, ho⟩)))
    · exact Or.inr ⟨hroom, (Option.some.inj ho).symm⟩
  · exact Or.inl (Or.inr (Or.inr (Or.inr hc)))

/-- A removal names nobody new. -/
theorem names_canvasRemove {id : Int} (hc : Names (w.canvasRemove id).1 c) : Names w c := by
  unfold World.canvasRemove at hc
  split at hc
  · exact hc
  · rcases hc with ⟨e, he, ho⟩ | hc | hc | ⟨e, he, hm⟩
    · exact Or.inl ⟨e, live_clearPtr he, ho⟩
    · exact Or.inr (Or.inl hc)
    · exact Or.inr (Or.inr (Or.inl hc))
    · exact Or.inr (Or.inr (Or.inr ⟨e, live_clearPtr he, hm⟩))

theorem names_spriteRemove {id : Int} (hc : Names (w.spriteRemove id).1 c) : Names w c := by
  unfold World.spriteRemove at hc
  split at hc
  · exact hc
  · rcases hc with hc | ⟨e, he, ho⟩ | hc
    · exact Or.inl hc
    · exact Or.inr (Or.inl ⟨e, live_clearPtr he, ho⟩)
    · exact Or.inr (Or.inr hc)

theorem names_placementRemove {id : Int} (hc : Names (w.placementRemove id).1 c) : Names w c := by
  unfold World.placementRemove at hc
  split at hc
  · exact hc
  · rcases hc with hc | hc | ⟨e, he, ho⟩ | hc
    · exact Or.inl hc
    · exact Or.inr (Or.inl hc)
    · exact Or.inr (Or.inr (Or.inl ⟨e, live_clearPtr he, ho⟩))
    · exact Or.inr (Or.inr (Or.inr hc))

/-- `SHARE` appends to the list of a live canvas. -/
theorem names_share {i : Nat} {ce : CanvasEntry} {target : ClientRef} (hi : i < w.canvases.count)
    (he : w.canvases.entryAt i = some ce) (hptr : ce.ptr ≠ none)
    (hc : Names { w with
      canvases := w.canvases.setEntry i { ce with shared := ce.shared ++ [target] } } c) :
    Names w c ∨ c = target := by
  have hlive : Live w.canvases ce := ⟨i, hi, he, hptr⟩
  -- only the list of the shared canvas got a name
  rcases hc with ⟨e, h, ho⟩ | hc | hc | ⟨e, h, hm⟩
  · rcases live_setEntry h with h | rfl
    · exact Or.inl (Or.inl ⟨e, h, ho⟩)
    · exact Or.inl (Or.inl ⟨ce, hlive, ho⟩)
  · exact Or.inl (Or.inr (Or.inl hc))
  · exact Or.inl (Or.inr (Or.inr (Or.inl hc)))
  · rcases live_setEntry h with h | rfl
    · exact Or.inl (Or.inr (Or.inr (Or.inr ⟨e, h, hm⟩)))
    · rcases List.mem_append.mp hm with hm | hm
      · exact Or.inl (Or.inr (Or.inr (Or.inr ⟨ce, hlive, hm⟩)))
      · exact Or.inr (List.mem_singleton.mp hm)

end World

/-- A create or place command that gets an entry into its table. -/
def Creates (type : TaskType) (env : Env) (request : CStr) (w : World) : Prop :=
  env.create ≠ none ∧
  match type with
  | .CREATE_CANVAS => (parseCreateCanvas request).isOk ∧
      HasRoom env.realloc sizeofCanvasEntry w.canvases
  | .CREATE_SPRITE => (parseCreateSprite request).isOk ∧
      HasRoom env.realloc sizeofSpriteEntry w.sprites
  | .CREATE_RECTANGLE => (parseCreateRectangle request).isOk ∧
      HasRoom env.realloc sizeofSpriteEntry w.sprites
  | .CREATE_CIRCLE => (parseCreateCircle request).isOk ∧
      HasRoom env.realloc sizeofSpriteEntry w.sprites
  | .PLACE_SPRITE => (FailedRpc.placeTargets request w).isSome ∧
      HasRoom env.realloc sizeofPlacementEntry w.placements
  | _ => False

/-- The command makes the tables name only clients with `new`, and those of `l`; it reads
only records of `l`. -/
structure Contained (l : List ClientRef) (new : ClientRef → Prop) (w : World) (ran : Ran) :
    Prop where
  names : ∀ c, Names ran.world c → Names w c ∨ new c ∨ c ∈ l
  visited : ∀ c ∈ ran.visited, c ∈ l

section Contained

variable {l : List ClientRef} {new : ClientRef → Prop} {w : World}

/-- A handler that visits no client and names nobody new is contained. -/
theorem contained_of_names {ran : Ran} (hnames : ∀ c, Names ran.world c → Names w c)
    (hvisited : ran.visited = []) : Contained l new w ran :=
  ⟨fun c hc => Or.inl (hnames c hc), fun c hc => by simp [hvisited] at hc⟩

/-- A handler that leaves the tables alone is contained. -/
theorem contained_of_world {ran : Ran} (hworld : ran.world = w) (hvisited : ran.visited = []) :
    Contained l new w ran :=
  contained_of_names (fun _ hc => hworld ▸ hc) hvisited

variable (env : Env) (client : ClientRef) (request : CStr)

theorem contained_createCanvas
    (hnew : Creates .CREATE_CANVAS env request w → new client) :
    Contained l new w (createCanvas env client request w) := by
  unfold createCanvas
  unfold Creates at hnew
  cases hp : parseCreateCanvas request with
  | error a => exact contained_of_world rfl rfl
  | ok args =>
    cases hcreate : env.create with
    | none => exact contained_of_world rfl rfl
    | some cv =>
      rw [hp, hcreate] at hnew
      -- the entry inserted is the only one that can name someone new
      have hnames : ∀ c, Names (w.canvasInsert env.realloc cv client (toInt args.2.1)
          (toInt args.1)).2 c → Names w c ∨ new c ∨ c ∈ l := by
        intro c hc
        rcases names_canvasInsert hc with hc | ⟨hroom, rfl⟩
        · exact Or.inl hc
        · exact Or.inr (Or.inl (hnew ⟨by simp, rfl, hroom⟩))
      dsimp only
      split <;> rename_i heq <;> rw [heq] at hnames
      · exact ⟨hnames, fun _ hc => by cases hc⟩
      · exact ⟨hnames, fun _ hc => by cases hc⟩

/-- The three handlers that make a sprite end alike: the new entry names the client, if it gets in.
-/
theorem contained_keepSprite (call : Effect)
    (hnew : env.create ≠ none → HasRoom env.realloc sizeofSpriteEntry w.sprites → new client) :
    Contained l new w (keepSprite env call client w) := by
  unfold keepSprite
  cases hcreate : env.create with
  | none => exact contained_of_world rfl rfl
  | some sp =>
    -- the entry inserted is the only one that can name someone new
    have hnames : ∀ c, Names (w.spriteInsert env.realloc sp client).2 c →
        Names w c ∨ new c ∨ c ∈ l := by
      intro c hc
      rcases names_spriteInsert hc with hc | ⟨hroom, rfl⟩
      · exact Or.inl hc
      · exact Or.inr (Or.inl (hnew (by simp [hcreate]) hroom))
    dsimp only
    split <;> rename_i heq <;> rw [heq] at hnames
    · exact ⟨hnames, fun _ hc => by cases hc⟩
    · exact ⟨hnames, fun _ hc => by cases hc⟩

theorem contained_keepPlacement (call : Effect) (touched : List (ObjKind × Nat))
    (canvas : CanvasPtr)
    (hnew : env.create ≠ none → HasRoom env.realloc sizeofPlacementEntry w.placements →
      new client) :
    Contained l new w (keepPlacement env call touched client canvas w) := by
  unfold keepPlacement
  cases hcreate : env.create with
  | none => exact contained_of_world rfl rfl
  | some pl =>
    -- the entry inserted is the only one that can name someone new
    have hnames : ∀ c, Names (w.placementInsert env.realloc pl client canvas).2 c →
        Names w c ∨ new c ∨ c ∈ l := by
      intro c hc
      rcases names_placementInsert hc with hc | ⟨hroom, rfl⟩
      · exact Or.inl hc
      · exact Or.inr (Or.inl (hnew (by simp [hcreate]) hroom))
    dsimp only
    split <;> rename_i heq <;> rw [heq] at hnames
    · exact ⟨hnames, fun _ hc => by cases hc⟩
    · exact ⟨hnames, fun _ hc => by cases hc⟩

/-- `PLACE_SPRITE` names its client when both objects are there, and so does `Creates`. -/
theorem contained_placeSprite (hnew : Creates .PLACE_SPRITE env request w → new client) :
    Contained l new w (placeSprite env client request w) := by
  unfold Creates FailedRpc.placeTargets at hnew
  unfold placeSprite
  cases hp : parsePlaceSprite request with
  | error a => exact contained_of_world rfl rfl
  | ok args =>
    rcases args with ⟨cid, sid, x, y⟩
    rw [hp] at hnew
    simp only [Except.toOption, Option.bind_eq_bind, Option.bind_some] at hnew
    dsimp only
    -- one case for each test of the handler, and only the last one makes an entry
    cases hc : w.canvases.lookup (toInt cid) with
    | none => exact contained_of_world rfl rfl
    | some ci =>
      dsimp only
      cases hce : w.canvases.entryAt ci with
      | none => exact contained_of_world rfl rfl
      | some ce =>
        dsimp only
        cases hcv : ce.ptr with
        | none => exact contained_of_world rfl rfl
        | some cv =>
          cases hs : w.sprites.lookup (toInt sid) with
          | none => exact contained_of_world rfl rfl
          | some si =>
            dsimp only
            cases hse : w.sprites.entryAt si with
            | none => exact contained_of_world rfl rfl
            | some se =>
              dsimp only
              cases hsp : se.ptr with
              | none => exact contained_of_world rfl rfl
              | some sp =>
                simp only [hc, hce, hcv, hs, hse, hsp, Option.bind_some, Option.isSome_some,
                  true_and] at hnew
                exact contained_keepPlacement env client _ _ _ fun hcr hroom => hnew ⟨hcr, hroom⟩

theorem contained_destroyCanvas : Contained l new w (destroyCanvas request w) := by
  unfold destroyCanvas
  split
  · exact contained_of_world rfl rfl
  · split
    · exact contained_of_world rfl rfl
    · split
      · exact contained_of_world rfl rfl
      · split
        · exact contained_of_world rfl rfl
        · exact contained_of_names (fun c hc => names_canvasRemove hc) rfl

theorem contained_destroySprite : Contained l new w (destroySprite env request w) := by
  unfold destroySprite
  split
  · exact contained_of_world rfl rfl
  · split
    · exact contained_of_world rfl rfl
    · split
      · exact contained_of_world rfl rfl
      · split
        · exact contained_of_world rfl rfl
        · exact contained_of_names (fun c hc => names_spriteRemove hc) rfl

/-- What the handlers of placements have in common. -/
theorem contained_onPlacement (id : Int) {act : Handle → World × List Effect}
    (hact : ∀ pl c, Names (act pl).1 c → Names w c) :
    Contained l new w (onPlacement id w act) := by
  unfold onPlacement
  split
  · exact contained_of_world rfl rfl
  · split
    · exact contained_of_world rfl rfl
    · split
      · exact contained_of_world rfl rfl
      · exact contained_of_names (fun c hc => hact _ c hc) rfl

theorem contained_movePlacement (call : Handle → Effect) :
    Contained l new w (movePlacement call request w) := by
  unfold movePlacement
  split
  · exact contained_of_world rfl rfl
  · exact contained_onPlacement _ fun _ _ hc => hc

theorem contained_destroyPlacement : Contained l new w (destroyPlacement request w) := by
  unfold destroyPlacement
  split
  · exact contained_of_world rfl rfl
  · exact contained_onPlacement _ fun _ _ hc => names_placementRemove hc

theorem contained_setAnimParam : Contained l new w (setAnimParam request w) := by
  unfold setAnimParam
  split
  · exact contained_of_world rfl rfl
  · exact contained_onPlacement _ fun _ _ hc => hc

/-- `GENERATE` changes no table and reads no client. -/
theorem generate_world : (generate env request w).world = w ∧
    (generate env request w).visited = [] := by
  -- no branch of the handler writes to a table or follows a client
  unfold generate
  split
  · exact ⟨rfl, rfl⟩
  · split
    · exact ⟨rfl, rfl⟩
    · split
      · exact ⟨rfl, rfl⟩
      · split
        · exact ⟨rfl, rfl⟩
        · dsimp only
          split
          · exact ⟨rfl, rfl⟩
          · split
            · exact ⟨rfl, rfl⟩
            · split
              · exact ⟨rfl, rfl⟩
              · split
                · exact ⟨rfl, rfl⟩
                · exact ⟨rfl, rfl⟩
                · split <;> exact ⟨rfl, rfl⟩

theorem contained_generate : Contained l new w (generate env request w) :=
  contained_of_world (generate_world env request).1 (generate_world env request).2

/-- The search reads listed records only, and finds a listed one. -/
theorem findUser_spec (mem : ClientRef → ActiveClient) (user : CStr) :
    ∀ (l : List ClientRef) (n : Nat) (h : Option ClientRef),
      Chain (fun x => (mem x).next) h l → l.length ≤ n →
      (∀ x ∈ (findUser mem user n h).1, x ∈ l) ∧ ∀ x ∈ (findUser mem user n h).2, x ∈ l
  | [], n, h, hl, _ => by
    rw [chain_nil] at hl
    subst hl
    cases n <;> simp [findUser]
  | a :: l, n, h, hl, hn => by
    rcases hl with ⟨rfl, hl⟩
    obtain ⟨m, rfl⟩ : ∃ m, n = m + 1 := ⟨n - 1, by simp only [List.length_cons] at hn; omega⟩
    -- the walk stops at the first logged-in client of that name
    by_cases hua : (mem a).loggedIn ∧ (mem a).username = user
    · simp [findUser, hua]
    · rcases findUser_spec mem user l m (mem a).next hl (by simpa using hn) with ⟨hvis, hfound⟩
      simp only [findUser, if_neg hua]
      refine ⟨fun x hx => ?_, fun x hx => List.mem_cons_of_mem _ (hfound x hx)⟩
      rcases List.mem_cons.mp hx with rfl | hx
      · exact List.mem_cons_self
      · exact List.mem_cons_of_mem _ (hvis x hx)

/-- `SHARE` walks the registry, and enters a client that it has found there. -/
theorem contained_share {r : ClientRegistry} (hl : RegList r l) :
    Contained l new w (share request r w) := by
  unfold share
  split
  · exact contained_of_world rfl rfl
  · rename_i cid user _
    cases hlook : w.canvases.lookup (toInt cid) with
    | none => exact contained_of_world rfl rfl
    | some i =>
      dsimp only
      cases hce : w.canvases.entryAt i with
      | none => exact contained_of_world rfl rfl
      | some ce =>
        dsimp only
        by_cases hptr : ce.ptr = none
        · simp only [if_pos hptr]
          exact contained_of_world rfl rfl
        · -- the walk visits the clients of the list and finds one of them or nobody
          obtain ⟨hvis, hfound⟩ :=
            findUser_spec r.mem user l r.brk r.clients hl.linked.chain hl.length_le
          simp only [if_neg hptr]
          cases htarget : (findUser r.mem user r.brk r.clients).2 with
          | none => exact ⟨fun c hc => Or.inl hc, hvis⟩
          | some target =>
            dsimp only
            split
            · exact ⟨fun c hc => Or.inl hc, hvis⟩
            · refine ⟨fun c hc => ?_, hvis⟩
              rcases names_share (Table.lookup_eq_some hlook).2 hce hptr hc with hc | rfl
              · exact Or.inl hc
              · exact Or.inr (Or.inr (hfound c htarget))

/-- Every handler names only clients that were named before, its own one if it creates an object, or
one that it has found in the registry. -/
theorem contained_runRpc {r : ClientRegistry} (hl : RegList r l) (type : TaskType) :
    Contained l (fun c => c = client ∧ Creates type env request w) w
      (runRpc type env client request r w) := by
  -- the three that make a sprite share their end
  have hsprite : ∀ call,
      (env.create ≠ none → HasRoom env.realloc sizeofSpriteEntry w.sprites →
        Creates type env request w) →
      Contained l (fun c => c = client ∧ Creates type env request w) w
        (keepSprite env call client w) := fun call himp =>
    contained_keepSprite env client call fun hcr hroom => ⟨rfl, himp hcr hroom⟩
  cases type with
  | CREATE_CANVAS => exact contained_createCanvas env client request fun h => ⟨rfl, h⟩
  | PLACE_SPRITE => exact contained_placeSprite env client request fun h => ⟨rfl, h⟩
  | CREATE_SPRITE =>
    simp only [runRpc, createSprite]
    cases hp : parseCreateSprite request with
    | error a => exact contained_of_world rfl rfl
    | ok file => exact hsprite _ fun hcr hroom => ⟨hcr, by rw [hp]; rfl, hroom⟩
  | CREATE_RECTANGLE =>
    simp only [runRpc, createRectangle]
    cases hp : parseCreateRectangle request with
    | error a => exact contained_of_world rfl rfl
    | ok args => exact hsprite _ fun hcr hroom => ⟨hcr, by rw [hp]; rfl, hroom⟩
  | CREATE_CIRCLE =>
    simp only [runRpc, createCircle]
    cases hp : parseCreateCircle request with
    | error a => exact contained_of_world rfl rfl
    | ok args => exact hsprite _ fun hcr hroom => ⟨hcr, by rw [hp]; rfl, hroom⟩
  | DESTROY_CANVAS => exact contained_destroyCanvas request
  | DESTROY_SPRITE => exact contained_destroySprite env request
  | PLACEMENT_UP => exact contained_movePlacement request _
  | PLACEMENT_DOWN => exact contained_movePlacement request _
  | PLACEMENT_TOP => exact contained_movePlacement request _
  | PLACEMENT_BOTTOM => exact contained_movePlacement request _
  | DESTROY_PLACEMENT => exact contained_destroyPlacement request
  | SET_ANIM_PARAM => exact contained_setAnimParam request
  | GENERATE => exact contained_generate env request
  | SHARE => exact contained_share request hl
  | HANDSHAKE => exact contained_of_world rfl rfl
  | AUTHORISE => exact contained_of_world rfl rfl
  | BARRIER => exact contained_of_world rfl rfl

end Contained

end AnimateServer.TableOwners
