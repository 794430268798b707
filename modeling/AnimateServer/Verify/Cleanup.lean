import AnimateServer.Model.Markdead
import AnimateServer.Verify.CommandCases

/-!
# The cleanup after a client is exact

Each loop of `client_markdead` goes over a table once. After `k` turns the entries below `k`
have been cleaned and the others are as they were (`swept`), so that the whole loop clears the
live entries of the client and nothing else, provided that every entry it reads is there.
-/

namespace AnimateServer.Cleanup

open CLib Transition TableOwners CommandCases

/-! ## Loops that may fail -/

section Fold

variable {σ : Type} {turn : σ → Nat → Option σ} {state : Nat → σ}

/-- A loop whose turns lead from each state to the next. -/
theorem foldlM_range {n : Nat} (h : ∀ i < n, turn (state i) i = some (state (i + 1))) :
    (List.range n).foldlM turn (state 0) = some (state n) := by
  induction n with
  | zero => rfl
  | succ n ih =>
    rw [List.range_succ, List.foldlM_append, ih fun i hi => h i (by omega)]
    simp [h n (Nat.lt_succ_self n)]

/-- A loop that does not fail goes through the states of the turns that do not. -/
theorem foldl_of_foldlM {next : σ → Nat → σ} (h : ∀ s i s', turn s i = some s' → next s i = s') :
    ∀ {is : List Nat} {s s' : σ}, is.foldlM turn s = some s' → is.foldl next s = s'
  | [], _, _, hs => Option.some.inj hs
  | i :: is, s, s', hs => by
    rw [List.foldlM_cons] at hs
    rcases Option.bind_eq_some_iff.mp hs with ⟨s₁, hturn, hrest⟩
    rw [List.foldl_cons, h s i s₁ hturn]
    exact foldl_of_foldlM h hrest

/-- The loop fails with its first failing turn. -/
theorem foldlM_range_none {n k : Nat} (hk : k < n)
    (h : ∀ i < k, turn (state i) i = some (state (i + 1))) (hfail : turn (state k) k = none) :
    (List.range n).foldlM turn (state 0) = none := by
  obtain ⟨m, rfl⟩ : ∃ m, n = k + 1 + m := ⟨n - (k + 1), by omega⟩
  rw [List.range_add, List.foldlM_append, List.range_succ, List.foldlM_append, foldlM_range h]
  simp [hfail]

end Fold

/-! ## What is left of a table -/

/-- Writing back what a cell has. -/
theorem setEntry_self {ε : Type} {t : Table ε} {k : Nat} {e : ε} (he : t.entryAt k = some e) :
    t.setEntry k e = t := by
  rcases t with ⟨arr, count, capacity⟩
  cases arr with
  | none => rfl
  | some a =>
    have hcell : a.cells k = some e := he
    simp [Table.setEntry, ← hcell]

section Table

variable {ε : Type} [Entry ε] (client : ClientRef)

/-- A live entry of the client. -/
def Mine (e : ε) : Prop := Entry.ptr e ≠ none ∧ Entry.owner e = some client

instance (e : ε) : Decidable (Mine client e) := by
  unfold Mine
  infer_instance

/-- What the cleanup makes of an entry. -/
def clean (e : ε) : ε := if Mine client e then cleared e else e

/-- The table when the entries below `k` have been cleaned. -/
def swept (t : Table ε) (k : Nat) : Table ε :=
  { t with arr := t.arr.map fun a =>
      { a with cells := fun i => if i < k then (a.cells i).map (clean client) else a.cells i } }

/-- The pointers of the client's live entries below `k`, in their order. -/
def minePtrs (t : Table ε) (k : Nat) : List Handle :=
  (List.range k).filterMap fun i =>
    (t.entryAt i).bind fun e => if Entry.owner e = some client then Entry.ptr e else none

variable {client} {t : Table ε}

theorem swept_zero (t : Table ε) : swept client t 0 = t := by
  rcases t with ⟨arr, count, capacity⟩
  cases arr with
  | none => rfl
  | some a => simp [swept]

theorem entryAt_swept (k i : Nat) : (swept client t k).entryAt i =
    if i < k then (t.entryAt i).map (clean client) else t.entryAt i := by
  cases harr : t.arr with
  | none => simp [swept, Table.entryAt, harr]
  | some a => simp [swept, Table.entryAt, harr]

/-- The next entry as it was, with what the cleanup makes of it written into its cell. -/
theorem swept_succ (client : ClientRef) {k : Nat} {e : ε} (he : t.entryAt k = some e) :
    swept client t (k + 1) = (swept client t k).setEntry k (clean client e) := by
  rcases t with ⟨arr, count, capacity⟩
  cases arr with
  | none => simp [Table.entryAt] at he
  | some a =>
    have hcell : a.cells k = some e := he
    simp only [swept, Table.setEntry, Option.map_some, Table.mk.injEq, and_true, Option.some.injEq,
      Arr.mk.injEq, true_and]
    funext i
    by_cases hi : i = k
    · subst hi
      simp [hcell]
    · have hlt : i < k + 1 ↔ i < k := by omega
      simp [Function.update_of_ne hi, hlt]

theorem minePtrs_succ (client : ClientRef) {k : Nat} {e : ε} (he : t.entryAt k = some e) :
    minePtrs client t (k + 1) = minePtrs client t k ++
      (if Entry.owner e = some client then Entry.ptr e else none).toList := by
  rw [minePtrs, List.range_succ, List.filterMap_append]
  cases hptr : (if Entry.owner e = some client then Entry.ptr e else none) <;>
    simp [he, hptr, minePtrs]

end Table

/-! ## The loops -/

section Loop

variable {ε : Type} [Entry ε] {client : ClientRef} (p : Owned ε)

/-- The state of a loop after `k` turns. -/
def after (client : ClientRef) (we : World × List Effect) (k : Nat) : World × List Effect :=
  (p.put we.1 (swept client (p.get we.1) k),
    we.2 ++ (minePtrs client (p.get we.1) k).map fun ptr => p.destroy (some ptr))

theorem markdeadTurn_after {we : World × List Effect} {k : Nat} {e : ε}
    (hk : k < (p.get we.1).count) (he : (p.get we.1).entryAt k = some e) :
    markdeadTurn client p.get p.put p.remove (after p client we k) k =
      some (after p client we (k + 1)) := by
  have hcell : (p.get (after p client we k).1).entryAt k = some e := by
    rw [after, p.get_put, entryAt_swept, if_neg (Nat.lt_irrefl k), he]
  have hnext := swept_succ client he
  have hptrs := minePtrs_succ client he
  -- a turn either cleans the entry it reads or leaves the tables as they are
  by_cases hmine : Mine client e
  · rcases Option.ne_none_iff_exists'.mp hmine.1 with ⟨ptr, hptr⟩
    have hlook := lookup_entry (t := p.get (after p client we k).1)
      (by rw [after, p.get_put]; exact hk) hcell
    have hread := entryAt_setEntry_self (Entry.setPtr e none) hcell
    have hclean : clean client e = Entry.setOwner (Entry.setPtr e none) none := if_pos hmine
    simp only [markdeadTurn, hcell, if_pos (show Entry.ptr e ≠ none ∧ _ from hmine),
      p.remove_eq _ k e ptr hlook hcell hptr, p.get_put, hread, p.put_put, setEntry_setEntry]
    rw [if_pos hmine.2, hptr] at hptrs
    simp only [after, p.get_put, p.put_put, hnext, hclean, hptrs, Option.toList_some,
      List.map_append, List.map_cons, List.map_nil, List.append_assoc]
  · have hclean : clean client e = e := if_neg hmine
    have hswept : swept client (p.get we.1) (k + 1) = swept client (p.get we.1) k := by
      rw [hnext, hclean, setEntry_self]
      rw [entryAt_swept, if_neg (Nat.lt_irrefl k), he]
    have hnone : (if Entry.owner e = some client then Entry.ptr e else none) = none := by
      split_ifs with howner
      · by_contra hptr
        exact hmine ⟨hptr, howner⟩
      · rfl
    rw [hnone, Option.toList_none, List.append_nil] at hptrs
    simp only [markdeadTurn, hcell, if_neg (show ¬ (Entry.ptr e ≠ none ∧ _) from hmine)]
    simp only [after, hswept, hptrs]

/-- The loop reads every entry below the count. -/
def Filled (t : Table ε) : Prop := ∀ i < t.count, (t.entryAt i).isSome

instance (t : Table ε) : Decidable (Filled t) := by
  unfold Filled
  infer_instance

/-- The loop starts in the first of these states and goes on to the next one as long as it
finds an entry. -/
theorem markdeadLoop_states (client : ClientRef) (hput : ∀ w, p.put w (p.get w) = w)
    (we : World × List Effect) :
    markdeadLoop client p.get p.put p.remove we =
        (List.range (p.get we.1).count).foldlM (markdeadTurn client p.get p.put p.remove)
          (after p client we 0) ∧
      ∀ i < (p.get we.1).count, ((p.get we.1).entryAt i).isSome →
        markdeadTurn client p.get p.put p.remove (after p client we i) i =
          some (after p client we (i + 1)) := by
  constructor
  · have hzero : after p client we 0 = we := by simp [after, swept_zero, hput, minePtrs]
    rw [hzero, markdeadLoop]
  · intro i hi hsome
    rcases Option.isSome_iff_exists.mp hsome with ⟨e, he⟩
    exact markdeadTurn_after p hi he

theorem markdeadLoop_filled (hput : ∀ w, p.put w (p.get w) = w) {we : World × List Effect}
    (hfilled : Filled (p.get we.1)) :
    markdeadLoop client p.get p.put p.remove we = some (after p client we (p.get we.1).count) := by
  rcases markdeadLoop_states p client hput we with ⟨hloop, hturn⟩
  rw [hloop]
  exact foldlM_range fun i hi => hturn i hi (hfilled i hi)

/-- The first entry that is missing ends the loop. -/
theorem markdeadLoop_missing (hput : ∀ w, p.put w (p.get w) = w) {we : World × List Effect}
    (hmissing : ¬ Filled (p.get we.1)) : markdeadLoop client p.get p.put p.remove we = none := by
  rcases markdeadLoop_states p client hput we with ⟨hloop, hturn⟩
  -- the loop gets as far as the first index without a cell
  have hex : ∃ i, i < (p.get we.1).count ∧ ¬ ((p.get we.1).entryAt i).isSome := by
    simpa [Filled] using hmissing
  rcases Nat.find_spec hex with ⟨hlt, hnone⟩
  rw [hloop]
  refine foldlM_range_none hlt (fun i hi => ?_) ?_
  · have hi' : i < (p.get we.1).count := by omega
    refine hturn i hi' ?_
    by_contra hfirst
    exact Nat.find_min hex hi ⟨hi', hfirst⟩
  · have hcell : (p.get (after p client we (Nat.find hex)).1).entryAt (Nat.find hex) = none := by
      rw [after, p.get_put, entryAt_swept, if_neg (Nat.lt_irrefl _)]
      simpa using hnone
    simp only [markdeadTurn, hcell]

end Loop

/-- The tables and the calls after the cleanup. -/
theorem clientMarkdead_eq (client : ClientRef) (w : World) :
    clientMarkdead client w =
      if Filled w.canvases ∧ Filled w.sprites ∧ Filled w.placements then
        some (⟨swept client w.canvases w.canvases.count, swept client w.sprites w.sprites.count,
            swept client w.placements w.placements.count⟩,
          (minePtrs client w.canvases w.canvases.count).map (fun p => .destroyCanvas (some p)) ++
            (minePtrs client w.sprites w.sprites.count).map (fun p => .destroySprite (some p)) ++
            (minePtrs client w.placements w.placements.count).map
              (fun p => .destroyPlacement (some p)))
      else none := by
  show (markdeadLoop client ownedCanvases.get ownedCanvases.put ownedCanvases.remove (w, [])).bind
    (fun we => (markdeadLoop client ownedSprites.get ownedSprites.put ownedSprites.remove we).bind
      (markdeadLoop client ownedPlacements.get ownedPlacements.put ownedPlacements.remove)) = _
  -- the loops run one after the other, and the first missing entry ends the call
  by_cases hcanvases : Filled w.canvases
  · rw [markdeadLoop_filled ownedCanvases fun _ => rfl, Option.bind_some]
    swap
    · exact hcanvases
    by_cases hsprites : Filled w.sprites
    · rw [markdeadLoop_filled ownedSprites fun _ => rfl, Option.bind_some]
      swap
      · exact hsprites
      by_cases hplacements : Filled w.placements
      · rw [markdeadLoop_filled ownedPlacements fun _ => rfl,
          if_pos ⟨hcanvases, hsprites, hplacements⟩]
        · rfl
        · exact hplacements
      · rw [markdeadLoop_missing ownedPlacements fun _ => rfl, if_neg fun h => hplacements h.2.2]
        exact hplacements
    · rw [markdeadLoop_missing ownedSprites fun _ => rfl, if_neg fun h => hsprites h.2.1]
      · rfl
      · exact hsprites
  · rw [markdeadLoop_missing ownedCanvases fun _ => rfl, if_neg fun h => hcanvases h.1]
    · rfl
    · exact hcanvases

/-! ## Exactness -/

/-- The live entries of the client are cleared, and nothing else has changed. -/
structure CleanedTable {ε : Type} [Entry ε] (client : ClientRef) (t t' : Table ε) : Prop where
  count : t'.count = t.count
  capacity : t'.capacity = t.capacity
  block : t'.arr.map Arr.block = t.arr.map Arr.block
  mine : ∀ i < t.count, ∀ e, t.entryAt i = some e → Entry.ptr e ≠ none →
    Entry.owner e = some client → t'.entryAt i = some (cleared e)
  other : ∀ i, (i < t.count → ∀ e, t.entryAt i = some e →
    Entry.ptr e = none ∨ Entry.owner e ≠ some client) → t'.entryAt i = t.entryAt i

theorem cleanedTable_swept {ε : Type} [Entry ε] (client : ClientRef) (t : Table ε) :
    CleanedTable client t (swept client t t.count) := by
  refine ⟨rfl, rfl, ?_, fun i hi e he hptr howner => ?_, fun i hother => ?_⟩
  · cases harr : t.arr <;> simp [swept, harr]
  · rw [entryAt_swept, if_pos hi, he]
    exact congrArg some (if_pos ⟨hptr, howner⟩)
  · rw [entryAt_swept]
    split_ifs with hi
    · cases he : t.entryAt i with
      | none => rfl
      | some e =>
        -- an entry of another client, or a cleared one, is passed over
        refine congrArg some (if_neg ?_)
        rintro ⟨hptr, howner⟩
        rcases hother hi e he with hnull | hforeign
        · exact hptr hnull
        · exact hforeign howner
    · rfl

/-- The cleanup of `client` turns `w` into `w'` with the calls `es`. -/
structure Exact (client : ClientRef) (w w' : World) (es : List Effect) : Prop where
  canvases : CleanedTable client w.canvases w'.canvases
  sprites : CleanedTable client w.sprites w'.sprites
  placements : CleanedTable client w.placements w'.placements
  calls : es =
    (minePtrs client w.canvases w.canvases.count).map (fun p => .destroyCanvas (some p)) ++
      (minePtrs client w.sprites w.sprites.count).map (fun p => .destroySprite (some p)) ++
      (minePtrs client w.placements w.placements.count).map (fun p => .destroyPlacement (some p))

/-- `client_markdead` destroys the live objects of the client, each once, and changes nothing
else, exactly if the entries of the three tables are there. -/
theorem markdead_exact_iff (client : ClientRef) (w : World) :
    (∃ w' es, clientMarkdead client w = some (w', es) ∧ Exact client w w' es) ↔
      Filled w.canvases ∧ Filled w.sprites ∧ Filled w.placements := by
  rw [clientMarkdead_eq]
  constructor
  · rintro ⟨w', es, hres, -⟩
    by_contra hno
    rw [if_neg hno] at hres
    cases hres
  · intro hfilled
    rw [if_pos hfilled]
    exact ⟨_, _, rfl, cleanedTable_swept _ _, cleanedTable_swept _ _, cleanedTable_swept _ _, rfl⟩

/-- The canvas table of client 0 is full and cannot grow. -/
def growthFails : List TableLbl :=
  List.replicate 64 (ask .CREATE_CANVAS 1 "10 10 0") ++
    [.rpc .CREATE_CANVAS { Env.allSucceed 1 with realloc := fun _ => none } 0
      "10 10 0".toList .init]

/-- After that the loop over the canvases has no array to read. -/
theorem markdead_reads_lost_array :
    ¬ ∀ client w, tables.Reachable w →
      ∃ w' es, clientMarkdead client w = some (w', es) ∧ Exact client w w' es := by
  intro hall
  obtain ⟨w, hw, hp⟩ := exists_reachable_of_run World.init tableStep growthFails
    (fun w => decide (0 < w.canvases.count ∧ w.canvases.arr.isNone)) (by decide +kernel)
  rcases of_decide_eq_true hp with ⟨hcount, hlost⟩
  rcases hall 0 w hw with ⟨w', es, hres, -⟩
  have hcell : w.canvases.entryAt 0 = none := by
    rw [Option.isNone_iff_eq_none] at hlost
    simp [Table.entryAt, hlost]
  have hmissing : ¬ Filled w.canvases := fun hfilled => by simpa [hcell] using hfilled 0 hcount
  rw [clientMarkdead_eq, if_neg fun h => hmissing h.1] at hres
  cases hres

/-! ## The cleanup of the server -/

theorem cleanupTurn_of_markdeadTurn {ε : Type} [Entry ε] (client : ClientRef)
    (get : World → Table ε) (put : World → Table ε → World)
    (remove : Int → World → World × List Effect) (we : World × List Effect) (i : Nat)
    (we' : World × List Effect) (h : markdeadTurn client get put remove we i = some we') :
    cleanupTurn client get put remove we i = we' := by
  unfold markdeadTurn at h
  unfold cleanupTurn
  cases he : (get we.1).entryAt i with
  | none =>
    rw [he] at h
    cases h
  | some e =>
    rw [he] at h
    dsimp only at h ⊢
    split_ifs at h ⊢ with hmine
    · -- the second read is of the table that `remove` leaves
      cases he' : (get (remove i we.1).1).entryAt i with
      | none =>
        simp only [he'] at h
        cases h
      | some e' =>
        simp only [he'] at h ⊢
        exact Option.some.inj h
    · exact Option.some.inj h

/-- Where `client_markdead` finds all entries, it does what `destroyOwned` does. -/
theorem destroyOwned_of_clientMarkdead {client : ClientRef} {w : World} {r : World × List Effect}
    (h : clientMarkdead client w = some r) : destroyOwned client w = r := by
  rcases Option.bind_eq_some_iff.mp h with ⟨we₁, h₁, h⟩
  rcases Option.bind_eq_some_iff.mp h with ⟨we₂, h₂, h₃⟩
  have hcanvases := foldl_of_foldlM (cleanupTurn_of_markdeadTurn client _ _ _) h₁
  have hsprites := foldl_of_foldlM (cleanupTurn_of_markdeadTurn client _ _ _) h₂
  have hplacements := foldl_of_foldlM (cleanupTurn_of_markdeadTurn client _ _ _) h₃
  rw [← hplacements, ← hsprites, ← hcanvases]
  rfl

end AnimateServer.Cleanup
