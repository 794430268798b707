import AnimateServer.Verify.ObjectIds
import AnimateServer.Verify.Generation

/-!
# The dimensions of a canvas

Height and width of a canvas come from text, through `strtoul` into the call of libanimate and
through a conversion to `int` into the table, where `GENERATE` finds them. On the way
`strtoul` wraps a negative number around and stops at `ULONG_MAX`, and the conversion keeps
the low 32 bits. Once they are in the table nothing changes them.
-/

namespace AnimateServer.Dimensions

open CLib Transition CommandCases FailedRpc TableOwners ObjectIds Generation

/-! ### Reading a number -/

/-- The `unsigned long` that `strtoul` makes of an integer. -/
def toUlong (v : Int) : Nat :=
  if ULONG_MAX < v.natAbs then ULONG_MAX else (v % (ULONG_MAX + 1 : Nat)).toNat

/-- It is that integer in the range of `unsigned long` and nowhere else. -/
theorem toUlong_eq_iff {v : Int} : (toUlong v : Int) = v ↔ 0 ≤ v ∧ v ≤ ULONG_MAX := by
  unfold toUlong ULONG_MAX
  split <;> omega

/-- `parse_uint` on a token is `strtoul` on the integer written there. -/
theorem parseUint_eq {s : CStr} (h : s ≠ []) : parseUint s = (written s).map toUlong := by
  unfold parseUint strtoul written
  cases hs : splitNumber s with
  | none => simp [h]
  | some p =>
    rcases p with ⟨neg, m, rest⟩
    cases rest with
    | nil =>
      simp only [if_true, Option.map_some, Option.some.injEq]
      -- strtoul negates a number with a minus sign modulo 2^64, and saturates first
      unfold toUlong signed ULONG_MAX
      cases neg with
      | true =>
        simp only [if_true, Int.natAbs_neg, Int.natAbs_natCast]
        split
        · rfl
        · omega
      | false =>
        simp only [Bool.false_eq_true, if_false, Int.natAbs_natCast]
        split
        · rfl
        · omega
    | cons c rest => simp

/-- What `create_canvas` reads in a request: the text that its buffer holds. -/
def text (request : CStr) : CStr := strncpyBuf MAX_RPC_BUF_LEN request

/-- The height is the number in the first token and the width that in the second one, as `unsigned
long`s. -/
theorem parseCreateCanvas_ok {request : CStr} {h wd : Nat} {bg : Int}
    (hp : parseCreateCanvas request = .ok (h, wd, bg)) :
    ∃ vh vw, writtenAt 0 (text request) = some vh ∧ toUlong vh = h ∧
      writtenAt 1 (text request) = some vw ∧ toUlong vw = wd := by
  unfold parseCreateCanvas at hp
  dsimp only at hp
  split at hp
  · rename_i th tw tc hth htw htc
    split at hp
    · rename_i uh uw c huh huw _
      simp only [Except.ok.injEq, Prod.mk.injEq] at hp
      rcases hp with ⟨rfl, rfl, -⟩
      -- the height stands first in the request, the width second
      rw [parseUint_eq (strtokR_ne_nil hth)] at huh
      rw [parseUint_eq (strtokR_ne_nil htw)] at huw
      rcases Option.map_eq_some_iff.mp huh with ⟨vh, hvh, rfl⟩
      rcases Option.map_eq_some_iff.mp huw with ⟨vw, hvw, rfl⟩
      refine ⟨vh, vw, ?_, rfl, ?_, rfl⟩
      · show (strtokR (strncpyBuf MAX_RPC_BUF_LEN request)).1.bind written = some vh
        rw [hth, Option.bind_some, hvh]
      · show (strtokR (strtokR (strncpyBuf MAX_RPC_BUF_LEN request)).2).1.bind written = some vw
        rw [htw, Option.bind_some, hvw]
    · cases hp
  · cases hp

/-- Every code for a refused canvas is negative. -/
theorem parseCreateCanvas_error {request : CStr} {a : Int}
    (hp : parseCreateCanvas request = .error a) : a < 0 := by
  unfold parseCreateCanvas at hp
  dsimp only at hp
  split at hp
  · split at hp
    · cases hp
    · cases hp
      decide
  · cases hp
    decide

/-! ### The entries of the table -/

/-- The canvases of `w` keep their dimensions in `w'`. -/
structure Kept (w w' : World) : Prop where
  attached : Attached w.canvases → Attached w'.canvases
  count_le : w.canvases.count ≤ w'.canvases.count
  same : Attached w.canvases → ∀ i < w.canvases.count, ∀ ce', w'.canvases.entryAt i = some ce' →
    ∃ ce, w.canvases.entryAt i = some ce ∧ ce'.width = ce.width ∧ ce'.height = ce.height

section Kept

variable {w w' w'' : World}

theorem Kept.refl (w : World) : Kept w w :=
  ⟨id, Nat.le_refl _, fun _ _ _ ce hce => ⟨ce, hce, rfl, rfl⟩⟩

/-- Entries that two steps keep are kept. -/
theorem Kept.trans (h : Kept w w') (h' : Kept w' w'') : Kept w w'' := by
  constructor
  · exact fun hatt => h'.attached (h.attached hatt)
  · exact Nat.le_trans h.count_le h'.count_le
  · intro hatt i hi ce'' hce''
    have hi' := Nat.lt_of_lt_of_le hi h.count_le
    rcases h'.same (h.attached hatt) i hi' ce'' hce'' with ⟨ce', hce', hwidth', hheight'⟩
    rcases h.same hatt i hi ce' hce' with ⟨ce, hce, hwidth, hheight⟩
    exact ⟨ce, hce, hwidth'.trans hwidth, hheight'.trans hheight⟩

/-- Another field of an entry is written. -/
theorem kept_setEntry {i : Nat} {ce ce' : CanvasEntry} (hce : w.canvases.entryAt i = some ce)
    (hwidth : ce'.width = ce.width) (hheight : ce'.height = ce.height) :
    Kept w { w with canvases := w.canvases.setEntry i ce' } := by
  refine ⟨fun hatt => hatt.setEntry i ce', Nat.le_refl _, fun _ j _ e he => ?_⟩
  rcases entryAt_setEntry he with ⟨rfl, rfl⟩ | ⟨-, he⟩
  · exact ⟨ce, hce, hwidth, hheight⟩
  · exact ⟨e, he, rfl, rfl⟩

/-- The canvas table is the same. -/
theorem kept_of_eq (h : w'.canvases = w.canvases) : Kept w w' := by
  refine ⟨by rw [h]; exact id, by rw [h], fun _ i _ ce hce => ?_⟩
  rw [h] at hce
  exact ⟨ce, hce, rfl, rfl⟩

/-- An insertion keeps the entries, or the table is lost. -/
theorem kept_insert {realloc : Int → Option Nat} {mk : Nat → CanvasEntry} {id : Option Nat}
    {t : Table CanvasEntry} (hins : w.canvases.insert realloc sizeofCanvasEntry mk = (id, t)) :
    Kept w { w with canvases := t } := by
  cases id with
  | none =>
    -- the array is gone
    rcases insert_failed hins with ⟨rfl, hatt⟩
    refine ⟨fun _ => hatt, Nat.le_refl _, fun _ i _ ce hce => ?_⟩
    simp [Table.entryAt] at hce
  | some id =>
    refine ⟨fun hatt => (insert_some hatt hins).2.2.1, ?_, fun hatt i hi ce hce => ?_⟩
    · rw [(insert_fields hins).1]
      exact Nat.le_succ _
    · have hcells := (insert_some hatt hins).2.2.2 i
      rw [if_neg (Nat.ne_of_lt hi)] at hcells
      exact ⟨ce, hcells ▸ hce, rfl, rfl⟩

/-- What a handler does keeps the entries of the canvases, or the table is lost. -/
theorem kept_did {type : TaskType} {env : Env} {client : ClientRef} {request : CStr}
    {es : List Effect} (hdid : Did type env client request w w' es) : Kept w w' := by
  cases hdid with
  | canvas _ _ hins => exact kept_insert hins
  | canvasLost _ _ hins => exact kept_insert hins
  | destroyedCanvas _ hce _ => exact kept_setEntry hce rfl rfl
  | shared _ hce _ => exact kept_setEntry hce rfl rfl
  | _ => exact kept_of_eq rfl

/-- A command and a cleanup keep the entries, or the table is lost. -/
theorem kept_step {l : TableLbl} (hs : tableStep l w = some w') : Kept w w' := by
  cases l with
  | cleanup client =>
    obtain rfl := Option.some.inj hs
    refine destroyOwned_induct client (fun w' _ => Kept w w') ?_ ?_ ?_ (Kept.refl w)
    · intro w' _ i e ptr h _ he _ _
      exact h.trans (kept_setEntry he rfl rfl)
    · intro w' _ i e ptr h _ _ _ _
      exact h.trans (kept_of_eq rfl)
    · intro w' _ i e ptr h _ _ _ _
      exact h.trans (kept_of_eq rfl)
  | rpc type env client request r =>
    obtain ⟨-, rfl⟩ : _ ∧ (runRpc type env client request r w).world = w' := by
      simpa [tableStep] using hs
    exact kept_did (did_runRpc type env client request r w)

/-- Everything that happens from `w` on. -/
theorem kept_run (h : (ofStep w tableStep).Reachable w') : Kept w w' := by
  refine h.invariant (fun w' hw' => ?_) (fun l w' w'' hs ih => ih.trans (kept_step hs))
  rw [show w' = w from hw']
  exact Kept.refl w

/-- A table that is not empty has its array. -/
theorem attached_tables (h : tables.Reachable w) : Attached w.canvases :=
  (kept_run h).attached attached_empty

end Kept

/-! ### Creation -/

section NewCanvas

variable (p : Handle) (client : ClientRef) (wd h : Int) (id : Nat)

/-- The new entry stores the two numbers that it was given. -/
theorem newCanvas_width : (newCanvas p client wd h id).width = wd := rfl

theorem newCanvas_height : (newCanvas p client wd h id).height = h := rfl

end NewCanvas

/-- The tables after a `create_canvas` whose call has returned a pointer. -/
theorem createCanvas_eq {env : Env} (client : ClientRef) {request : CStr} (w : World)
    {h wd : Nat} {bg : Int} {cv : Handle} (hp : parseCreateCanvas request = .ok (h, wd, bg))
    (hc : env.create = some cv) :
    ∃ id t, w.canvases.insert env.realloc sizeofCanvasEntry
        (newCanvas cv client (toInt wd) (toInt h)) = (id, t) ∧
      (createCanvas env client request w).world = { w with canvases := t } ∧
      Effect.createCanvas h wd bg env.create ∈ (createCanvas env client request w).effects ∧
      (createCanvas env client request w).retval = match id with
        | some id => some (ret2 0 id)
        | none => some (ret1 (-3)) := by
  unfold createCanvas
  simp only [hp, hc]
  -- the table grew, or it could not
  split
  · rename_i w' hins
    rcases canvasInsert_eq hins with ⟨t, heq, rfl⟩
    exact ⟨none, t, heq, rfl, by simp, rfl⟩
  · rename_i id w' hins
    rcases canvasInsert_eq hins with ⟨t, heq, rfl⟩
    exact ⟨some id, t, heq, rfl, by simp, rfl⟩

/-- An insertion that has room gets through. -/
theorem insert_of_hasRoom {ε : Type} {realloc : Int → Option Nat} {elemSize : Int}
    {mk : Nat → ε} {t t' : Table ε} {id : Option Nat}
    (hins : t.insert realloc elemSize mk = (id, t')) :
    id = none ↔ ¬HasRoom realloc elemSize t := by
  unfold HasRoom
  rw [not_not]
  constructor
  · rintro rfl
    rcases insert_none (congrArg Prod.fst hins) with ⟨hfull, hnone, -⟩
    exact ⟨hfull, hnone⟩
  · rintro ⟨hfull, hnone⟩
    have hfst : (t.insert realloc elemSize mk).1 = none := by
      simp [Table.insert, Table.grow, hfull, hnone]
    rw [hins] at hfst
    exact hfst

/-- The dimensions of every canvas are `int`s. -/
def IntDims (w : World) : Prop :=
  ∀ i < w.canvases.count, ∀ ce, w.canvases.entryAt i = some ce →
    (INT_MIN ≤ ce.width ∧ ce.width ≤ INT_MAX) ∧ INT_MIN ≤ ce.height ∧ ce.height ≤ INT_MAX

section IntDims

variable {w w' : World}

/-- The dimensions stay what they were where no canvas comes in. -/
theorem IntDims.of_kept (h : IntDims w) (hatt : Attached w.canvases) (hkept : Kept w w')
    (hcount : w'.canvases.count = w.canvases.count) : IntDims w' := by
  intro i hi ce' hce'
  rw [hcount] at hi
  rcases hkept.same hatt i hi ce' hce' with ⟨ce, hce, hwidth, hheight⟩
  rw [hwidth, hheight]
  exact h i hi ce hce

/-- Canvases come in by `CREATE_CANVAS` only. -/
theorem count_did {type : TaskType} {env : Env} {client : ClientRef} {request : CStr}
    {es : List Effect} (hdid : Did type env client request w w' es)
    (htype : type ≠ .CREATE_CANVAS) :
    w'.canvases.count = w.canvases.count := by
  cases hdid with
  | canvas hcreate => exact absurd hcreate htype
  | canvasLost hcreate => exact absurd hcreate htype
  | _ => rfl

/-- A new canvas has been cut to two `int`s. -/
theorem intDims_createCanvas (h : IntDims w) (hatt : Attached w.canvases) (env : Env)
    (client : ClientRef) (request : CStr) :
    IntDims (createCanvas env client request w).world := by
  have hkept : Kept w (createCanvas env client request w).world := kept_did did_createCanvas
  cases hp : parseCreateCanvas request with
  | error a => exact h.of_kept hatt hkept (by simp [createCanvas, hp, World.reply])
  | ok args =>
    rcases args with ⟨ht, wd, bg⟩
    cases hc : env.create with
    | none => exact h.of_kept hatt hkept (by simp [createCanvas, hp, hc, World.reply])
    | some cv =>
      rcases createCanvas_eq client w hp hc with ⟨id, t, hins, hworld, -, -⟩
      cases id with
      | none =>
        rcases insert_failed hins with ⟨rfl, -⟩
        exact h.of_kept hatt hkept (by rw [hworld])
      | some id =>
        rcases insert_some hatt hins with ⟨-, hcount, -, hcells⟩
        intro i hi ce hce
        rw [hworld] at hi hce
        have hi' : i < t.count := hi
        have hcell := hcells i
        split at hcell
        · -- the new entry
          have heq : some ce = some _ := hce.symm.trans hcell
          obtain rfl := Option.some.inj heq
          rw [newCanvas_width, newCanvas_height]
          exact ⟨toInt_range wd, toInt_range ht⟩
        · exact h i (by omega) ce (hcell ▸ hce)

/-- So all dimensions are `int`s, in every reachable state. -/
theorem reachable_intDims (h : tables.Reachable w) : IntDims w := by
  refine h.invariant_with (fun w hw => attached_tables hw) (fun w hw => ?_)
    (fun l w w' hs hatt ih => ?_)
  · rw [show w = World.init from hw]
    intro i hi
    exact absurd hi (Nat.not_lt_zero i)
  · cases l with
    | cleanup client =>
      -- a teardown clears entries and adds none
      have hcount : w'.canvases.count = w.canvases.count := by
        obtain rfl := Option.some.inj hs
        exact destroyOwned_induct client (fun w' _ => w'.canvases.count = w.canvases.count)
          (fun _ _ _ _ _ hw _ _ _ _ => hw) (fun _ _ _ _ _ hw _ _ _ _ => hw)
          (fun _ _ _ _ _ hw _ _ _ _ => hw) rfl
      exact ih.of_kept hatt (kept_step hs) hcount
    | rpc type env client request r =>
      have hstep : tableStep (.rpc type env client request r) w = some w' := hs
      obtain ⟨-, rfl⟩ : _ ∧ (runRpc type env client request r w).world = w' := by
        simpa [tableStep] using hstep
      by_cases htype : type = .CREATE_CANVAS
      · subst htype
        exact intDims_createCanvas ih hatt env client request
      · exact ih.of_kept hatt (kept_step hs)
          (count_did (did_runRpc type env client request r w) htype)

end IntDims

/-! ### From the request to the command line -/

/-- The command line up to the dimensions. -/
def videoSize (wd h : Int) : CStr :=
  "ffmpeg -y -f rawvideo -pixel_format rgba -video_size ".toList ++ decimal wd ++ "x".toList ++
    decimal h ++ " ".toList

/-- The command line begins with the option that gives the size; the buffer cuts behind it. -/
theorem videoSize_prefix {ce : CanvasEntry} {rate : Int} {datPath mp4Path logPath : CStr}
    (hwidth : INT_MIN ≤ ce.width ∧ ce.width ≤ INT_MAX)
    (hheight : INT_MIN ≤ ce.height ∧ ce.height ≤ INT_MAX) :
    videoSize ce.width ce.height <+: ffmpegCommand ce rate datPath mp4Path logPath := by
  have hw := length_decimal_le hwidth.1 hwidth.2
  have hh := length_decimal_le hheight.1 hheight.2
  have hpre : "ffmpeg -y -f rawvideo -pixel_format rgba -video_size ".toList.length = 53 := by
    decide
  have hx : "x".toList.length = 1 := by decide
  have hsp : " ".toList.length = 1 := by decide
  have hrate : " -framerate ".toList = " ".toList ++ "-framerate ".toList := by decide
  have hlen : (videoSize ce.width ce.height).length ≤ COMMAND_LEN - 1 := by
    unfold videoSize COMMAND_LEN
    rw [List.length_append, List.length_append, List.length_append, List.length_append, hpre, hx,
      hsp]
    omega
  unfold ffmpegCommand
  rw [List.prefix_take_iff]
  refine ⟨?_, hlen⟩
  have hfirst : videoSize ce.width ce.height <+:
      "ffmpeg -y -f rawvideo -pixel_format rgba -video_size ".toList ++ decimal ce.width ++
        "x".toList ++ decimal ce.height ++ " -framerate ".toList := by
    rw [hrate, ← List.append_assoc]
    exact List.prefix_append _ _
  -- eight more pieces stand behind the dimensions
  have hmore : ∀ {l a : CStr} (b : CStr), l <+: a → l <+: a ++ b := fun b h =>
    h.trans (List.prefix_append _ b)
  exact hmore _ (hmore _ (hmore _ (hmore _ (hmore _ (hmore _ (hmore _ (hmore _ hfirst)))))))

/-- From `w` on, every command line for canvas `i` prints these dimensions. -/
def Prints (i : Nat) (wd h : Int) (w : World) : Prop :=
  ∀ w', (ofStep w tableStep).Reachable w' → ∀ env request args cmd,
    parseGenerate request = .ok args → args.1 = (i : Int) →
      .system cmd ∈ (generate env request w').effects → videoSize wd h <+: cmd

/-- `GENERATE` prints the dimensions of the entry. -/
theorem prints_of_entry {w : World} (hatt : Attached w.canvases) {i : Nat}
    (hi : i < w.canvases.count) {ce : CanvasEntry} (hce : w.canvases.entryAt i = some ce)
    (hwidth : INT_MIN ≤ ce.width ∧ ce.width ≤ INT_MAX)
    (hheight : INT_MIN ≤ ce.height ∧ ce.height ≤ INT_MAX) : Prints i ce.width ce.height w := by
  intro w' hw' env request args cmd hargs hid hcmd
  obtain ⟨canvasId, filename, start, last, rate, j, ce', hparse, hj, hce', rfl⟩ :=
    generate_system hcmd
  rw [hargs] at hparse
  obtain rfl := Except.ok.inj hparse
  obtain rfl : j = i := Int.natCast_inj.mp ((Table.lookup_eq_some hj).1.symm.trans hid)
  -- the entry keeps its dimensions through whatever comes after
  rcases (kept_run hw').same hatt j hi ce' hce' with ⟨ce'', hce'', hw'', hh''⟩
  rw [hce] at hce''
  obtain rfl := Option.some.inj hce''
  rw [← hw'', ← hh'']
  rw [← hw''] at hwidth
  rw [← hh''] at hheight
  exact videoSize_prefix hwidth hheight

/-- `create_canvas` answers success only if height and width denote non-negative integers, passes
them to libanimate and enters them into the table, from where they are printed later on; to any
other tokens the answer is negative. -/
structure Faithful (env : Env) (client : ClientRef) (request : CStr) (w : World) : Prop where
  success : ∀ id, (createCanvas env client request w).retval = some (ret2 0 id) →
    ∃ h wd i : Nat, id = i ∧ writtenAt 0 (text request) = some (h : Int) ∧
      writtenAt 1 (text request) = some (wd : Int) ∧
      (∃ bg, Effect.createCanvas h wd bg env.create ∈
        (createCanvas env client request w).effects) ∧
      (∃ ce, (createCanvas env client request w).world.canvases.entryAt i = some ce ∧
        ce.height = h ∧ ce.width = wd) ∧
      Prints i wd h (createCanvas env client request w).world
  refused : ¬(∃ h wd : Nat, writtenAt 0 (text request) = some (h : Int) ∧
      writtenAt 1 (text request) = some (wd : Int)) →
    ∃ a < 0, (createCanvas env client request w).retval = some (ret1 a)

/-- The token denotes an integer that is a non-negative `int`. -/
def InRange (v : Option Int) : Prop := ∃ x, v = some x ∧ 0 ≤ x ∧ x ≤ INT_MAX

/-- A request that is refused is answered as it should be. -/
theorem faithful_of_refused {env : Env} {client : ClientRef} {request : CStr} {w : World} {a : Int}
    (ha : a < 0) (h : (createCanvas env client request w).retval = some (ret1 a)) :
    Faithful env client request w := by
  refine ⟨fun id hid => ?_, fun _ => ⟨a, ha, h⟩⟩
  rw [h] at hid
  have hzero : a = 0 := congrArg RetVal.a (Option.some.inj hid)
  omega

/-- A canvas has been created and entered: the integers in the request, what libanimate was
given and what the table has. -/
structure Created (env : Env) (client : ClientRef) (request : CStr) (w : World) (vh vw : Int) :
    Prop where
  height : writtenAt 0 (text request) = some vh
  width : writtenAt 1 (text request) = some vw
  retval : (createCanvas env client request w).retval = some (ret2 0 w.canvases.count)
  call : ∃ bg, Effect.createCanvas (toUlong vh) (toUlong vw) bg env.create ∈
    (createCanvas env client request w).effects
  entry : ∃ ce, (createCanvas env client request w).world.canvases.entryAt w.canvases.count =
    some ce ∧ ce.height = toInt (toUlong vh) ∧ ce.width = toInt (toUlong vw)
  count : w.canvases.count < (createCanvas env client request w).world.canvases.count
  attached : Attached (createCanvas env client request w).world.canvases

section Created

variable {env : Env} {client : ClientRef} {request : CStr} {w : World} {vh vw : Int}

/-- A request that is not refused creates a canvas. -/
theorem created (client : ClientRef) {args : Nat × Nat × Int} {cv : Handle}
    (hatt : Attached w.canvases)
    (hp : parseCreateCanvas request = .ok args) (hc : env.create = some cv)
    (hroom : HasRoom env.realloc sizeofCanvasEntry w.canvases) :
    ∃ vh vw, Created env client request w vh vw := by
  rcases args with ⟨h, wd, bg⟩
  rcases parseCreateCanvas_ok hp with ⟨vh, vw, hvh, rfl, hvw, rfl⟩
  rcases createCanvas_eq client w hp hc with ⟨id, t, hins, hworld, hcall, hret⟩
  cases id with
  | none => exact absurd hroom ((insert_of_hasRoom hins).mp rfl)
  | some id =>
    -- the new entry stands at the old count, which is the id replied
    rcases insert_some hatt hins with ⟨rfl, hcount, hatt', hcells⟩
    have hcell := (hcells w.canvases.count).trans (if_pos rfl)
    refine ⟨vh, vw, hvh, hvw, hret, ⟨bg, hcall⟩, ⟨newCanvas cv client
      (toInt (toUlong vw)) (toInt (toUlong vh)) w.canvases.count, ?_, newCanvas_height ..,
      newCanvas_width ..⟩, ?_, ?_⟩
    · rw [hworld]
      exact hcell
    · rw [hworld]
      exact hcount ▸ Nat.lt_succ_self _
    · rw [hworld]
      exact hatt'

/-- Neither `strtoul` nor the conversion changes what is in range. -/
theorem toInt_toUlong {v : Int} (h₁ : 0 ≤ v) (h₂ : v ≤ INT_MAX) :
    (toUlong v : Int) = v ∧ toInt (toUlong v) = v := by
  have hul : (toUlong v : Int) = v := toUlong_eq_iff.mpr ⟨h₁, Int.le_trans h₂ (by decide)⟩
  rw [hul]
  exact ⟨rfl, toInt_of_range (Int.le_trans (by decide) h₁) h₂⟩

/-- If the entry is faithful, the numbers were `int`s. -/
theorem Created.inRange (hcreated : Created env client request w vh vw)
    (h : Faithful env client request w) : (0 ≤ vh ∧ vh ≤ INT_MAX) ∧ 0 ≤ vw ∧ vw ≤ INT_MAX := by
  obtain ⟨ht, wd, i, hid, hheight, hwidth, -, ⟨ce, hce, hch, hcw⟩, -⟩ :=
    h.success _ hcreated.retval
  obtain rfl : vh = ht := Option.some.inj (hcreated.height.symm.trans hheight)
  obtain rfl : vw = wd := Option.some.inj (hcreated.width.symm.trans hwidth)
  obtain rfl : w.canvases.count = i := Int.natCast_inj.mp hid
  rcases hcreated.entry with ⟨ce', hce', hch', hcw'⟩
  obtain rfl := Option.some.inj (hce.symm.trans hce')
  -- the entry has an `int`
  rw [← hch, hch', ← hcw, hcw']
  have hrh := toInt_range (toUlong ht)
  have hrw := toInt_range (toUlong wd)
  rw [← hch', hch] at hrh ⊢
  rw [← hcw', hcw] at hrw ⊢
  exact ⟨⟨Int.natCast_nonneg ht, hrh.2⟩, Int.natCast_nonneg wd, hrw.2⟩

/-- And if they were, nothing has been cut. -/
theorem Created.faithful (hcreated : Created env client request w vh vw)
    (hvh : 0 ≤ vh ∧ vh ≤ INT_MAX) (hvw : 0 ≤ vw ∧ vw ≤ INT_MAX) :
    Faithful env client request w := by
  rcases toInt_toUlong hvh.1 hvh.2 with ⟨hulh, hinth⟩
  rcases toInt_toUlong hvw.1 hvw.2 with ⟨hulw, hintw⟩
  -- values within int survive both casts
  have hheight : writtenAt 0 (text request) = some (toUlong vh : Int) := by
    rw [hulh, hcreated.height]
  have hwidth : writtenAt 1 (text request) = some (toUlong vw : Int) := by
    rw [hulw, hcreated.width]
  have hmin : ∀ {v : Int}, 0 ≤ v → INT_MIN ≤ v := fun h => Int.le_trans (by decide) h
  rcases hcreated.entry with ⟨ce, hce, hch, hcw⟩
  constructor
  · intro id hid
    rw [hcreated.retval] at hid
    have hcount : (w.canvases.count : Int) = id := congrArg RetVal.b (Option.some.inj hid)
    refine ⟨toUlong vh, toUlong vw, w.canvases.count, hcount.symm, hheight, hwidth, hcreated.call,
      ⟨ce, hce, ?_, ?_⟩, ?_⟩
    · rw [hch, hinth, hulh]
    · rw [hcw, hintw, hulw]
    · have hprints := prints_of_entry hcreated.attached hcreated.count hce
        (by rw [hcw, hintw]; exact ⟨hmin hvw.1, hvw.2⟩)
        (by rw [hch, hinth]; exact ⟨hmin hvh.1, hvh.2⟩)
      rwa [hcw, hch, hintw, hinth, ← hulw, ← hulh] at hprints
  · intro hno
    exact absurd ⟨toUlong vh, toUlong vw, hheight, hwidth⟩ hno

end Created

/-- The dimensions survive exactly if both are in the range of `int`, or if the request is
refused for another reason: it is malformed, libanimate returns null, or the table cannot
grow. -/
theorem faithful_iff (env : Env) (client : ClientRef) (request : CStr) {w : World}
    (hw : tables.Reachable w) :
    Faithful env client request w ↔
      ((parseCreateCanvas request).isOk → env.create ≠ none →
        HasRoom env.realloc sizeofCanvasEntry w.canvases →
          InRange (writtenAt 0 (text request)) ∧ InRange (writtenAt 1 (text request))) := by
  have hatt := attached_tables hw
  cases hp : parseCreateCanvas request with
  | error a =>
    have hret : (createCanvas env client request w).retval = some (ret1 a) := by
      simp [createCanvas, hp, World.reply]
    refine iff_of_true (faithful_of_refused (parseCreateCanvas_error hp) hret) ?_
    intro hok
    cases hok
  | ok args =>
    cases hc : env.create with
    | none =>
      have hret : (createCanvas env client request w).retval = some (ret1 (-3)) := by
        simp [createCanvas, hp, hc, World.reply]
      exact iff_of_true (faithful_of_refused (by decide) hret) fun _ hne => absurd rfl hne
    | some cv =>
      by_cases hroom : HasRoom env.realloc sizeofCanvasEntry w.canvases
      · rcases created client hatt hp hc hroom with ⟨vh, vw, hcreated⟩
        constructor
        · intro hfaith _ _ _
          rcases hcreated.inRange hfaith with ⟨hvh, hvw⟩
          exact ⟨⟨vh, hcreated.height, hvh⟩, ⟨vw, hcreated.width, hvw⟩⟩
        · intro hcond
          rcases hcond rfl (by simp) hroom with ⟨⟨xh, hxh, hvh⟩, ⟨xw, hxw, hvw⟩⟩
          obtain rfl : vh = xh := Option.some.inj (hcreated.height.symm.trans hxh)
          obtain rfl : vw = xw := Option.some.inj (hcreated.width.symm.trans hxw)
          exact hcreated.faithful hvh hvw
      · -- the new canvas is destroyed again
        rcases args with ⟨h, wd, bg⟩
        rcases createCanvas_eq client w hp hc with ⟨id, t, hins, -, -, hret⟩
        obtain rfl := (insert_of_hasRoom hins).mpr hroom
        exact iff_of_true (faithful_of_refused (by decide) hret) fun _ _ h => absurd h hroom

/-- A canvas of 640 by 480. -/
theorem faithful_iff_vga : Faithful (.allSucceed 1) 0 "480 640 0".toList .init :=
  (faithful_iff (.allSucceed 1) 0 "480 640 0".toList (.init rfl)).mpr fun _ _ _ =>
    ⟨⟨480, by decide, by decide, by decide⟩, ⟨640, by decide, by decide, by decide⟩⟩

/-- A negative height is wrapped around, handed to libanimate and answered with success. -/
theorem negative_height_accepted :
    (createCanvas (.allSucceed 1) 0 "-5 640 0".toList .init).retval = some (ret2 0 0) ∧
      (createCanvas (.allSucceed 1) 0 "-5 640 0".toList .init).effects =
        [.createCanvas 18446744073709551611 640 0 (some 1)] ∧
      ¬Faithful (.allSucceed 1) 0 "-5 640 0".toList .init := by
  have hret : (createCanvas (.allSucceed 1) 0 "-5 640 0".toList .init).retval =
      some (ret2 0 0) := by decide
  refine ⟨hret, by decide, fun hfaith => ?_⟩
  rcases hfaith.success 0 hret with ⟨h, wd, i, -, hheight, -⟩
  have hminus : writtenAt 0 (text "-5 640 0".toList) = some (-5) := by decide
  have heq : (-5 : Int) = h := Option.some.inj (hminus.symm.trans hheight)
  omega

end AnimateServer.Dimensions
