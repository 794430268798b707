import AnimateServer.Model.Worker

/-!
# Which object a request names

Ten handlers take the id of a table entry. Between the text of the request and
the index into the table lie the copy into a buffer, `strtol`, in some handlers a
range check, and the conversion from `long` to `int`. An id survives unchanged
exactly when nothing of it is cut off by the buffer and nothing of it is lost in
the conversion.
-/

namespace AnimateServer.ObjectIds

open CLib

/-! ## Parsing -/

/-- `parse_int` on a token is `strtol` on the integer written there. -/
theorem parseInt_eq {s : CStr} (h : s ≠ []) : parseInt s = (written s).map clampLong := by
  unfold parseInt strtol written
  cases hs : splitNumber s with
  | none => simp [h]
  | some p =>
    rcases p with ⟨neg, m, rest⟩
    cases rest with
    | nil => simp
    | cons c rest => simp

/-- A token that is not empty is converted if it is written as a number, and then saturated. -/
theorem parseInt_eq_some {s : CStr} (h : s ≠ []) {id : Int} :
    parseInt s = some id ↔ ∃ v, written s = some v ∧ clampLong v = id := by
  rw [parseInt_eq h]
  simp

/-- The request fits into the buffer. -/
theorem strncpyBuf_of_le {n : Nat} {s : CStr} (h : s.length ≤ n - 1) : strncpyBuf n s = s :=
  List.take_of_length_le h

/-- The one-id requests: the token is the first one of what the buffer holds. -/
theorem parseId_eq (size : Nat) (request : CStr) :
    parseId size request = match token 0 (strncpyBuf size request) with
      | none => .error (-1)
      | some t => match written t with
        | none => .error (-2)
        | some v => .ok (clampLong v) := by
  unfold parseId token
  cases h : (strtokR (strncpyBuf size request)).1 with
  | none => simp [h]
  | some t =>
    simp only [h]
    rw [parseInt_eq (strtokR_ne_nil h)]
    cases written t <;> rfl

/-- The handlers with one id take the number in the first token. -/
theorem parseId_eq_ok {size : Nat} {request : CStr} {id : Int} :
    parseId size request = .ok id ↔
      ∃ t v, token 0 (strncpyBuf size request) = some t ∧ written t = some v ∧
        clampLong v = id := by
  rw [parseId_eq]
  cases token 0 (strncpyBuf size request) with
  | none => simp
  | some t => cases hv : written t <;> simp [hv]

/-- Every code for a refused id is negative. -/
theorem parseId_error {size : Nat} {request : CStr} {a : Int}
    (h : parseId size request = .error a) : a < 0 := by
  rw [parseId_eq] at h
  split at h
  · cases h
    decide
  · split at h
    · cases h
      decide
    · cases h

theorem parseCheckedId_error {size : Nat} {request : CStr} {a : Int}
    (h : parseCheckedId size request = .error a) : a < 0 := by
  unfold parseCheckedId at h
  cases hp : parseId size request with
  | error b =>
    rw [hp] at h
    cases h
    exact parseId_error hp
  | ok id =>
    simp only [hp] at h
    split at h
    · cases h
      decide
    · cases h

/-- The range check makes the parsed id the written integer. -/
theorem parseCheckedId_eq_ok {size : Nat} {request : CStr} {id : Int} :
    parseCheckedId size request = .ok id ↔
      ∃ t, token 0 (strncpyBuf size request) = some t ∧ written t = some id ∧
        0 ≤ id ∧ id ≤ INT_MAX := by
  -- in the range of the check `strtol` has not clamped
  have hrange : ∀ v, 0 ≤ clampLong v → clampLong v ≤ INT_MAX → clampLong v = v := by
    intro v h₁ h₂
    refine eq_of_clampLong_range (le_trans (by decide) h₁) h₂
  have hself : ∀ v, 0 ≤ v → v ≤ INT_MAX → clampLong v = v := by
    intro v h₁ h₂
    unfold clampLong LONG_MIN LONG_MAX
    unfold INT_MAX at h₂
    rw [if_neg (by omega), if_neg (by omega)]
  unfold parseCheckedId
  cases hp : parseId size request with
  | error a =>
    simp only [reduceCtorEq, false_iff, not_exists, not_and]
    intro t ht hw
    have hok : parseId size request = .ok (clampLong id) := parseId_eq_ok.mpr ⟨t, id, ht, hw, rfl⟩
    rw [hp] at hok
    cases hok
  | ok id' =>
    rcases parseId_eq_ok.mp hp with ⟨t, v, ht, hw, hid⟩
    subst hid
    simp only []
    constructor
    · intro h
      split at h
      · cases h
      · rename_i hr
        obtain rfl := Except.ok.inj h
        have hlo : 0 ≤ clampLong v := by omega
        have hhi : clampLong v ≤ INT_MAX := by omega
        have hv := hrange v hlo hhi
        rw [hv] at hlo hhi ⊢
        exact ⟨t, ht, hw, hlo, hhi⟩
    · rintro ⟨t', ht', hw', hlo, hhi⟩
      obtain rfl : t = t' := Option.some.inj (ht.symm.trans ht')
      obtain rfl : v = id := Option.some.inj (hw.symm.trans hw')
      rw [hself v hlo hhi, if_neg (by omega)]

/-- `PLACE_SPRITE` takes its ids from the first two tokens. -/
theorem parsePlaceSprite_ok {request : CStr} {cid sid x y : Int}
    (h : parsePlaceSprite request = .ok (cid, sid, x, y)) :
    (∃ t v, token 0 (strncpyBuf 128 request) = some t ∧ written t = some v ∧
      clampLong v = cid) ∧
    ∃ t v, token 1 (strncpyBuf 128 request) = some t ∧ written t = some v ∧
      clampLong v = sid := by
  unfold parsePlaceSprite at h
  simp only [] at h
  split at h
  · rename_i c s' xt yt hc hs _ _
    split at h
    · rename_i vc vs _ _ hvc hvs _ _
      -- four tokens, all four of them numbers
      cases h
      exact ⟨⟨c, (parseInt_eq_some (strtokR_ne_nil hc)).mp hvc |>.imp fun _ hv => ⟨hc, hv⟩⟩,
        ⟨s', (parseInt_eq_some (strtokR_ne_nil hs)).mp hvs |>.imp fun _ hv => ⟨hs, hv⟩⟩⟩
    · cases h
  · cases h

theorem parsePlaceSprite_error {request : CStr} {a : Int}
    (h : parsePlaceSprite request = .error a) : a < 0 := by
  unfold parsePlaceSprite at h
  simp only [] at h
  split at h
  · split at h
    · cases h
    · cases h
      decide
  · cases h
    decide

/-- `SET_ANIM_PARAM` takes its id from the first token. -/
theorem parseAnimParam_ok {request : CStr} {id vx vy ax ay : Int}
    (h : parseAnimParam request = .ok (id, vx, vy, ax, ay)) :
    ∃ t v, token 0 (strncpyBuf 128 request) = some t ∧ written t = some v ∧
      clampLong v = id := by
  unfold parseAnimParam at h
  simp only [] at h
  split at h
  · rename_i t _ _ _ _ ht _ _ _ _
    split at h
    · rename_i v _ _ _ _ hv _ _ _ _
      cases h
      exact ⟨t, (parseInt_eq_some (strtokR_ne_nil ht)).mp hv |>.imp fun _ hv => ⟨ht, hv⟩⟩
    · cases h
  · cases h

theorem parseAnimParam_error {request : CStr} {a : Int}
    (h : parseAnimParam request = .error a) : a < 0 := by
  unfold parseAnimParam at h
  simp only [] at h
  split at h
  · split at h
    · cases h
    · cases h
      decide
  · cases h
    decide

/-- `SHARE` takes the canvas from the first token, and checks that it is an `int` before the cast.
-/
theorem parseShare_ok {request : CStr} {cid : Int} {user : CStr}
    (h : parseShare request = .ok (cid, user)) :
    0 ≤ cid ∧ cid ≤ INT_MAX ∧
    ∃ t, token 0 (strncpyBuf MAX_RPC_BUF_LEN request) = some t ∧ written t = some cid := by
  unfold parseShare at h
  simp only [] at h
  split at h
  · rename_i t _ ht _
    split at h
    · rename_i v hv
      split at h
      · cases h
      · rename_i hr
        cases h
        have hlo : 0 ≤ cid := by omega
        have hhi : cid ≤ INT_MAX := by omega
        rcases (parseInt_eq_some (strtokR_ne_nil ht)).mp hv with ⟨w, hw, hwc⟩
        -- an id that passes the check was not cut by strtol
        have heq : clampLong w = w :=
          eq_of_clampLong_range (hwc ▸ le_trans (by decide) hlo) (hwc ▸ hhi)
        exact ⟨hlo, hhi, t, ht, hw.trans (congrArg some (heq.symm.trans hwc))⟩
    · cases h
  · cases h

theorem parseShare_error {request : CStr} {a : Int}
    (h : parseShare request = .error a) : a < 0 := by
  unfold parseShare at h
  simp only [] at h
  split at h
  · split at h
    · split at h
      · cases h
        decide
      · cases h
    · cases h
      decide
  · cases h
    decide

/-! ## What a request names -/

/-- The tokens of the argument text that are ids, and the tables they index. -/
def named : TaskType → List (ObjKind × Nat)
  | .DESTROY_CANVAS | .SHARE => [(.canvas, 0)]
  | .DESTROY_SPRITE => [(.sprite, 0)]
  | .PLACE_SPRITE => [(.canvas, 0), (.sprite, 1)]
  | .PLACEMENT_UP | .PLACEMENT_DOWN | .PLACEMENT_TOP | .PLACEMENT_BOTTOM
  | .DESTROY_PLACEMENT | .SET_ANIM_PARAM => [(.placement, 0)]
  | _ => []

/-- The number of entries of a table. -/
def entries (w : World) : ObjKind → Nat
  | .canvas => w.canvases.count
  | .sprite => w.sprites.count
  | .placement => w.placements.count

/-- The integer written in the whole of token `n`. -/
def writtenAt (n : Nat) (request : CStr) : Option Int := (token n request).bind written

/-- The command acts on the entries its tokens denote and on no others, and refuses a
token that denotes no entry. -/
structure ActsOnNamed (type : TaskType) (request : CStr) (w : World) (ran : Ran) : Prop where
  touches : ∀ kind n, (kind, n) ∈ named type → ∀ i, (kind, i) ∈ ran.touched →
    writtenAt n request = some (i : Int)
  refuses : ∀ kind n, (kind, n) ∈ named type → ∀ v, writtenAt n request = some v →
    ¬ (0 ≤ v ∧ v < entries w kind) →
    (∃ rv, ran.retval = some rv ∧ rv.a < 0) ∧ ∀ i, (kind, i) ∉ ran.touched

/-! ## Handlers with one id -/

/-- A handler that parses one id, looks it up in `t` and touches nothing else. -/
structure LooksUp {ε : Type} (kind : ObjKind) (parsed : Except Int Int) (t : Table ε)
    (ran : Ran) : Prop where
  refused : ∀ a, parsed = .error a → ran.touched = [] ∧ ran.retval = some (ret1 a)
  missing : ∀ id, parsed = .ok id → t.lookup (toInt id) = none →
    ran.touched = [] ∧ ∃ a < 0, ran.retval = some (ret1 a)
  found : ∀ id j, parsed = .ok id → t.lookup (toInt id) = some j → ran.touched = [(kind, j)]

/-- Such a handler acts on what its request names if and only if the index it looks up
is the integer written in the request. -/
theorem LooksUp.actsOnNamed_iff {ε : Type} {kind : ObjKind} {parsed : Except Int Int}
    {t : Table ε} {ran : Ran} (h : LooksUp kind parsed t ran)
    (hneg : ∀ a, parsed = .error a → a < 0) {type : TaskType} (hnamed : named type = [(kind, 0)])
    {w : World} (hcount : entries w kind = t.count) {request : CStr} :
    ActsOnNamed type request w ran ↔
      ∀ id j, parsed = .ok id → t.lookup (toInt id) = some j →
        writtenAt 0 request = some (j : Int) := by
  constructor
  · intro hacts id j hid hj
    refine hacts.touches kind 0 (by simp [hnamed]) j ?_
    rw [h.found id j hid hj]
    exact List.mem_singleton.mpr rfl
  · intro hsame
    -- whatever is touched was found by the lookup
    have htouched : ∀ i, (kind, i) ∈ ran.touched →
        writtenAt 0 request = some (i : Int) ∧ i < t.count := by
      intro i hi
      cases hp : parsed with
      | error a => simp [(h.refused a hp).1] at hi
      | ok id =>
        cases hj : t.lookup (toInt id) with
        | none => simp [(h.missing id hp hj).1] at hi
        | some j =>
          rw [h.found id j hp hj] at hi
          obtain rfl : i = j := by simpa using hi
          exact ⟨hsame id i hp hj, (Table.lookup_eq_some hj).2⟩
    constructor
    · intro k n hkn i hi
      obtain ⟨rfl, rfl⟩ : k = kind ∧ n = 0 := by simpa [hnamed] using hkn
      exact (htouched i hi).1
    · intro k n hkn v hv hout
      obtain ⟨rfl, rfl⟩ : k = kind ∧ n = 0 := by simpa [hnamed] using hkn
      have hnone : ∀ i, (k, i) ∉ ran.touched := by
        intro i hi
        rcases htouched i hi with ⟨hwi, hlt⟩
        rw [hv] at hwi
        obtain rfl := Option.some.inj hwi
        rw [hcount] at hout
        omega
      refine ⟨?_, hnone⟩
      cases hp : parsed with
      | error a => exact ⟨ret1 a, (h.refused a hp).2, hneg a hp⟩
      | ok id =>
        cases hj : t.lookup (toInt id) with
        | none =>
          rcases (h.missing id hp hj).2 with ⟨a, ha, hret⟩
          exact ⟨ret1 a, hret, ha⟩
        | some j =>
          refine absurd ?_ (hnone j)
          rw [h.found id j hp hj]
          exact List.mem_singleton.mpr rfl

/-- Each of these handlers looks up the id that its parser has found, and touches the entry with
that index. -/
theorem looksUp_destroyCanvas (request : CStr) (w : World) :
    LooksUp .canvas (parseId MAX_RPC_BUF_LEN request) w.canvases (destroyCanvas request w) := by
  refine ⟨fun a ha => ?_, fun id hid hnone => ?_, fun id j hid hj => ?_⟩
  · simp [destroyCanvas, ha, World.reply]
  · refine ⟨by simp [destroyCanvas, hid, hnone, World.reply], -1, by decide, ?_⟩
    simp [destroyCanvas, hid, hnone, World.reply]
  · simp only [destroyCanvas, hid, hj]
    cases w.canvases.entryAt j with
    | none => rfl
    | some ce =>
      simp only []
      split <;> rfl

theorem looksUp_destroySprite (env : Env) (request : CStr) (w : World) :
    LooksUp .sprite (parseCheckedId 64 request) w.sprites (destroySprite env request w) := by
  refine ⟨fun a ha => ?_, fun id hid hnone => ?_, fun id j hid hj => ?_⟩
  · simp [destroySprite, ha, World.reply]
  · refine ⟨by simp [destroySprite, hid, hnone, World.reply], -1, by decide, ?_⟩
    simp [destroySprite, hid, hnone, World.reply]
  · simp only [destroySprite, hid, hj]
    cases w.sprites.entryAt j with
    | none => rfl
    | some se =>
      simp only []
      split <;> rfl

/-- An id without an entry is answered by -2. -/
theorem onPlacement_none {id : Int} {w : World} {act : Handle → World × List Effect}
    (h : w.placements.lookup (toInt id) = none) :
    onPlacement id w act = w.reply (ret1 (-2)) := by
  simp [onPlacement, h]

/-- An id with an entry touches it, whatever the call. -/
theorem touched_onPlacement {id : Int} {w : World} {act : Handle → World × List Effect} {j : Nat}
    (h : w.placements.lookup (toInt id) = some j) :
    (onPlacement id w act).touched = [(.placement, j)] := by
  simp only [onPlacement, h]
  cases w.placements.entryAt j with
  | none => rfl
  | some pe =>
    simp only []
    split <;> rfl

/-- The handlers that look a placement up by its id and act on it. -/
theorem looksUp_onPlacement {parsed : Except Int Int} {w : World} {ran : Ran}
    (herr : ∀ a, parsed = .error a → ran = w.reply (ret1 a))
    (hok : ∀ id, parsed = .ok id → ∃ act, ran = onPlacement id w act) :
    LooksUp .placement parsed w.placements ran := by
  refine ⟨fun a ha => ?_, fun id hid hnone => ?_, fun id j hid hj => ?_⟩
  · simp [herr a ha, World.reply]
  · rcases hok id hid with ⟨act, heq⟩
    rw [heq, onPlacement_none hnone]
    exact ⟨rfl, -2, by decide, rfl⟩
  · rcases hok id hid with ⟨act, heq⟩
    rw [heq, touched_onPlacement hj]

theorem looksUp_movePlacement (call : Handle → Effect) (request : CStr) (w : World) :
    LooksUp .placement (parseCheckedId 64 request) w.placements
      (movePlacement call request w) := by
  refine looksUp_onPlacement (fun a ha => ?_) (fun id hid => ⟨fun pl => (w, [call pl]), ?_⟩)
  · simp [movePlacement, ha]
  · simp only [movePlacement, hid]

theorem looksUp_destroyPlacement (request : CStr) (w : World) :
    LooksUp .placement (parseCheckedId 64 request) w.placements
      (destroyPlacement request w) := by
  refine looksUp_onPlacement (fun a ha => ?_)
    (fun id hid => ⟨fun _ => w.placementRemove (toInt id), ?_⟩)
  · simp [destroyPlacement, ha]
  · simp only [destroyPlacement, hid]

theorem looksUp_setAnimParam (request : CStr) (w : World) :
    LooksUp .placement ((parseAnimParam request).map Prod.fst) w.placements
      (setAnimParam request w) := by
  unfold setAnimParam
  cases hp : parseAnimParam request with
  | error a =>
    exact looksUp_onPlacement (fun b hb => by cases hb; rfl) (fun id hid => by cases hid)
  | ok p =>
    rcases p with ⟨id, vx, vy, ax, ay⟩
    refine looksUp_onPlacement (fun b hb => by cases hb) (fun id' hid => ?_)
    cases hid
    exact ⟨_, rfl⟩

/-- `SHARE` looks up the canvas before it looks for the user. -/
theorem looksUp_share (request : CStr) (r : ClientRegistry) (w : World) :
    LooksUp .canvas ((parseShare request).map Prod.fst) w.canvases (share request r w) := by
  cases hp : parseShare request with
  | error a =>
    refine ⟨fun b hb => ?_, fun id hid _ => (by cases hid), fun id _ hid _ => (by cases hid)⟩
    cases hb
    simp [share, hp, World.reply]
  | ok p =>
    rcases p with ⟨cid, user⟩
    refine ⟨fun b hb => (by cases hb), fun id hid hnone => ?_, fun id j hid hj => ?_⟩
    · cases hid
      refine ⟨by simp [share, hp, hnone, World.reply], -2, by decide, ?_⟩
      simp [share, hp, hnone, World.reply]
    · cases hid
      simp only [share, hp, hj]
      -- whatever comes after the lookup, only this canvas is touched
      cases w.canvases.entryAt j with
      | none => rfl
      | some ce =>
        simp only []
        repeat (first | rfl | split)

/-! ## When the id survives -/

/-- The integer written in `tok` is in the range of `int`, or what the conversion to
`int` makes of it is no index into `t`. -/
def Narrows {ε : Type} (t : Table ε) (tok : CStr) : Prop :=
  ∀ v, written tok = some v →
    (INT_MIN ≤ v ∧ v ≤ INT_MAX) ∨ t.lookup (toInt (clampLong v)) = none

/-- The first token ends within the 63 bytes a 64-byte buffer holds, or the part of it
in there is no index into `t`, or it denotes the integer the whole token denotes. -/
def Survives {ε : Type} (t : Table ε) (request : CStr) : Prop :=
  ∀ tok, token 0 (request.take 63) = some tok →
    token 0 request = some tok ∨
    (∀ v, written tok = some v → v < 0 ∨ INT_MAX < v ∨ t.lookup v = none) ∨
    writtenAt 0 request = written tok

/-- The canvas a `PLACE_SPRITE` looks up is live, so that the sprite is looked at. -/
def CanvasLive (w : World) (tok : CStr) : Prop :=
  ∃ v i ce, written tok = some v ∧ w.canvases.lookup (toInt (clampLong v)) = some i ∧
    w.canvases.entryAt i = some ce ∧ ce.ptr ≠ none

/-- The canvas a `PLACE_SPRITE` looks up is a cell of an array that a failed growth has
lost. -/
def CanvasLost (w : World) (tok : CStr) : Prop :=
  ∃ v i, written tok = some v ∧ w.canvases.lookup (toInt (clampLong v)) = some i ∧
    w.canvases.entryAt i = none

/-- Nothing of an id is lost on the way from the request to the table. -/
def IdsSurvive (type : TaskType) (request : CStr) (w : World) : Prop :=
  match type with
  | .DESTROY_CANVAS =>
    (parseId MAX_RPC_BUF_LEN request).isOk → ∀ tok, token 0 request = some tok →
      Narrows w.canvases tok
  | .SET_ANIM_PARAM =>
    (parseAnimParam request).isOk → ∀ tok, token 0 request = some tok → Narrows w.placements tok
  | .PLACE_SPRITE =>
    (parsePlaceSprite request).isOk → ∀ ctok stok,
      token 0 request = some ctok → token 1 request = some stok →
      Narrows w.canvases ctok ∧ (CanvasLive w ctok → Narrows w.sprites stok) ∧
      (CanvasLost w ctok → ∃ v, written stok = some v ∧ 0 ≤ v ∧ v < w.sprites.count)
  | .DESTROY_SPRITE => Survives w.sprites request
  | .PLACEMENT_UP | .PLACEMENT_DOWN | .PLACEMENT_TOP | .PLACEMENT_BOTTOM
  | .DESTROY_PLACEMENT => Survives w.placements request
  | _ => True

/-- The index looked up for a written integer is that integer if and only if it is in
the range of `int`. -/
theorem index_eq_iff {ε : Type} {t : Table ε} {v : Int} {j : Nat}
    (h : t.lookup (toInt (clampLong v)) = some j) :
    v = j ↔ INT_MIN ≤ v ∧ v ≤ INT_MAX := by
  rw [← toInt_clampLong_eq_iff, (Table.lookup_eq_some h).1]
  exact eq_comm

/-- The cut to `int` does no harm exactly if it finds no entry for a number that is not its index.
-/
theorem narrows_iff {ε : Type} {t : Table ε} {tok : CStr} :
    Narrows t tok ↔ ∀ v j, written tok = some v → t.lookup (toInt (clampLong v)) = some j →
      v = j := by
  constructor
  · intro h v j hv hj
    rcases h v hv with hr | hnone
    · exact (index_eq_iff hj).mpr hr
    · rw [hnone] at hj
      cases hj
  · intro h v hv
    cases hj : t.lookup (toInt (clampLong v)) with
    | none => exact Or.inr rfl
    | some j => exact Or.inl ((index_eq_iff hj).mp (h v j hv hj))

/-- For a token that is a number it is enough to look at that number. -/
theorem narrows_of_written {ε : Type} {t : Table ε} {tok : CStr} {v : Int}
    (hv : written tok = some v) :
    Narrows t tok ↔ ∀ j : Nat, t.lookup (toInt (clampLong v)) = some j → v = j := by
  rw [narrows_iff]
  constructor
  · intro h j hj
    exact h v j hv hj
  · intro h v' j hv' hj
    obtain rfl : v = v' := Option.some.inj (hv.symm.trans hv')
    exact h j hj

/-- An id without a range check. -/
theorem unchecked_iff {ε : Type} {t : Table ε} {parsed : Except Int Int} {request : CStr}
    (hok : ∀ id, parsed = .ok id → ∃ tok v, token 0 request = some tok ∧
      written tok = some v ∧ clampLong v = id) :
    (∀ id j, parsed = .ok id → t.lookup (toInt id) = some j →
        writtenAt 0 request = some (j : Int)) ↔
      (parsed.isOk → ∀ tok, token 0 request = some tok → Narrows t tok) := by
  cases hp : parsed with
  | error a => simp [Except.isOk, Except.toBool]
  | ok id =>
    rcases hok id hp with ⟨tok, v, htok, hv, rfl⟩
    have hw : writtenAt 0 request = some v := by simp [writtenAt, htok, hv]
    simp only [Except.ok.injEq, hw, Except.isOk, Except.toBool, htok, Option.some.injEq,
      narrows_iff, hv, forall_const, forall_eq']
    -- the id looked up is the number written, clamped to long and cut to int
    constructor
    · rintro h v' j rfl hj
      exact h _ j rfl hj
    · intro h id j hid hj
      exact h v j rfl (hid ▸ hj)

/-- An id with a range check, in a 64-byte buffer. -/
theorem checked_iff {ε : Type} {t : Table ε} {request : CStr} :
    (∀ id j, parseCheckedId 64 request = .ok id → t.lookup (toInt id) = some j →
        writtenAt 0 request = some (j : Int)) ↔ Survives t request := by
  -- an id that passed the check is cut to itself
  have htoInt : ∀ v, 0 ≤ v → v ≤ INT_MAX → toInt v = v := fun v h₁ h₂ =>
    toInt_of_range (le_trans (by decide) h₁) h₂
  constructor
  · intro h tok htok
    by_cases hw : ∀ v, written tok = some v → v < 0 ∨ INT_MAX < v ∨ t.lookup v = none
    · exact Or.inr (Or.inl hw)
    · push Not at hw
      rcases hw with ⟨v, hv, hlo, hhi, hne⟩
      rcases Option.ne_none_iff_exists'.mp hne with ⟨j, hj⟩
      have hid : parseCheckedId 64 request = .ok v :=
        parseCheckedId_eq_ok.mpr ⟨tok, htok, hv, hlo, hhi⟩
      refine Or.inr (Or.inr ?_)
      rw [h v j hid (by rwa [htoInt v hlo hhi]), hv, (Table.lookup_eq_some hj).1]
  · intro h id j hid hj
    rcases parseCheckedId_eq_ok.mp hid with ⟨tok, htok, hw, hlo, hhi⟩
    rw [htoInt id hlo hhi] at hj
    have hidj : written tok = some (j : Int) := hw.trans (congrArg some (Table.lookup_eq_some hj).1)
    rcases h tok htok with hsame | hnone | hsame
    · simp [writtenAt, hsame, hidj]
    · rcases hnone id hw with hneg | hbig | hl
      · omega
      · omega
      · rw [hl] at hj
        cases hj
    · rw [hsame, hidj]

/-- The handlers with one id in a 64-byte buffer. -/
theorem LooksUp.survives_iff {ε : Type} {kind : ObjKind} {t : Table ε} {ran : Ran}
    {request : CStr} (h : LooksUp kind (parseCheckedId 64 request) t ran) {type : TaskType}
    (hnamed : named type = [(kind, 0)]) {w : World} (hcount : entries w kind = t.count) :
    ActsOnNamed type request w ran ↔ Survives t request := by
  rw [h.actsOnNamed_iff (fun _ ha => parseCheckedId_error ha) hnamed hcount, checked_iff]

/-! ## `PLACE_SPRITE` -/

section PlaceSprite

variable {env : Env} {client : ClientRef} {request : CStr} {w : World} {cid sid x y : Int}

/-- `PLACE_SPRITE` stops at a request that its parser refuses. -/
theorem placeSprite_error {a : Int} (h : parsePlaceSprite request = .error a) :
    placeSprite env client request w = w.reply (ret1 a) := by
  simp [placeSprite, h]

/-- `PLACE_SPRITE` stops at a canvas that is not there. -/
theorem placeSprite_missing (h : parsePlaceSprite request = .ok (cid, sid, x, y))
    (hc : w.canvases.lookup (toInt cid) = none) :
    placeSprite env client request w = w.reply (ret1 (-2)) := by
  simp [placeSprite, h, hc]

/-- `PLACE_SPRITE` runs into undefined behaviour when the canvas table has been lost. -/
theorem placeSprite_lost (h : parsePlaceSprite request = .ok (cid, sid, x, y)) {ci : Nat}
    (hc : w.canvases.lookup (toInt cid) = some ci) (he : w.canvases.entryAt ci = none) :
    placeSprite env client request w = w.undefinedAt [(.canvas, ci)] := by
  simp [placeSprite, h, hc, he]

/-- `PLACE_SPRITE` stops at a canvas that is gone, and at a sprite that is not there. -/
theorem placeSprite_dead (h : parsePlaceSprite request = .ok (cid, sid, x, y)) {ci : Nat}
    {ce : CanvasEntry} (hc : w.canvases.lookup (toInt cid) = some ci)
    (he : w.canvases.entryAt ci = some ce)
    (hd : ce.ptr = none ∨ w.sprites.lookup (toInt sid) = none) :
    placeSprite env client request w = w.replyAt [(.canvas, ci)] (ret1 (-2)) := by
  rcases hd with hd | hd
  · simp [placeSprite, h, hc, he, hd]
  · cases hp : ce.ptr <;> simp [placeSprite, h, hc, he, hd, hp]

/-- Where it goes on it touches both entries, and then at most that of the new placement. -/
theorem touched_placeSprite (env : Env) (client : ClientRef)
    (h : parsePlaceSprite request = .ok (cid, sid, x, y)) {ci si : Nat} {ce : CanvasEntry}
    (hc : w.canvases.lookup (toInt cid) = some ci)
    (he : w.canvases.entryAt ci = some ce) (hp : ce.ptr ≠ none)
    (hs : w.sprites.lookup (toInt sid) = some si) :
    ∃ rest, (placeSprite env client request w).touched =
        (.canvas, ci) :: (.sprite, si) :: rest ∧
      ∀ p ∈ rest, p.1 = ObjKind.placement := by
  rcases Option.ne_none_iff_exists'.mp hp with ⟨cv, hcv⟩
  simp only [placeSprite, h, hc, he, hcv, hs]
  -- after both lookups only a new placement can be touched as well
  cases w.sprites.entryAt si with
  | none => exact ⟨[], rfl, by simp⟩
  | some se =>
    simp only []
    cases se.ptr with
    | none => exact ⟨[], rfl, by simp⟩
    | some sp =>
      simp only [keepPlacement]
      cases env.create with
      | none => exact ⟨[], rfl, by simp⟩
      | some pl =>
        simp only []
        split
        · exact ⟨[], rfl, by simp⟩
        · rename_i id _ _
          exact ⟨[(.placement, id)], rfl, by simp⟩

/-- The entries `PLACE_SPRITE` looks at are those its tokens denote. -/
theorem placeSprite_touches (env : Env) (client : ClientRef)
    (h : parsePlaceSprite request = .ok (cid, sid, x, y)) {vc vs : Int}
    (hcanvas : ∀ j, w.canvases.lookup (toInt cid) = some j → vc = j)
    (hsprite : ∀ ci ce, w.canvases.lookup (toInt cid) = some ci →
      w.canvases.entryAt ci = some ce → ce.ptr ≠ none →
      ∀ j, w.sprites.lookup (toInt sid) = some j → vs = j) :
    (∀ i, (ObjKind.canvas, i) ∈ (placeSprite env client request w).touched →
      vc = i ∧ i < w.canvases.count) ∧
    ∀ i, (ObjKind.sprite, i) ∈ (placeSprite env client request w).touched →
      vs = i ∧ i < w.sprites.count := by
  cases hc : w.canvases.lookup (toInt cid) with
  | none =>
    -- no canvas: the sprite is not looked up
    rw [placeSprite_missing h hc]
    simp [World.reply]
  | some ci =>
    have hci : vc = ci ∧ ci < w.canvases.count := ⟨hcanvas ci hc, (Table.lookup_eq_some hc).2⟩
    cases he : w.canvases.entryAt ci with
    | none =>
      rw [placeSprite_lost h hc he]
      simpa [World.undefinedAt] using hci
    | some ce =>
      by_cases hd : ce.ptr = none ∨ w.sprites.lookup (toInt sid) = none
      · rw [placeSprite_dead h hc he hd]
        simpa [World.replyAt] using hci
      · rw [not_or] at hd
        rcases Option.ne_none_iff_exists'.mp hd.2 with ⟨si, hs⟩
        rcases touched_placeSprite env client h hc he hd.1 hs with ⟨rest, htouched, hrest⟩
        have hsi : vs = si ∧ si < w.sprites.count :=
          ⟨hsprite ci ce hc he hd.1 si hs, (Table.lookup_eq_some hs).2⟩
        -- what comes after the canvas and the sprite is a placement
        have hno : ∀ k i, k ≠ ObjKind.placement → (k, i) ∉ rest := fun k i hk hm =>
          hk (hrest _ hm)
        rw [htouched]
        constructor
        · intro i hi
          obtain rfl : i = ci := by simpa [hno ObjKind.canvas i (by decide)] using hi
          exact hci
        · intro i hi
          obtain rfl : i = si := by simpa [hno ObjKind.sprite i (by decide)] using hi
          exact hsi

/-- The reply of `PLACE_SPRITE` is negative if the canvas is missing or dead or the
sprite is missing. -/
theorem placeSprite_negative (h : parsePlaceSprite request = .ok (cid, sid, x, y))
    (hnone : ∀ ci, w.canvases.lookup (toInt cid) = some ci → ∃ ce,
      w.canvases.entryAt ci = some ce ∧
        (ce.ptr = none ∨ w.sprites.lookup (toInt sid) = none)) :
    ∃ rv, (placeSprite env client request w).retval = some rv ∧ rv.a < 0 := by
  refine ⟨ret1 (-2), ?_, by decide⟩
  cases hc : w.canvases.lookup (toInt cid) with
  | none =>
    rw [placeSprite_missing h hc]
    rfl
  | some ci =>
    rcases hnone ci hc with ⟨ce, he, hd⟩
    rw [placeSprite_dead h hc he hd]
    rfl

/-- The case of a request that parses, with the integers written in its tokens. -/
theorem placeSprite_actsOnNamed_iff (h : parsePlaceSprite request = .ok (cid, sid, x, y))
    {ctok stok : CStr} {vc vs : Int} (hct : token 0 request = some ctok)
    (hst : token 1 request = some stok) (hvc : written ctok = some vc)
    (hvs : written stok = some vs) (hcid : clampLong vc = cid) (hsid : clampLong vs = sid) :
    ActsOnNamed .PLACE_SPRITE request w (placeSprite env client request w) ↔
      Narrows w.canvases ctok ∧ (CanvasLive w ctok → Narrows w.sprites stok) ∧
        (CanvasLost w ctok → ∃ v, written stok = some v ∧ 0 ≤ v ∧ v < w.sprites.count) := by
  have hw0 : writtenAt 0 request = some vc := by simp [writtenAt, hct, hvc]
  have hw1 : writtenAt 1 request = some vs := by simp [writtenAt, hst, hvs]
  subst hcid hsid
  rw [narrows_of_written hvc, narrows_of_written hvs]
  constructor
  · intro hacts
    have hcanvas : ∀ i, (ObjKind.canvas, i) ∈ (placeSprite env client request w).touched →
        vc = i := fun i hi =>
      Option.some.inj (hw0.symm.trans (hacts.touches .canvas 0 (by simp [named]) i hi))
    have hsprite : ∀ i, (ObjKind.sprite, i) ∈ (placeSprite env client request w).touched →
        vs = i := fun i hi =>
      Option.some.inj (hw1.symm.trans (hacts.touches .sprite 1 (by simp [named]) i hi))
    refine ⟨fun j hj => hcanvas j ?_, ?_, ?_⟩
    · cases he : w.canvases.entryAt j with
      | none => simp [placeSprite_lost h hj he, World.undefinedAt]
      | some ce =>
        by_cases hd : ce.ptr = none ∨ w.sprites.lookup (toInt (clampLong vs)) = none
        · simp [placeSprite_dead h hj he hd, World.replyAt]
        · rw [not_or] at hd
          rcases Option.ne_none_iff_exists'.mp hd.2 with ⟨si, hs⟩
          rcases touched_placeSprite env client h hj he hd.1 hs with ⟨rest, htouched, -⟩
          simp [htouched]
    · rintro ⟨v, ci, ce, hv, hc, he, hp⟩ j hs
      obtain rfl : vc = v := Option.some.inj (hvc.symm.trans hv)
      rcases touched_placeSprite env client h hc he hp hs with ⟨rest, htouched, -⟩
      exact hsprite j (by simp [htouched])
    · rintro ⟨v, ci, hv, hc, he⟩
      obtain rfl : vc = v := Option.some.inj (hvc.symm.trans hv)
      refine ⟨vs, hvs, ?_⟩
      by_contra hout
      -- nothing is answered, so the sprite's token denotes an entry
      rcases hacts.refuses .sprite 1 (by simp [named]) vs hw1 hout with ⟨⟨rv, hrv, -⟩, -⟩
      simp [placeSprite_lost h hc he, World.undefinedAt] at hrv
  · rintro ⟨hcanvas, hlive, hlost⟩
    have hsprite : ∀ ci ce, w.canvases.lookup (toInt (clampLong vc)) = some ci →
        w.canvases.entryAt ci = some ce → ce.ptr ≠ none →
        ∀ j, w.sprites.lookup (toInt (clampLong vs)) = some j → vs = j :=
      fun ci ce hc he hp => hlive ⟨vc, ci, ce, hvc, hc, he, hp⟩
    rcases placeSprite_touches env client h hcanvas hsprite with ⟨htc, hts⟩
    constructor
    · intro k n hkn i hi
      rcases (by simpa [named] using hkn : k = .canvas ∧ n = 0 ∨ k = .sprite ∧ n = 1) with
        ⟨rfl, rfl⟩ | ⟨rfl, rfl⟩
      · rw [hw0, (htc i hi).1]
      · rw [hw1, (hts i hi).1]
    · intro k n hkn v hv hout
      rcases (by simpa [named] using hkn : k = .canvas ∧ n = 0 ∨ k = .sprite ∧ n = 1) with
        ⟨rfl, rfl⟩ | ⟨rfl, rfl⟩
      · obtain rfl : vc = v := Option.some.inj (hw0.symm.trans hv)
        have hnone : w.canvases.lookup (toInt (clampLong vc)) = none := by
          cases hc : w.canvases.lookup (toInt (clampLong vc)) with
          | none => rfl
          | some j =>
            have hj := hcanvas j hc
            have hlt := (Table.lookup_eq_some hc).2
            simp only [entries] at hout
            omega
        refine ⟨placeSprite_negative h (fun ci hc => ?_), fun i hi => ?_⟩
        · rw [hnone] at hc
          cases hc
        rw [placeSprite_missing h hnone] at hi
        simp [World.reply] at hi
      · obtain rfl : vs = v := Option.some.inj (hw1.symm.trans hv)
        have htouch : ∀ i, (ObjKind.sprite, i) ∉ (placeSprite env client request w).touched := by
          intro i hi
          rcases hts i hi with ⟨hvi, hlt⟩
          simp only [entries] at hout
          omega
        refine ⟨placeSprite_negative h fun ci hc => ?_, htouch⟩
        cases he : w.canvases.entryAt ci with
        | none =>
          rcases hlost ⟨vc, ci, hvc, hc, he⟩ with ⟨v, hv', hlo, hhi⟩
          obtain rfl : vs = v := Option.some.inj (hvs.symm.trans hv')
          exact absurd ⟨hlo, hhi⟩ hout
        | some ce =>
          refine ⟨ce, rfl, ?_⟩
          by_contra hd
          rw [not_or] at hd
          rcases Option.ne_none_iff_exists'.mp hd.2 with ⟨j, hj⟩
          have hvj := hsprite ci ce hc he hd.1 j hj
          have hlt := (Table.lookup_eq_some hj).2
          simp only [entries] at hout
          omega

end PlaceSprite

section Commands

variable {env : Env} {client : ClientRef} {request : CStr} {r : ClientRegistry} {w : World}

theorem error_of_map {α β : Type} {f : α → β} {p : Except Int α} {a : Int}
    (h : p.map f = .error a) : p = .error a := by
  cases p with
  | error b =>
    cases h
    rfl
  | ok x => cases h

/-- What comes out of a parser comes out of the part of it that is mapped. -/
theorem ok_of_map {α β : Type} {f : α → β} {p : Except Int α} {y : β} (h : p.map f = .ok y) :
    ∃ x, p = .ok x ∧ f x = y := by
  cases p with
  | error b => cases h
  | ok x =>
    cases h
    exact ⟨x, rfl, rfl⟩

/-- `destroy_canvas` looks up its id without a check of its range. -/
theorem destroyCanvas_actsOnNamed_iff (hwhole : strncpyBuf MAX_RPC_BUF_LEN request = request) :
    ActsOnNamed .DESTROY_CANVAS request w (runRpc .DESTROY_CANVAS env client request r w) ↔
      IdsSurvive .DESTROY_CANVAS request w := by
  have hok : ∀ id, parseId MAX_RPC_BUF_LEN request = .ok id → ∃ tok v,
      token 0 request = some tok ∧ written tok = some v ∧ clampLong v = id := by
    intro id hid
    rw [← hwhole]
    exact parseId_eq_ok.mp hid
  exact ((looksUp_destroyCanvas request w).actsOnNamed_iff (fun _ ha => parseId_error ha)
    rfl rfl).trans (unchecked_iff hok)

/-- So does `set_anim_param`, once its other arguments parse. -/
theorem setAnimParam_actsOnNamed_iff (hwhole : strncpyBuf MAX_RPC_BUF_LEN request = request) :
    ActsOnNamed .SET_ANIM_PARAM request w (runRpc .SET_ANIM_PARAM env client request r w) ↔
      IdsSurvive .SET_ANIM_PARAM request w := by
  have hok : ∀ id, (parseAnimParam request).map Prod.fst = .ok id → ∃ tok v,
      token 0 request = some tok ∧ written tok = some v ∧ clampLong v = id := by
    intro id hid
    rcases ok_of_map hid with ⟨⟨id', vx, vy, ax, ay⟩, hp, rfl⟩
    rw [← hwhole]
    exact parseAnimParam_ok hp
  refine ((looksUp_setAnimParam request w).actsOnNamed_iff
    (fun _ ha => parseAnimParam_error (error_of_map ha)) rfl rfl).trans
    ((unchecked_iff hok).trans ?_)
  cases hp : parseAnimParam request <;> simp [IdsSurvive, hp, Except.map, Except.isOk,
    Except.toBool]

/-- `share` checks the range of its id, so nothing can go wrong. -/
theorem share_actsOnNamed_iff (hwhole : strncpyBuf MAX_RPC_BUF_LEN request = request) :
    ActsOnNamed .SHARE request w (runRpc .SHARE env client request r w) ↔
      IdsSurvive .SHARE request w := by
  refine ((looksUp_share request r w).actsOnNamed_iff
    (fun _ ha => parseShare_error (error_of_map ha)) rfl rfl).trans (iff_of_true ?_ trivial)
  intro id j hid hj
  rcases ok_of_map hid with ⟨⟨cid, user⟩, hp, rfl⟩
  rcases parseShare_ok hp with ⟨hlo, hhi, tok, htok, hv⟩
  rw [hwhole] at htok
  rw [toInt_of_range (le_trans (by decide) hlo) hhi] at hj
  simp [writtenAt, htok, hv, (Table.lookup_eq_some hj).1]

/-- `place_sprite` names two entries, the second behind the first. -/
theorem placeSprite_actsOnNamed_iff_survive
    (hwhole : strncpyBuf MAX_RPC_BUF_LEN request = request) :
    ActsOnNamed .PLACE_SPRITE request w (runRpc .PLACE_SPRITE env client request r w) ↔
      IdsSurvive .PLACE_SPRITE request w := by
  cases hp : parsePlaceSprite request with
  | error a =>
    have hran : runRpc .PLACE_SPRITE env client request r w = w.reply (ret1 a) :=
      placeSprite_error hp
    rw [hran]
    refine iff_of_true ⟨?_, ?_⟩ ?_
    · intro k n _ i hi
      simp [World.reply] at hi
    · intro k n _ v _ _
      exact ⟨⟨ret1 a, rfl, parsePlaceSprite_error hp⟩, fun i hi => by simp [World.reply] at hi⟩
    · simp [IdsSurvive, hp, Except.isOk, Except.toBool]
  | ok p =>
    rcases p with ⟨cid, sid, x, y⟩
    rcases parsePlaceSprite_ok hp with ⟨⟨ctok, vc, hct, hvc, hcid⟩, stok, vs, hst, hvs, hsid⟩
    -- the handler cuts at 128, where every request line ends anyway
    rw [show strncpyBuf 128 request = request from hwhole] at hct hst
    refine (placeSprite_actsOnNamed_iff hp hct hst hvc hvs hcid hsid).trans ?_
    simp [IdsSurvive, hp, Except.isOk, Except.toBool, hct, hst]

end Commands

/-- The reply of a command and the entries it looks at agree with the text of the
request exactly when no id is changed on its way into the table. -/
theorem acts_on_named_iff (type : TaskType) (env : Env) (client : ClientRef) (request : CStr)
    (r : ClientRegistry) (w : World) (hlen : request.length ≤ 127) :
    ActsOnNamed type request w (runRpc type env client request r w) ↔
      IdsSurvive type request w := by
  have hwhole : strncpyBuf MAX_RPC_BUF_LEN request = request := strncpyBuf_of_le hlen
  have hvacuous : named type = [] → ∀ ran, ActsOnNamed type request w ran := by
    intro hnil ran
    exact ⟨fun k n hkn => by simp [hnil] at hkn, fun k n hkn => by simp [hnil] at hkn⟩
  cases type with
  | DESTROY_CANVAS => exact destroyCanvas_actsOnNamed_iff hwhole
  | SET_ANIM_PARAM => exact setAnimParam_actsOnNamed_iff hwhole
  | SHARE => exact share_actsOnNamed_iff hwhole
  | PLACE_SPRITE => exact placeSprite_actsOnNamed_iff_survive hwhole
  | DESTROY_SPRITE => exact (looksUp_destroySprite env request w).survives_iff rfl rfl
  | PLACEMENT_UP => exact (looksUp_movePlacement _ request w).survives_iff rfl rfl
  | PLACEMENT_DOWN => exact (looksUp_movePlacement _ request w).survives_iff rfl rfl
  | PLACEMENT_TOP => exact (looksUp_movePlacement _ request w).survives_iff rfl rfl
  | PLACEMENT_BOTTOM => exact (looksUp_movePlacement _ request w).survives_iff rfl rfl
  | DESTROY_PLACEMENT => exact (looksUp_destroyPlacement request w).survives_iff rfl rfl
  -- the others name no entry
  | HANDSHAKE | AUTHORISE | CREATE_CANVAS | CREATE_SPRITE | CREATE_RECTANGLE | CREATE_CIRCLE
  | GENERATE | BARRIER => exact iff_of_true (hvacuous rfl _) trivial

/-- The tables after a first `create_canvas 10 10 0`. -/
def oneCanvas : World :=
  (createCanvas (.allSucceed 7) 0 "10 10 0".toList .init).world

theorem reachable_oneCanvas : tables.Reachable oneCanvas :=
  .step (.init rfl) (l := .rpc .CREATE_CANVAS (.allSucceed 7) 0 "10 10 0".toList .init) rfl

theorem acts_on_named_oneCanvas :
    ActsOnNamed .DESTROY_CANVAS " 0 ".toList oneCanvas
      (runRpc .DESTROY_CANVAS (.allSucceed 7) 0 " 0 ".toList .init oneCanvas) := by
  refine (acts_on_named_iff .DESTROY_CANVAS _ 0 _ .init oneCanvas (by decide)).mpr ?_
  intro _ tok htok v hv
  have h0 : token 0 " 0 ".toList = some "0".toList := by decide
  obtain rfl : "0".toList = tok := Option.some.inj (h0.symm.trans htok)
  have hw : written "0".toList = some 0 := by decide
  obtain rfl : 0 = v := Option.some.inj (hw.symm.trans hv)
  exact Or.inl (by decide)

/-- `destroy_canvas 4294967296` destroys canvas 0. -/
theorem destroys_canvas_not_named :
    ¬ ∀ w, tables.Reachable w → ∀ type env client request r, request.length ≤ 127 →
      ActsOnNamed type request w (runRpc type env client request r w) := by
  intro h
  have hacts := h oneCanvas reachable_oneCanvas .DESTROY_CANVAS (.allSucceed 7) 0
    "4294967296".toList .init (by decide)
  have hnamed := hacts.touches .canvas 0 (by decide) 0 (by decide)
  exact absurd hnamed (by decide)

end AnimateServer.ObjectIds
