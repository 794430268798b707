import AnimateServer.Verify.CommandCases

/-!
# Placements of destroyed canvases

In libanimate a placement goes with its canvas. The server keeps the two in tables
of their own: `canvas_remove` clears the entry of the canvas and leaves those of the
placements on it, so that a placement can be handed to libanimate after its canvas
was destroyed. Otherwise, every call is on a placement whose canvas is there.
-/

namespace AnimateServer.PlacementLife

open Transition CLib FailedRpc TableOwners CommandCases

/-! ## The library -/

/-- What libanimate has: the canvases, the canvas that each placement handle was last
created on, as long as that one has not been destroyed, and the placements. -/
structure Anim where
  canvases : Handle → Bool
  home : Handle → Option Handle
  placements : Handle → Bool

namespace Anim

def init : Anim where
  canvases := fun _ => false
  home := fun _ => none
  placements := fun _ => false

/-- A call. Destroying a canvas takes its placements along. -/
def exec (a : Anim) : Effect → Anim
  | .createCanvas _ _ _ (some cv) => { a with canvases := Function.update a.canvases cv true }
  | .destroyCanvas (some cv) =>
    { canvases := Function.update a.canvases cv false
      home := fun pl => if a.home pl = some cv then none else a.home pl
      placements := fun pl => if a.home pl = some cv then false else a.placements pl }
  | .placeSprite cv _ _ _ (some pl) =>
    { a with
      home := Function.update a.home pl (if a.canvases cv then some cv else none)
      placements := Function.update a.placements pl true }
  | .destroyPlacement (some pl) =>
    { a with placements := Function.update a.placements pl false }
  | _ => a

/-- The object is there. Sprites do not matter here. -/
def has (a : Anim) : ObjKind × Handle → Bool
  | (.canvas, cv) => a.canvases cv
  | (.sprite, _) => false
  | (.placement, pl) => a.placements pl

/-- The calls of a log. -/
def execAll (a : Anim) (log : List Effect) : Anim := log.foldl exec a

end Anim

/-- The placement that a call is about was created on a canvas that is still there. -/
def Sound (a : Anim) (call : Effect) : Prop := ∀ pl ∈ placementArg call, (a.home pl).isSome

instance (a : Anim) (call : Effect) : Decidable (Sound a call) :=
  inferInstanceAs (Decidable (∀ pl ∈ placementArg call, (a.home pl).isSome))

/-- Every call of the log is sound when it is made. -/
def AllSound : Anim → List Effect → Prop
  | _, [] => True
  | a, call :: log => Sound a call ∧ AllSound (a.exec call) log

instance decidableAllSound : ∀ (a : Anim) (log : List Effect), Decidable (AllSound a log)
  | _, [] => isTrue trivial
  | a, call :: log =>
    haveI := decidableAllSound (a.exec call) log
    inferInstanceAs (Decidable (Sound a call ∧ AllSound (a.exec call) log))

/-- A call that uses no placement is sound. -/
theorem sound_of_none {a : Anim} {call : Effect} (h : placementArg call = none) :
    Sound a call := by
  intro pl hpl
  rw [h] at hpl
  cases hpl

/-- The calls of a run are sound if those of its parts are. -/
theorem allSound_append : ∀ {a : Anim} {log log' : List Effect},
    AllSound a (log ++ log') ↔ AllSound a log ∧ AllSound (a.execAll log) log'
  | a, [], log' => by simp [AllSound, Anim.execAll]
  | a, call :: log, log' => by
    rw [List.cons_append, AllSound, AllSound, allSound_append, and_assoc]
    rfl

/-- What libanimate has after a run it has after its parts. -/
theorem execAll_append (a : Anim) (log log' : List Effect) :
    a.execAll (log ++ log') = (a.execAll log).execAll log' := by
  simp only [Anim.execAll, List.foldl_append]

/-! ## Assumption and condition -/

/-- A canvas or placement returned by libanimate is not one that it has already. -/
def Fresh (l : TableLbl) (p : World × List Effect) : Prop :=
  ∀ call ∈ effectsOf l p.1, ∀ o ∈ created call, (Anim.init.execAll p.2).has o = false

instance (l : TableLbl) (p : World × List Effect) : Decidable (Fresh l p) := by
  unfold Fresh
  infer_instance

/-- The entry of the canvas that `pe` was placed on has not been cleared. -/
def Stands (cs : Table CanvasEntry) (pe : PlacementEntry) : Prop :=
  ∀ ce ∈ cs.entryAt pe.canvas.index, ce.ptr ≠ none

/-- No live placement is on a canvas whose entry has been cleared. -/
def AllStand (w : World) : Prop :=
  ∀ i < w.placements.count, ∀ pe ∈ w.placements.entryAt i, pe.ptr ≠ none → Stands w.canvases pe

/-- Nor is it a canvas of `client`. -/
def StandsElsewhere (client : ClientRef) (cs : Table CanvasEntry) (pe : PlacementEntry) : Prop :=
  ∀ ce ∈ cs.entryAt pe.canvas.index, ce.ptr ≠ none ∧ ce.owner ≠ some client

/-- No live placement of `client` is on a canvas whose entry has been cleared or which is
its own. -/
def OwnStand (client : ClientRef) (w : World) : Prop :=
  ∀ i < w.placements.count, ∀ pe ∈ w.placements.entryAt i, pe.ptr ≠ none →
    pe.owner = some client → StandsElsewhere client w.canvases pe

/-- A live placement that the request looks up is on a canvas whose entry has not been
cleared. -/
def NamedStands (type : TaskType) (request : CStr) (w : World) : Prop :=
  ∀ i ∈ placementOf type request w, ∀ pe ∈ w.placements.entryAt i,
    pe.ptr ≠ none → Stands w.canvases pe

/-- The condition on a step: the placement it looks up stands, all stand when the canvas
table is lost, and those of a client that leaves stand on canvases of others. -/
def OnStanding (l : TableLbl) (w : World) : Prop :=
  match l with
  | .rpc type env _ request _ =>
    NamedStands type request w ∧
      (type = .CREATE_CANVAS → InsertLoses type env request w → AllStand w)
  | .cleanup client => OwnStand client w

instance (cs : Table CanvasEntry) (pe : PlacementEntry) : Decidable (Stands cs pe) := by
  unfold Stands
  infer_instance

instance (client : ClientRef) (cs : Table CanvasEntry) (pe : PlacementEntry) :
    Decidable (StandsElsewhere client cs pe) := by
  unfold StandsElsewhere
  infer_instance

instance (w : World) : Decidable (AllStand w) := by
  unfold AllStand
  infer_instance

instance (client : ClientRef) (w : World) : Decidable (OwnStand client w) := by
  unfold OwnStand
  infer_instance

instance (type : TaskType) (request : CStr) (w : World) :
    Decidable (NamedStands type request w) := by
  unfold NamedStands
  infer_instance

instance (l : TableLbl) (w : World) : Decidable (OnStanding l w) :=
  match l with
  | .rpc type env _ request _ =>
    inferInstanceAs (Decidable (NamedStands type request w ∧
      (type = .CREATE_CANVAS → InsertLoses type env request w → AllStand w)))
  | .cleanup client => inferInstanceAs (Decidable (OwnStand client w))

/-! ## The invariant -/

/-- Whether a placement stands depends on the cell of its canvas. -/
theorem stands_iff {cs : Table CanvasEntry} {pe : PlacementEntry} :
    Stands cs pe ↔ cell cs pe.canvas.index ≠ some none := by
  unfold Stands cell
  cases cs.entryAt pe.canvas.index with
  | none => simp
  | some ce => simp [Entry.ptr]

/-- Entry `i` of the placements is live and has the pointer `pl`. -/
structure Placed (ps : Table PlacementEntry) (i : Nat) (pe : PlacementEntry) (pl : Handle) :
    Prop where
  lt : i < ps.count
  entry : ps.entryAt i = some pe
  ptr : pe.ptr = some pl

/-- libanimate has the placement of the entry `pe`, on the canvas `cv`, and `cv` is in no
entry but the one it was placed on. -/
structure On (cs : Table CanvasEntry) (a : Anim) (pe : PlacementEntry) (pl cv : Handle) :
    Prop where
  placement : a.placements pl = true
  home : a.home pl = some cv
  canvas : a.canvases cv = true
  only : ∀ i < cs.count, cell cs i = some (some cv) → i = pe.canvas.index

/-- The tables and the library agree on the canvases, and on the placements that stand. -/
structure Tracks (cs : Table CanvasEntry) (ps : Table PlacementEntry) (a : Anim) : Prop where
  canvasArr : Attached cs
  placementArr : Attached ps
  canvas : ∀ i < cs.count, ∀ cv, cell cs i = some (some cv) → a.canvases cv = true
  canvas_inj : ∀ i < cs.count, ∀ j < cs.count, ∀ cv,
    cell cs i = some (some cv) → cell cs j = some (some cv) → i = j
  index : ∀ i pe pl, Placed ps i pe pl → pe.canvas.index < cs.count
  placed : ∀ i pe pl, Placed ps i pe pl → Stands cs pe → ∃ cv, On cs a pe pl cv
  placed_inj : ∀ i pe j pe' pl, Placed ps i pe pl → Stands cs pe → Placed ps j pe' pl →
    Stands cs pe' → i = j

namespace Tracks

variable {cs cs' : Table CanvasEntry} {ps ps' : Table PlacementEntry} {a : Anim}

/-- libanimate starts with nothing. -/
theorem init : Tracks .empty .empty .init where
  canvasArr := attached_empty
  placementArr := attached_empty
  canvas := fun i hi => absurd hi (Nat.not_lt_zero i)
  canvas_inj := fun i hi => absurd hi (Nat.not_lt_zero i)
  index := fun i _ _ hp => absurd hp.lt (Nat.not_lt_zero i)
  placed := fun i _ _ hp => absurd hp.lt (Nat.not_lt_zero i)
  placed_inj := fun i _ _ _ _ hp => absurd hp.lt (Nat.not_lt_zero i)

/-- A change of the canvases that no pointer shows. -/
theorem congr (h : Tracks cs ps a) (harr : Attached cs') (hcount : cs'.count = cs.count)
    (hcell : ∀ j, cell cs' j = cell cs j) : Tracks cs' ps a := by
  -- whether an entry stands is read off its canvas's cell
  have hstands : ∀ pe, Stands cs' pe ↔ Stands cs pe := by
    intro pe
    rw [stands_iff, stands_iff, hcell]
  constructor
  · exact harr
  · exact h.placementArr
  · intro i hi cv hcv
    exact h.canvas i (hcount ▸ hi) cv (hcell i ▸ hcv)
  · intro i hi j hj cv hicv hjcv
    exact h.canvas_inj i (hcount ▸ hi) j (hcount ▸ hj) cv (hcell i ▸ hicv) (hcell j ▸ hjcv)
  · intro i pe pl hp
    exact hcount ▸ h.index i pe pl hp
  · intro i pe pl hp hs
    rcases h.placed i pe pl hp ((hstands pe).mp hs) with ⟨cv, hon⟩
    refine ⟨cv, hon.placement, hon.home, hon.canvas, ?_⟩
    intro j hj hjcv
    exact hon.only j (hcount ▸ hj) (hcell j ▸ hjcv)
  · intro i pe j pe' pl hp hs hp' hs'
    exact h.placed_inj i pe j pe' pl hp ((hstands pe).mp hs) hp' ((hstands pe').mp hs')

/-- A canvas that is new to the library gets the cell at `count`. -/
theorem newCanvas (h : Tracks cs ps a) {cv : Handle} (ht wd : Nat) (bg : Int)
    (hfresh : a.canvases cv = false) (harr : Attached cs') (hcount : cs'.count = cs.count + 1)
    (hcell : ∀ j, cell cs' j = if j = cs.count then some (some cv) else cell cs j) :
    Tracks cs' ps (a.exec (.createCanvas ht wd bg (some cv))) := by
  -- a cell of the new table is the new one or one of before, and these have other pointers
  have hold : ∀ i < cs'.count, ∀ cv', cell cs' i = some (some cv') →
      (i = cs.count ∧ cv' = cv) ∨
        (i < cs.count ∧ cell cs i = some (some cv') ∧ cv' ≠ cv) := by
    intro i hi cv' hcv
    rw [hcell] at hcv
    by_cases heq : i = cs.count
    · rw [if_pos heq] at hcv
      cases hcv
      exact Or.inl ⟨heq, rfl⟩
    · rw [if_neg heq] at hcv
      have hlt : i < cs.count := by omega
      refine Or.inr ⟨hlt, hcv, ?_⟩
      rintro rfl
      rw [h.canvas i hlt _ hcv] at hfresh
      cases hfresh
  have hstands : ∀ i pe pl, Placed ps i pe pl → Stands cs' pe → Stands cs pe := by
    intro i pe pl hp hs
    have hlt := h.index i pe pl hp
    rw [stands_iff, hcell, if_neg (by omega)] at hs
    exact stands_iff.mpr hs
  constructor
  · exact harr
  · exact h.placementArr
  · intro i hi cv' hcv
    show Function.update a.canvases cv true cv' = true
    rcases hold i hi cv' hcv with ⟨-, rfl⟩ | ⟨hlt, hcv, hne⟩
    · exact Function.update_self ..
    · rw [Function.update_of_ne hne]
      exact h.canvas i hlt cv' hcv
  · intro i hi j hj cv' hicv hjcv
    rcases hold i hi cv' hicv with ⟨rfl, rfl⟩ | ⟨hi, hicv, hne⟩
    · rcases hold j hj cv' hjcv with ⟨rfl, -⟩ | ⟨-, -, hne⟩
      · rfl
      · exact absurd rfl hne
    · rcases hold j hj cv' hjcv with ⟨-, rfl⟩ | ⟨hj, hjcv, -⟩
      · exact absurd rfl hne
      · exact h.canvas_inj i hi j hj cv' hicv hjcv
  · intro i pe pl hp
    have hlt := h.index i pe pl hp
    omega
  · intro i pe pl hp hs
    rcases h.placed i pe pl hp (hstands i pe pl hp hs) with ⟨cv', hon⟩
    have hne : cv' ≠ cv := by
      rintro rfl
      rw [hon.canvas] at hfresh
      cases hfresh
    refine ⟨cv', hon.placement, hon.home, ?_, ?_⟩
    · show Function.update a.canvases cv true cv' = true
      rw [Function.update_of_ne hne]
      exact hon.canvas
    · intro j hj hjcv
      rcases hold j hj cv' hjcv with ⟨-, rfl⟩ | ⟨hj, hjcv, -⟩
      · exact absurd rfl hne
      · exact hon.only j hj hjcv
  · intro i pe j pe' pl hp hs hp' hs'
    exact h.placed_inj i pe j pe' pl hp (hstands i pe pl hp hs) hp' (hstands j pe' pl hp' hs')

/-- A canvas whose entry is live is cleared and destroyed: the placements on it do not
stand any more, and the others are on other canvases. -/
theorem clearCanvas (h : Tracks cs ps a) {i : Nat} {ce ce' : CanvasEntry} {cv : Handle}
    (hi : i < cs.count) (hce : cs.entryAt i = some ce) (hcv : ce.ptr = some cv)
    (hdead : ce'.ptr = none) :
    Tracks (cs.setEntry i ce') ps (a.exec (.destroyCanvas (some cv))) := by
  have hcell : ∀ j, cell (cs.setEntry i ce') j = if j = i then some none else cell cs j := by
    intro j
    rw [cell_setEntry ce' hce]
    exact congrArg (fun p => if j = i then some p else cell cs j) hdead
  have hicv : cell cs i = some (some cv) := (cell_eq hce).trans (congrArg some hcv)
  have hlive : ∀ j cv', cell (cs.setEntry i ce') j = some (some cv') →
      j ≠ i ∧ cell cs j = some (some cv') := by
    intro j cv' hj
    rw [hcell] at hj
    by_cases heq : j = i
    · rw [if_pos heq] at hj
      cases hj
    · rw [if_neg heq] at hj
      exact ⟨heq, hj⟩
  have hstands : ∀ pe, Stands (cs.setEntry i ce') pe → pe.canvas.index ≠ i ∧ Stands cs pe := by
    intro pe hs
    rw [stands_iff, hcell] at hs
    by_cases heq : pe.canvas.index = i
    · rw [if_pos heq] at hs
      exact absurd rfl hs
    · rw [if_neg heq] at hs
      exact ⟨heq, stands_iff.mpr hs⟩
  constructor
  · exact h.canvasArr.setEntry i ce'
  · exact h.placementArr
  · -- no other live entry has the canvas that is destroyed
    intro j hj cv' hjcv
    rcases hlive j cv' hjcv with ⟨hne, hjcv⟩
    show Function.update a.canvases cv false cv' = true
    rw [Function.update_of_ne]
    · exact h.canvas j hj cv' hjcv
    · rintro rfl
      exact hne (h.canvas_inj j hj i hi cv' hjcv hicv)
  · intro j hj k hk cv' hjcv hkcv
    exact h.canvas_inj j hj k hk cv' (hlive j cv' hjcv).2 (hlive k cv' hkcv).2
  · exact h.index
  · -- a placement that still stands is on another canvas
    intro j pe pl hp hs
    rcases hstands pe hs with ⟨hne, hs⟩
    rcases h.placed j pe pl hp hs with ⟨cv', hon⟩
    have hcv' : cv' ≠ cv := by
      rintro rfl
      exact hne (hon.only i hi hicv).symm
    have hhome : ¬ a.home pl = some cv := by
      rw [hon.home]
      exact fun heq => hcv' (Option.some.inj heq)
    refine ⟨cv', ?_, ?_, ?_, ?_⟩
    · show (if a.home pl = some cv then false else a.placements pl) = true
      rw [if_neg hhome]
      exact hon.placement
    · show (if a.home pl = some cv then none else a.home pl) = some cv'
      rw [if_neg hhome]
      exact hon.home
    · show Function.update a.canvases cv false cv' = true
      rw [Function.update_of_ne hcv']
      exact hon.canvas
    · intro k hk hkcv
      exact hon.only k hk (hlive k cv' hkcv).2
  · intro j pe k pe' pl hp hs hp' hs'
    exact h.placed_inj j pe k pe' pl hp (hstands pe hs).2 hp' (hstands pe' hs').2

/-- The canvas table is lost while all placements stand; the new canvas is destroyed at
once. The canvases of the placements are in no entry now and stay. -/
theorem lostCanvases (h : Tracks cs ps a) {cv : Handle} (ht wd : Nat) (bg : Int)
    (hfresh : a.canvases cv = false) (hlost : cs' = { cs with arr := none })
    (harr : Attached cs') (hall : ∀ i pe pl, Placed ps i pe pl → Stands cs pe) :
    Tracks cs' ps
      ((a.exec (.createCanvas ht wd bg (some cv))).exec (.destroyCanvas (some cv))) := by
  have hcell : ∀ j, cell cs' j = none := by
    intro j
    rw [hlost]
    rfl
  constructor
  · exact harr
  · exact h.placementArr
  · intro j _ cv' hj
    rw [hcell] at hj
    cases hj
  · intro j _ k _ cv' hj _
    rw [hcell] at hj
    cases hj
  · rw [hlost]
    exact h.index
  · -- the new canvas is none of those that have placements
    intro i pe pl hp _
    rcases h.placed i pe pl hp (hall i pe pl hp) with ⟨cv', hon⟩
    have hcv' : cv' ≠ cv := by
      rintro rfl
      rw [hon.canvas] at hfresh
      cases hfresh
    have hhome : ¬ a.home pl = some cv := by
      rw [hon.home]
      exact fun heq => hcv' (Option.some.inj heq)
    refine ⟨cv', ?_, ?_, ?_, ?_⟩
    · show (if a.home pl = some cv then false else a.placements pl) = true
      rw [if_neg hhome]
      exact hon.placement
    · show (if a.home pl = some cv then none else a.home pl) = some cv'
      rw [if_neg hhome]
      exact hon.home
    · show Function.update (Function.update a.canvases cv true) cv false cv' = true
      rw [Function.update_of_ne hcv', Function.update_of_ne hcv']
      exact hon.canvas
    · intro j _ hj
      rw [hcell] at hj
      cases hj
  · intro i pe j pe' pl hp _ hp' _
    exact h.placed_inj i pe j pe' pl hp (hall i pe pl hp) hp' (hall j pe' pl hp')

/-- A placement that is new to the library, on the canvas of a live entry, gets the cell
at `count`. -/
theorem newPlacement (h : Tracks cs ps a) {ci : Nat} {cv pl : Handle} (sp : Handle) (x y : Int)
    {pe : PlacementEntry} (hci : ci < cs.count) (hcv : cell cs ci = some (some cv))
    (hindex : pe.canvas.index = ci) (hptr : pe.ptr = some pl) (hfresh : a.placements pl = false)
    (harr : Attached ps') (hcount : ps'.count = ps.count + 1)
    (hcells : ∀ j, ps'.entryAt j = if j = ps.count then some pe else ps.entryAt j) :
    Tracks cs ps' (a.exec (.placeSprite cv sp x y (some pl))) := by
  have hcanvas : a.canvases cv = true := h.canvas ci hci cv hcv
  have hexec : a.exec (.placeSprite cv sp x y (some pl)) =
      { a with
        home := Function.update a.home pl (some cv)
        placements := Function.update a.placements pl true } := by
    simp only [Anim.exec, hcanvas, if_true]
  rw [hexec]
  have hold : ∀ i pe' pl', Placed ps' i pe' pl' →
      (i = ps.count ∧ pe' = pe ∧ pl' = pl) ∨ Placed ps i pe' pl' := by
    intro i pe' pl' hp
    have hentry := hp.entry
    rw [hcells] at hentry
    by_cases heq : i = ps.count
    · rw [if_pos heq] at hentry
      cases hentry
      exact Or.inl ⟨heq, rfl, Option.some.inj (hp.ptr.symm.trans hptr)⟩
    · rw [if_neg heq] at hentry
      have hlt := hp.lt
      exact Or.inr ⟨by omega, hentry, hp.ptr⟩
  -- the library has the placements of before that stand, so the new one is none of them
  have hother : ∀ i pe' pl', Placed ps i pe' pl' → Stands cs pe' → pl' ≠ pl := by
    rintro i pe' pl' hp hs rfl
    rcases h.placed i pe' pl' hp hs with ⟨cv', hon⟩
    rw [hon.placement] at hfresh
    cases hfresh
  constructor
  · exact h.canvasArr
  · exact harr
  · exact h.canvas
  · exact h.canvas_inj
  · intro i pe' pl' hp
    rcases hold i pe' pl' hp with ⟨-, rfl, -⟩ | hp
    · exact hindex ▸ hci
    · exact h.index i pe' pl' hp
  · intro i pe' pl' hp hs
    rcases hold i pe' pl' hp with ⟨-, rfl, rfl⟩ | hp
    · refine ⟨cv, Function.update_self .., Function.update_self .., hcanvas, ?_⟩
      intro j hj hjcv
      rw [hindex]
      exact h.canvas_inj j hj ci hci cv hjcv hcv
    · rcases h.placed i pe' pl' hp hs with ⟨cv', hon⟩
      have hne := hother i pe' pl' hp hs
      refine ⟨cv', ?_, ?_, hon.canvas, hon.only⟩
      · show Function.update a.placements pl true pl' = true
        rw [Function.update_of_ne hne]
        exact hon.placement
      · show Function.update a.home pl (some cv) pl' = some cv'
        rw [Function.update_of_ne hne]
        exact hon.home
  · intro i pe₁ j pe₂ pl' hp₁ hs₁ hp₂ hs₂
    rcases hold i pe₁ pl' hp₁ with ⟨rfl, -, rfl⟩ | hp₁
    · rcases hold j pe₂ pl' hp₂ with ⟨rfl, -, -⟩ | hp₂
      · rfl
      · exact absurd rfl (hother j pe₂ pl' hp₂ hs₂)
    · rcases hold j pe₂ pl' hp₂ with ⟨-, -, rfl⟩ | hp₂
      · exact absurd rfl (hother i pe₁ pl' hp₁ hs₁)
      · exact h.placed_inj i pe₁ j pe₂ pl' hp₁ hs₁ hp₂ hs₂

/-- The placement table is lost. -/
theorem lostPlacements (h : Tracks cs ps a) {a' : Anim} (hcanvases : a'.canvases = a.canvases)
    (hlost : ps' = { ps with arr := none }) (harr : Attached ps') : Tracks cs ps' a' := by
  subst hlost
  have hnone : ∀ i pe pl, ¬ Placed { ps with arr := none } i pe pl := by
    intro i pe pl hp
    cases hp.entry
  constructor
  · exact h.canvasArr
  · exact harr
  · rw [hcanvases]
    exact h.canvas
  · exact h.canvas_inj
  · exact fun i pe pl hp => absurd hp (hnone i pe pl)
  · exact fun i pe pl hp => absurd hp (hnone i pe pl)
  · exact fun i pe j pe' pl hp => absurd hp (hnone i pe pl)

/-- A placement that stands is cleared and destroyed. -/
theorem clearPlacement (h : Tracks cs ps a) {i : Nat} {pe pe' : PlacementEntry} {pl : Handle}
    (hp : Placed ps i pe pl) (hs : Stands cs pe) (hdead : pe'.ptr = none) :
    Tracks cs (ps.setEntry i pe') (a.exec (.destroyPlacement (some pl))) := by
  have hold : ∀ j pe₁ pl₁, Placed (ps.setEntry i pe') j pe₁ pl₁ → j ≠ i ∧ Placed ps j pe₁ pl₁ := by
    intro j pe₁ pl₁ hp₁
    rcases entryAt_setEntry hp₁.entry with ⟨-, rfl⟩ | ⟨hne, hentry⟩
    · rw [hp₁.ptr] at hdead
      cases hdead
    · exact ⟨hne, hp₁.lt, hentry, hp₁.ptr⟩
  constructor
  · exact h.canvasArr
  · exact h.placementArr.setEntry i pe'
  · exact h.canvas
  · exact h.canvas_inj
  · intro j pe₁ pl₁ hp₁
    exact h.index j pe₁ pl₁ (hold j pe₁ pl₁ hp₁).2
  · -- no other entry has the placement that is destroyed
    intro j pe₁ pl₁ hp₁ hs₁
    rcases hold j pe₁ pl₁ hp₁ with ⟨hne, hp₁⟩
    rcases h.placed j pe₁ pl₁ hp₁ hs₁ with ⟨cv, hon⟩
    refine ⟨cv, ?_, hon.home, hon.canvas, hon.only⟩
    show Function.update a.placements pl false pl₁ = true
    rw [Function.update_of_ne]
    · exact hon.placement
    · rintro rfl
      exact hne (h.placed_inj j pe₁ i pe pl₁ hp₁ hs₁ hp hs)
  · intro j pe₁ k pe₂ pl₁ hp₁ hs₁ hp₂ hs₂
    exact h.placed_inj j pe₁ k pe₂ pl₁ (hold j pe₁ pl₁ hp₁).2 hs₁ (hold k pe₂ pl₁ hp₂).2 hs₂

/-- A call on a placement that stands is sound. -/
theorem sound (h : Tracks cs ps a) {i : Nat} {pe : PlacementEntry} {pl : Handle}
    (hp : Placed ps i pe pl) (hs : Stands cs pe) {call : Effect}
    (hcall : placementArg call = some pl) : Sound a call := by
  intro pl' hpl'
  rw [hcall] at hpl'
  cases hpl'
  rcases h.placed i pe pl hp hs with ⟨cv, hon⟩
  rw [hon.home]
  rfl

end Tracks

/-! ## Steps -/

/-- What is done to sprites does not matter for the canvases and placements. -/
theorem exec_sprite {call : Effect} {ret : Option Handle} (h : makes call = some (.sprite, ret))
    (a : Anim) : a.exec call = a := by
  cases call <;> cases h <;> rfl

/-- A call that has made nothing changes nothing. -/
theorem exec_null {call : Effect} {k : ObjKind} (h : makes call = some (k, none)) (a : Anim) :
    a.exec call = a := by
  cases call <;> cases h <;> rfl

theorem eq_createCanvas {call : Effect} {p : Handle} (h : makes call = some (.canvas, some p)) :
    ∃ ht wd bg, call = .createCanvas ht wd bg (some p) := by
  cases call with
  | createCanvas ht wd bg ret =>
    cases h
    exact ⟨ht, wd, bg, rfl⟩
  | _ => cases h

/-- A call on a placement that neither makes nor destroys it. -/
theorem exec_used {call : Effect} (hmakes : makes call = none) (hdestroyed : destroyed call = none)
    (a : Anim) : a.exec call = a := by
  cases call with
  | destroyCanvas ptr => cases ptr <;> first | rfl | cases hdestroyed
  | destroyPlacement ptr => cases ptr <;> first | rfl | cases hdestroyed
  | createCanvas => cases hmakes
  | placeSprite => cases hmakes
  | _ => rfl

/-- Calls that neither make nor destroy change nothing. -/
theorem execAll_used : ∀ {es : List Effect} {a : Anim},
    (∀ e ∈ es, makes e = none ∧ destroyed e = none ∧ placementArg e = none) →
      a.execAll es = a ∧ AllSound a es
  | [], a, _ => ⟨rfl, trivial⟩
  | e :: es, a, h => by
    rcases h e List.mem_cons_self with ⟨hmakes, hdestroyed, harg⟩
    obtain ⟨hexec, hsound⟩ :=
      execAll_used (a := a) fun e' he' => h e' (List.mem_cons_of_mem _ he')
    have heq := exec_used hmakes hdestroyed a
    refine ⟨?_, sound_of_none harg, ?_⟩
    · show (a.exec e).execAll es = a
      rw [heq, hexec]
    · rw [heq]
      exact hsound

/-- The state after a step: the tables track the library, and the calls were sound. -/
def Good (w : World) (a : Anim) (es : List Effect) : Prop :=
  Tracks w.canvases w.placements (a.execAll es) ∧ AllSound a es

/-- A command. -/
theorem good_did {type : TaskType} {env : Env} {client : ClientRef} {request : CStr}
    {w w' : World} {es : List Effect} {a : Anim} (hdid : Did type env client request w w' es)
    (h : Tracks w.canvases w.placements a)
    (hfresh : ∀ call ∈ es, ∀ o ∈ created call, a.has o = false)
    (hnamed : NamedStands type request w)
    (hlose : type = .CREATE_CANVAS → InsertLoses type env request w → AllStand w) :
    Good w' a es := by
  -- the first call of a step returned a new object
  have hnew : ∀ {call k p es'}, es = call :: es' → makes call = some (k, some p) →
      a.has (k, p) = false := by
    intro call k p es' hes hcall
    subst hes
    refine hfresh call List.mem_cons_self (k, p) ?_
    rw [created_of_makes hcall]
    rfl
  cases hdid with
  | refused => exact ⟨h, trivial⟩
  | placedNothing hci hce hcv => exact ⟨h, sound_of_none rfl, trivial⟩
  | madeNothing hcall hk =>
    refine ⟨?_, sound_of_none (makes_only hcall).2.2.1, trivial⟩
    show Tracks w.canvases w.placements (a.exec _)
    rw [exec_null hcall]
    exact h
  | canvas htype hcall hins =>
    have hcv := hnew rfl hcall
    rcases eq_createCanvas hcall with ⟨ht, wd, bg, rfl⟩
    rcases insert_some h.canvasArr hins with ⟨-, hcount, harr, -⟩
    refine ⟨?_, sound_of_none rfl, trivial⟩
    exact h.newCanvas ht wd bg hcv harr hcount (cell_insert h.canvasArr hins)
  | canvasLost htype hcall hins hlost =>
    have hcv := hnew rfl hcall
    rcases eq_createCanvas hcall with ⟨ht, wd, bg, rfl⟩
    rcases insert_failed hins with ⟨heq, harr⟩
    refine ⟨h.lostCanvases ht wd bg hcv heq harr ?_, sound_of_none rfl, sound_of_none rfl, trivial⟩
    intro i pe pl hp
    by_cases hnone : w.canvases.arr = none
    · intro ce hce
      simp [Table.entryAt, hnone] at hce
    · rcases insert_none (congrArg Prod.fst hins) with ⟨hfull, hr, -⟩
      exact hlose htype (hlost ⟨hfull, hnone, hr⟩) i hp.lt pe hp.entry (by simp [hp.ptr])
  | sprite hcall hins =>
    refine ⟨?_, sound_of_none (makes_only hcall).2.2.1, trivial⟩
    show Tracks w.canvases w.placements (a.exec _)
    rw [exec_sprite hcall]
    exact h
  | spriteLost hcall hins hlost =>
    refine ⟨?_, sound_of_none (makes_only hcall).2.2.1, sound_of_none rfl, trivial⟩
    show Tracks w.canvases w.placements (a.exec _)
    rw [exec_sprite hcall]
    exact h
  | @placement ci ce cv sp p x y block id t hci hce hcv hins =>
    rcases insert_some h.placementArr hins with ⟨-, hcount, harr, hcells⟩
    refine ⟨?_, sound_of_none rfl, trivial⟩
    exact h.newPlacement sp x y (canvasOf_lt hci) ((cell_eq hce).trans (congrArg some hcv)) rfl rfl
      (hnew rfl rfl) harr hcount hcells
  | @placementLost ci ce cv sp p x y block t hci hce hcv hins hlost =>
    rcases insert_failed hins with ⟨heq, harr⟩
    have hcanvas : a.canvases cv = true :=
      h.canvas ci (canvasOf_lt hci) cv ((cell_eq hce).trans (congrArg some hcv))
    refine ⟨h.lostPlacements rfl heq harr, sound_of_none rfl, ?_, trivial⟩
    -- the placement is destroyed on the canvas it has just been created on
    intro pl hpl
    cases hpl
    show (Function.update a.home p (if a.canvases cv then some cv else none) p).isSome
    rw [Function.update_self, if_pos hcanvas]
    rfl
  | destroyedCanvas hi hce hcv =>
    exact ⟨h.clearCanvas (canvasOf_lt hi) hce hcv rfl, sound_of_none rfl, trivial⟩
  | destroyedSprite hi hse hsp => exact ⟨h, sound_of_none rfl, trivial⟩
  | destroyedPlacement hi hpe hpl =>
    have hp := Placed.mk (placementOf_lt hi) hpe hpl
    have hs := hnamed _ hi _ hpe (by simp [hpl])
    exact ⟨h.clearPlacement hp hs rfl, h.sound hp hs rfl, trivial⟩
  | usedPlacement hi hpe hpl harg hmakes hdestroyed hdrawn =>
    have hp := Placed.mk (placementOf_lt hi) hpe hpl
    have hs := hnamed _ hi _ hpe (by simp [hpl])
    refine ⟨?_, h.sound hp hs harg, trivial⟩
    show Tracks w.canvases w.placements (a.exec _)
    rw [exec_used hmakes hdestroyed]
    exact h
  | drew hi hce hcv hes =>
    obtain ⟨hexec, hsound⟩ : a.execAll _ = a ∧ AllSound a _ := by
      apply execAll_used
      intro e he
      rcases draws_only (hes e he) with ⟨hmakes, hdestroyed, -, harg, -⟩
      exact ⟨hmakes, hdestroyed, harg⟩
    refine ⟨?_, hsound⟩
    rw [hexec]
    exact h
  | shared hi hce hptr =>
    refine ⟨h.congr (h.canvasArr.setEntry _ _) rfl fun j => ?_, trivial⟩
    rw [cell_setEntry _ hce]
    split
    · rename_i hj
      rw [hj, cell_eq hce]
      rfl
    · rfl

/-- The removal of a client: its canvases go first, then its placements, which are on
canvases of others. -/
theorem good_cleanup {client : ClientRef} {w : World} {a : Anim}
    (h : Tracks w.canvases w.placements a) (hown : OwnStand client w) :
    Good (destroyOwned client w).1 a (destroyOwned client w).2 := by
  suffices hall : Good (destroyOwned client w).1 a (destroyOwned client w).2 ∧
      OwnStand client (destroyOwned client w).1 from hall.1
  apply destroyOwned_induct client fun w es => Good w a es ∧ OwnStand client w
  · -- a canvas of the client
    intro w es i ce cv ⟨⟨htracks, hsound⟩, hown⟩ hi hce hcv howner
    refine ⟨⟨?_, ?_⟩, ?_⟩
    · rw [execAll_append]
      exact htracks.clearCanvas hi hce hcv rfl
    · exact allSound_append.mpr ⟨hsound, sound_of_none rfl, trivial⟩
    · -- the canvas is the client's own, so no placement of the client is on it
      intro j hj pe hpe hptr hclient ce' hce'
      have helse := hown j hj pe hpe hptr hclient
      rcases entryAt_setEntry hce' with ⟨heq, -⟩ | ⟨-, hce'⟩
      · exact absurd howner (helse ce (heq ▸ hce)).2
      · exact helse ce' hce'
  · -- a sprite, which the placements do not notice
    intro w es i se sp ⟨⟨htracks, hsound⟩, hown⟩ hi hse hsp howner
    refine ⟨⟨?_, ?_⟩, hown⟩
    · rw [execAll_append]
      exact htracks
    · exact allSound_append.mpr ⟨hsound, sound_of_none rfl, trivial⟩
  · -- a placement of the client stands, as its canvas is of another client
    intro w es i pe pl ⟨⟨htracks, hsound⟩, hown⟩ hi hpe hpl howner
    have hp := Placed.mk hi hpe hpl
    have hs : Stands w.canvases pe := by
      intro ce hce
      exact (hown i hi pe hpe (by simp [hpl]) howner ce hce).1
    refine ⟨⟨?_, ?_⟩, ?_⟩
    · rw [execAll_append]
      exact htracks.clearPlacement hp hs rfl
    · exact allSound_append.mpr ⟨hsound, htracks.sound hp hs rfl, trivial⟩
    · intro j hj pe' hpe' hptr hclient
      rcases entryAt_setEntry hpe' with ⟨-, rfl⟩ | ⟨-, hpe'⟩
      · exact absurd rfl hptr
      · exact hown j hj pe' hpe' hptr hclient
  · exact ⟨⟨h, trivial⟩, hown⟩

/-! ## Runs -/

/-- The system and its library: what is returned is new. -/
abbrev library : LTS (World × List Effect) TableLbl := calls.under Fresh

/-- What the table step does, one way or the other. -/
theorem good_step {l : TableLbl} {w w' : World} {log : List Effect}
    (hstep : tableStep l w = some w') (hfresh : Fresh l (w, log)) (hok : OnStanding l w)
    (h : Tracks w.canvases w.placements (Anim.init.execAll log)) :
    Good w' (Anim.init.execAll log) (effectsOf l w) := by
  cases l with
  | rpc type env client request r =>
    simp only [tableStep] at hstep
    split at hstep
    · cases hstep
      exact good_did (did_runRpc type env client request r w) h hfresh hok.1 hok.2
    · cases hstep
  | cleanup client =>
    cases hstep
    exact good_cleanup h hok

/-- So all calls on placements are sound, as long as each placement that is used stands. -/
theorem good_reachable {p : World × List Effect}
    (h : (library.under fun l p => OnStanding l p.1).Reachable p) :
    Good p.1 .init p.2 := by
  induction h with
  | init h0 =>
    rcases h0 with ⟨hw, hlog⟩
    rw [hw, hlog]
    exact ⟨Tracks.init, trivial⟩
  | @step p p' l _ hn ih =>
    rcases hn with ⟨hok, hfresh, hstep, hlog⟩
    rcases good_step hstep hfresh hok ih.1 with ⟨htracks, hsound⟩
    rw [hlog, logCalls]
    refine ⟨?_, allSound_append.mpr ⟨ih.2, hsound⟩⟩
    rw [execAll_append]
    exact htracks

/-- If libanimate returns new handles only, and every step meets the condition, then every
placement that was ever handed to libanimate had been created on a canvas that had not
been destroyed. -/
theorem placements_of_canvases {p : World × List Effect}
    (h : (library.under fun l p => OnStanding l p.1).Reachable p) :
    AllSound .init p.2 :=
  (good_reachable h).2

/-! ## Two runs -/

/-- Placement, canvas and client go in this order. -/
theorem placements_of_canvases_placing :
    ∃ p : World × List Effect, .placementUp 3 ∈ p.2 ∧ .destroyPlacement (some 3) ∈ p.2 ∧
      AllSound .init p.2 := by
  have hrun := exists_reachable_of_run (World.init, [])
    (guarded (fun l p => OnStanding l p.1) (guarded Fresh (recordStep logCalls tableStep)))
    (placing ++ [ask .PLACEMENT_UP 0 "0", ask .DESTROY_PLACEMENT 0 "0", ask .DESTROY_CANVAS 0 "0",
      .cleanup 0])
    (fun p => decide (.placementUp 3 ∈ p.2 ∧ .destroyPlacement (some 3) ∈ p.2)) (by decide)
  rcases hrun with ⟨p, hreach, hcalls⟩
  rw [← under_ofStep, ← under_ofStep, ← recording_ofStep] at hreach
  rcases of_decide_eq_true hcalls with ⟨hup, hdestroy⟩
  exact ⟨p, hup, hdestroy, placements_of_canvases hreach⟩

/-- `destroy_canvas 0` leaves the placement on that canvas in its table, and
`placement_up 0` hands it to libanimate. -/
theorem placement_up_after_destroy_canvas :
    ¬ ∀ p, library.Reachable p → AllSound .init p.2 := by
  intro hall
  have hrun := exists_reachable_of_run (World.init, [])
    (guarded Fresh (recordStep logCalls tableStep))
    (placing ++ [ask .DESTROY_CANVAS 0 "0", ask .PLACEMENT_UP 0 "0"])
    (fun p => decide (¬ AllSound .init p.2)) (by decide)
  rcases hrun with ⟨p, hreach, hunsound⟩
  rw [← under_ofStep, ← recording_ofStep] at hreach
  exact of_decide_eq_true hunsound (hall p hreach)

end AnimateServer.PlacementLife
