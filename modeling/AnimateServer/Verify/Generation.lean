import AnimateServer.Verify.CommandCases

/-!
# `GENERATE`: the parser and the frame loop

What the parser accepts, `for (int i = start; i <= end; i++)` with two bounds that it accepts,
and the command line at the end. The loop goes through the range once and stops, unless the
range ends at `INT_MAX`: there is no larger `int` for the condition to fail at.
-/

namespace AnimateServer.Generation

open CLib CommandCases

/-- Frame `i` is drawn into the buffer, and the whole buffer is written to the file. -/
def frame (datPath : CStr) (size : Nat) (cv : Handle) (rate i : Int) : List Effect :=
  [.generateFrame cv i rate, .writeFrame datPath ⟨cv, i, rate⟩ size true]

/-- One frame for each index of the range, in order. -/
def frames (datPath : CStr) (size : Nat) (cv : Handle) (rate start last : Int) : List Effect :=
  (List.range (last - start + 1).toNat).flatMap fun k : Nat =>
    frame datPath size cv rate (start + k)

/-! ### The parser -/

theorem scanInt_range {s rest : CStr} {v : Int} (h : scanInt s = some (v, rest)) :
    INT_MIN ≤ v ∧ v ≤ INT_MAX := by
  unfold scanInt at h
  split at h
  · cases h
  · cases h
    exact toInt_range _

/-- What the parser of `GENERATE` accepts. -/
structure Accepted (request : CStr) (canvasId : Int) (filename : CStr) (start last rate : Int) :
    Prop where
  canvas : INT_MIN ≤ canvasId ∧ canvasId ≤ INT_MAX
  name : ∃ s rest, scanWord (MAX_FILENAME_LEN - 1) s = some (filename, rest)
  nonneg : 0 ≤ start
  ordered : start ≤ last
  last_le : last ≤ INT_MAX
  rate_pos : 0 < rate
  rate_le : rate ≤ INT_MAX

theorem parseGenerate_ok {request filename : CStr} {canvasId start last rate : Int}
    (h : parseGenerate request = .ok (canvasId, filename, start, last, rate)) :
    Accepted request canvasId filename start last rate := by
  unfold parseGenerate at h
  dsimp only at h
  split at h
  · cases h
  · rename_i id name first final fps hparsed
    split at h
    · cases h
    · rename_i hbounds
      simp only [Except.ok.injEq, Prod.mk.injEq] at h
      rcases h with ⟨rfl, rfl, rfl, rfl, rfl⟩
      -- five conversions, each of which succeeded
      simp only [Option.bind_eq_bind, Option.bind_eq_some_iff, Prod.exists, Option.some.injEq,
        Prod.mk.injEq] at hparsed
      obtain ⟨id, s₁, hid, name, s₂, hname, first, s₃, -, final, s₄, hfinal, fps, s₅, hfps, rfl,
        rfl, rfl, rfl, rfl⟩ := hparsed
      constructor
      · exact scanInt_range hid
      · exact ⟨s₁, s₂, hname⟩
      · omega
      · omega
      · exact (scanInt_range hfinal).2
      · omega
      · exact (scanInt_range hfps).2

/-! ### The command line -/

/-- The only command line that `GENERATE` runs is that of the canvas it looks up. -/
theorem generate_system {env : Env} {request cmd : CStr} {w : World}
    (h : .system cmd ∈ (generate env request w).effects) :
    ∃ canvasId filename start last rate i ce,
      parseGenerate request = .ok (canvasId, filename, start, last, rate) ∧
      w.canvases.lookup canvasId = some i ∧ w.canvases.entryAt i = some ce ∧
      cmd = ffmpegCommand ce rate (pathOf filename ".dat") (pathOf filename ".mp4")
        (pathOf filename ".log") := by
  unfold generate at h
  cases hp : parseGenerate request with
  | error a => simp [hp, World.reply] at h
  | ok args =>
    rcases args with ⟨canvasId, filename, start, last, rate⟩
    simp only [hp] at h
    cases hi : w.canvases.lookup canvasId with
    | none => simp [hi, World.reply] at h
    | some i =>
      simp only [hi] at h
      cases hce : w.canvases.entryAt i with
      | none => simp [hce, World.undefinedAt] at h
      | some ce =>
        simp only [hce] at h
        refine ⟨canvasId, filename, start, last, rate, i, ce, rfl, hi, hce, ?_⟩
        cases hcv : ce.ptr with
        | none => simp [hcv, World.replyAt] at h
        | some cv =>
          -- the loop over the frames calls no shell
          have hframe : .system cmd ∉ (frameLoop env (pathOf filename ".dat") cv rate last
              (last - start + 2).toNat start).1 := by
            intro hmem
            rcases films_frameLoop hmem with ⟨j, hj | ⟨size, whole, hj⟩⟩
            · cases hj
            · cases hj
          simp only [hcv] at h
          split at h
          · simp at h
          · split at h
            · simp at h
            · split at h
              · simp at h
              · split at h <;> rename_i heq <;> rw [heq] at hframe
                · simp [hframe] at h
                · simp [hframe] at h
                · split at h
                  · simp [hframe] at h
                  · simpa [hframe] using h

/-! ### The loop -/

section Loop

variable {env : Env} {datPath : CStr} {size : Nat} {cv : Handle} {rate last : Int}

theorem frames_cons {i : Int} (h : i ≤ last) :
    frames datPath size cv rate i last =
      frame datPath size cv rate i ++ frames datPath size cv rate (i + 1) last := by
  unfold frames
  rw [show (last - i + 1).toNat = (last - (i + 1) + 1).toNat + 1 by omega,
    List.range_succ_eq_map, List.flatMap_cons, List.flatMap_map]
  congr 1
  · simp
  · apply List.flatMap_congr
    intro k _
    congr 1
    push_cast
    omega

/-- From `i` on the loop does the rest of the range, and then it stops or the counter
overflows. -/
theorem frameLoop_eq (hlast : last ≤ INT_MAX) (k : Nat) {i : Int} (hk : i + k = last)
    (hwrite : ∀ j, i ≤ j → j ≤ last → env.writeFrame j = true) {n : Nat} (hn : k + 2 ≤ n) :
    frameLoop env datPath cv rate last n i =
      (frames datPath env.frameSize cv rate i last,
        if last = INT_MAX then none else some true) := by
  -- on the number of frames behind the next one
  induction k generalizing i n with
  | zero =>
    obtain rfl : i = last := by omega
    obtain ⟨m, rfl⟩ : ∃ m, n = m + 2 := ⟨n - 2, by omega⟩
    have hframe := hwrite i (Int.le_refl i) (Int.le_refl i)
    have hnone : frames datPath env.frameSize cv rate (i + 1) i = [] := by simp [frames]
    rw [frameLoop, if_pos (Int.le_refl i), frames_cons (Int.le_refl i), hframe, hnone]
    by_cases hmax : i = INT_MAX
    · simp [hmax, frame]
    · simp [hmax, frameLoop, frame]
  | succ k ih =>
    obtain ⟨m, rfl⟩ : ∃ m, n = m + 1 := ⟨n - 1, by omega⟩
    have hframe := hwrite i (Int.le_refl i) (by omega)
    have hle : i ≤ last := by omega
    have hlt : i ≠ INT_MAX := by omega
    have hrest := ih (i := i + 1) (n := m) (by omega) (fun j hj hj' => hwrite j (by omega) hj')
      (by omega)
    rw [frameLoop, if_pos hle, frames_cons hle, hframe, hrest]
    simp [hlt, frame]

/-- No number of turns gets past `INT_MAX`. -/
theorem frameLoop_INT_MAX (n : Nat) {i : Int} (hi : i ≤ INT_MAX)
    (hwrite : ∀ j, i ≤ j → j ≤ INT_MAX → env.writeFrame j = true) :
    (frameLoop env datPath cv rate INT_MAX n i).2 = none := by
  induction n generalizing i with
  | zero => rfl
  | succ n ih =>
    rw [frameLoop, if_pos hi, hwrite i (Int.le_refl i) hi]
    by_cases hmax : i = INT_MAX
    · simp [hmax]
    · have hrest := ih (i := i + 1) (by omega) fun j hj hj' => hwrite j (by omega) hj'
      simp [hmax, hrest]

end Loop

/-- The frame loop that `generate` runs draws and writes the frames of the range in order and
stops, exactly if the range does not end at `INT_MAX`; there it goes through the range too, but
no number of turns brings it to a stop before the counter overflows. -/
theorem frameLoop_covers (env : Env) (cv : Handle) {request filename : CStr}
    {canvasId start last rate : Int}
    (hparse : parseGenerate request = .ok (canvasId, filename, start, last, rate))
    (hwrite : ∀ i, start ≤ i → i ≤ last → env.writeFrame i = true) :
    (frameLoop env (pathOf filename ".dat") cv rate last (last - start + 2).toNat start =
      (frames (pathOf filename ".dat") env.frameSize cv rate start last, some true) ↔
        last ≠ INT_MAX) ∧
    (frameLoop env (pathOf filename ".dat") cv rate last (last - start + 2).toNat start).1 =
      frames (pathOf filename ".dat") env.frameSize cv rate start last ∧
    (last = INT_MAX → ∀ n,
      (frameLoop env (pathOf filename ".dat") cv rate last n start).2 = none) := by
  have hacc := parseGenerate_ok hparse
  have hordered := hacc.ordered
  -- the fuel is one more than there are frames
  have hrun : frameLoop env (pathOf filename ".dat") cv rate last (last - start + 2).toNat start =
      (frames (pathOf filename ".dat") env.frameSize cv rate start last,
        if last = INT_MAX then none else some true) :=
    frameLoop_eq hacc.last_le (last - start).toNat (by omega) hwrite (by omega)
  rw [hrun]
  refine ⟨?_, rfl, ?_⟩
  · by_cases hmax : last = INT_MAX
    · simp [hmax]
    · simp [hmax]
  · rintro rfl n
    exact frameLoop_INT_MAX n hordered hwrite

/-- A range of three frames of 400 bytes. -/
theorem frameLoop_covers_three :
    frameLoop (.allSucceed 1) "f.dat".toList 7 25 4 4 2 =
      ([.generateFrame 7 2 25, .writeFrame "f.dat".toList ⟨7, 2, 25⟩ 400 true,
        .generateFrame 7 3 25, .writeFrame "f.dat".toList ⟨7, 3, 25⟩ 400 true,
        .generateFrame 7 4 25, .writeFrame "f.dat".toList ⟨7, 4, 25⟩ 400 true], some true) := by
  have hparse : parseGenerate "0 f 2 4 25".toList = .ok (0, "f".toList, 2, 4, 25) := by decide
  exact (frameLoop_covers (.allSucceed 1) 7 hparse fun _ _ _ => rfl).1.mpr (by decide)

/-- One frame is asked for, the last that has an index, and the counter overflows behind it. -/
theorem frameLoop_overflows :
    parseGenerate "0 f 2147483647 2147483647 25".toList =
        .ok (0, "f".toList, 2147483647, 2147483647, 25) ∧
      frameLoop (.allSucceed 1) "f.dat".toList 7 25 2147483647 2 2147483647 =
        ([.generateFrame 7 2147483647 25,
          .writeFrame "f.dat".toList ⟨7, 2147483647, 25⟩ 400 true], none) := by
  decide

end AnimateServer.Generation
