import AnimateServer.Lib.Transition
import AnimateServer.Model.TableInserts
import AnimateServer.Verify.CommandCases

/-!
# Ids of concurrent inserts

A worker that reads `count` while another is between its reading and its increment gets
the id of the other. As long as no two workers are there at once, the ids of a table are
handed out in order, whatever else the workers do at the same time.
-/

namespace AnimateServer.ConcurrentInsert

open Transition CLib TableOwners CommandCases TableInserts

/-! ## One table -/

section Table

variable {ε : Type} {n : Nat} {elemSize : Int} {s s' : TableInserts ε}

/-- What the inserts into a table have to do: different ids, as many as `count` says once
no insert is going on, and each with the entry of its own insert. -/
structure Inserted (s : TableInserts ε) : Prop where
  ids : (s.returned.map Prod.fst).Nodup
  count : (∀ w, (s.pc w).isIdle) → s.table.count = s.returned.length
  entries : ∀ r ∈ s.returned, s.table.entryAt r.1 = some (r.2 r.1)

/-- No worker but `w` has read `count` without having incremented it. -/
def NoOther (n : Nat) (w : Worker) (s : TableInserts ε) : Prop :=
  ∀ w' < n, w' ≠ w → (s.pc w').hasId = false

/-- The condition on a step. Nobody else is between the reading of `count` and its
increment when a worker reads `count` or grows the array; the room it has tested for is
still there when it reads, and the growth does not lose the array. -/
def Undisturbed (n : Nat) (elemSize : Int) : InsertLbl ε → TableInserts ε → Prop
  | .read w, s => NoOther n w s ∧ (s.table.count : Int) < s.table.capacity
  | .grow w realloc, s => NoOther n w s ∧
      ¬ (s.table.arr ≠ none ∧ realloc (toInt (s.table.newcap * elemSize)) = none)
  | _, _ => True

/-- `n` workers inserting into one table. -/
abbrev inserts (n : Nat) (elemSize : Int) : LTS (TableInserts ε) (InsertLbl ε) :=
  ofStep .init (TableInserts.step n elemSize)

/-! ### The invariant -/

/-- What holds of a worker that is between its reading and its increment. -/
def Reserved (t : Table ε) : InsertPc ε → Prop
  | .filling _ id block => id = t.count ∧ InArray t id block
  | .incrementing fields id => id = t.count ∧ t.entryAt id = some (fields id)
  | _ => True

/-- The ids returned are those below `count`, in order, and one worker at most is about to
return the next. -/
structure InOrder (n : Nat) (s : TableInserts ε) : Prop where
  attached : Attached s.table
  workers : ∀ w, (s.pc w).isIdle = false → w < n
  ids : s.returned.map Prod.fst = List.range s.table.count
  entries : ∀ r ∈ s.returned, s.table.entryAt r.1 = some (r.2 r.1)
  reserved : ∀ w, Reserved s.table (s.pc w)
  one : ∀ w w', (s.pc w).hasId → (s.pc w').hasId → w = w'

/-- In an orderly state every id has been given out once. -/
theorem InOrder.inserted (h : InOrder n s) : Inserted s where
  ids := by
    rw [h.ids]
    exact List.nodup_range
  count := by
    intro _
    have hlength := congrArg List.length h.ids
    rw [List.length_map, List.length_range] at hlength
    exact hlength.symm
  entries := h.entries

/-- The empty table is in order. -/
theorem InOrder.init : InOrder n (.init : TableInserts ε) where
  attached := attached_empty
  workers := nofun
  ids := rfl
  entries := nofun
  reserved := fun _ => trivial
  one := nofun

/-! ### Steps -/

/-- What a step can do, with the state of the worker before it. -/
theorem step_cases {l : InsertLbl ε} (h : TableInserts.step n elemSize l s = some s') :
    (∃ w fields, l = .test w fields ∧ w < n ∧ (s.pc w).hasId = false ∧
      s' = s.goto w (if (s.table.count : Int) = s.table.capacity then .growing fields
        else .reading fields)) ∨
    (∃ w realloc fields, l = .grow w realloc ∧ s.pc w = .growing fields ∧
      s' = { s with table := s.table.grow realloc elemSize }.goto w
        (if (s.table.grow realloc elemSize).arr.isNone then .idle else .reading fields)) ∨
    (∃ w fields, l = .read w ∧ s.pc w = .reading fields ∧
      s' = s.goto w (.filling fields s.table.count (s.table.arr.map Arr.block))) ∨
    (∃ w fields id block, l = .fill w ∧ s.pc w = .filling fields id block ∧
      InArray s.table id block ∧
      s' = { s with table := s.table.setEntry id (fields id) }.goto w
        (.incrementing fields id)) ∨
    (∃ w fields id, l = .increment w ∧ s.pc w = .incrementing fields id ∧
      s' = { s with
        table := { s.table with count := s.table.count + 1 }
        returned := s.returned ++ [(id, fields)] }.goto w .idle) := by
  -- one label for each unlocked step of a worker
  cases l with
  | test w fields =>
    simp only [TableInserts.step] at h
    split at h
    · rename_i hpc
      split at h
      · cases h
        exact .inl ⟨w, fields, rfl, ‹_›, by simp [hpc, InsertPc.hasId], rfl⟩
      · cases h
    · cases h
  | grow w realloc =>
    simp only [TableInserts.step] at h
    split at h
    · cases h
      exact .inr (.inl ⟨w, realloc, _, rfl, ‹_›, rfl⟩)
    · cases h
  | read w =>
    simp only [TableInserts.step] at h
    split at h
    · cases h
      exact .inr (.inr (.inl ⟨w, _, rfl, ‹_›, rfl⟩))
    · cases h
  | fill w =>
    simp only [TableInserts.step] at h
    split at h
    · split at h
      · cases h
        exact .inr (.inr (.inr (.inl ⟨w, _, _, _, rfl, ‹_›, ‹_›, rfl⟩)))
      · cases h
    · cases h
  | increment w =>
    simp only [TableInserts.step] at h
    split at h
    · cases h
      exact .inr (.inr (.inr (.inr ⟨w, _, _, rfl, ‹_›, rfl⟩)))
    · cases h

/-- A worker without an id has reserved nothing. -/
theorem reserved_of_not_hasId {t : Table ε} {pc : InsertPc ε} (h : pc.hasId = false) :
    Reserved t pc := by
  cases pc with
  | filling fields id block => cases h
  | incrementing fields id => cases h
  | _ => trivial

theorem isIdle_of_hasId {pc : InsertPc ε} (h : pc.hasId = true) : pc.isIdle = false := by
  cases pc with
  | filling fields id block => rfl
  | incrementing fields id => rfl
  | _ => cases h

/-- What holds of the worker that moves and of the others holds of all. -/
theorem forall_goto {P : Worker → InsertPc ε → Prop} {w : Worker} {pc : InsertPc ε}
    (hown : P w pc) (hother : ∀ w', w' ≠ w → P w' (s.pc w')) :
    ∀ w', P w' ((s.goto w pc).pc w') := by
  intro w'
  rw [pc_goto]
  by_cases heq : w' = w
  · rw [heq, Function.update_self]
    exact hown
  · rw [Function.update_of_ne heq]
    exact hother w' heq

/-- If no other worker has an id, then two with an id are the same. -/
theorem one_goto {w : Worker} {pc : InsertPc ε}
    (hother : ∀ w', w' ≠ w → (s.pc w').hasId = false) :
    ∀ w₁ w₂, ((s.goto w pc).pc w₁).hasId = true → ((s.goto w pc).pc w₂).hasId = true →
      w₁ = w₂ := by
  have hown : ∀ w', ((s.goto w pc).pc w').hasId = true → w' = w := by
    apply forall_goto (P := fun w' pc => pc.hasId = true → w' = w)
    · intro _
      rfl
    · intro w' hne hid
      rw [hother w' hne] at hid
      cases hid
  intro w₁ w₂ h₁ h₂
  rw [hown w₁ h₁, hown w₂ h₂]

/-- Only the workers of the pool insert. -/
theorem InOrder.workers_goto (h : InOrder n s) {w : Worker} (hw : w < n) (pc : InsertPc ε) :
    ∀ w', ((s.goto w pc).pc w').isIdle = false → w' < n :=
  forall_goto (P := fun w' pc => pc.isIdle = false → w' < n) (fun _ => hw)
    fun w' _ => h.workers w'

/-- If no other worker has an id and `w` has none, then no worker has. -/
theorem InOrder.nobody (h : InOrder n s) {w : Worker} (hother : NoOther n w s)
    (hw : (s.pc w).hasId = false) (w' : Worker) : (s.pc w').hasId = false := by
  by_cases heq : w' = w
  · rw [heq]
    exact hw
  · by_contra hid
    have hid : (s.pc w').hasId = true := by simpa using hid
    have hlt := h.workers w' (isIdle_of_hasId hid)
    rw [hother w' hlt heq] at hid
    cases hid

/-- A worker moves on without an id. -/
theorem InOrder.goto (h : InOrder n s) {w : Worker} {pc : InsertPc ε} (hw : w < n)
    (hpc : pc.hasId = false) : InOrder n (s.goto w pc) where
  attached := h.attached
  workers := h.workers_goto hw pc
  ids := h.ids
  entries := h.entries
  reserved := by
    apply forall_goto (P := fun _ pc => Reserved s.table pc)
    · exact reserved_of_not_hasId hpc
    · intro w' _
      exact h.reserved w'
  one := by
    -- the worker that moves holds no id afterwards
    have hbefore : ∀ w', ((s.goto w pc).pc w').hasId = true → (s.pc w').hasId = true := by
      apply forall_goto (P := fun w' pc => pc.hasId = true → (s.pc w').hasId = true)
      · intro hid
        rw [hpc] at hid
        cases hid
      · intro w' _ hid
        exact hid
    intro w₁ w₂ h₁ h₂
    exact h.one w₁ w₂ (hbefore w₁ h₁) (hbefore w₂ h₂)

/-- The array moves while no worker has an id. -/
theorem InOrder.moved (h : InOrder n s) (hfree : ∀ w, (s.pc w).hasId = false) {t : Table ε}
    (hatt : Attached t) (hcount : t.count = s.table.count)
    (hcells : ∀ i, t.entryAt i = s.table.entryAt i) : InOrder n { s with table := t } where
  attached := hatt
  workers := h.workers
  ids := by
    show s.returned.map Prod.fst = List.range t.count
    rw [hcount]
    exact h.ids
  entries := by
    intro r hr
    exact (hcells r.1).trans (h.entries r hr)
  -- nobody holds an id, so only count and entries matter
  reserved := fun w => reserved_of_not_hasId (hfree w)
  one := by
    intro w₁ w₂ h₁
    rw [hfree w₁] at h₁
    cases h₁

/-- A growth that loses nothing keeps the cells. -/
theorem grow_kept {t : Table ε} (hatt : Attached t) {realloc : Int → Option Nat}
    (hkeep : ¬ (t.arr ≠ none ∧ realloc (toInt (t.newcap * elemSize)) = none)) :
    Attached (t.grow realloc elemSize) ∧ (t.grow realloc elemSize).count = t.count ∧
      ∀ i, (t.grow realloc elemSize).entryAt i = t.entryAt i := by
  refine ⟨?_, count_grow realloc elemSize, ?_⟩
  · intro hnone
    cases hr : realloc (toInt (t.newcap * elemSize)) with
    | none =>
      -- a failed realloc of no array loses nothing
      have harr : t.arr = none := by
        by_contra hne
        exact hkeep ⟨hne, hr⟩
      simp only [Table.grow, hr]
      exact hatt harr
    | some block => simp [Table.grow, hr] at hnone
  · intro i
    cases harr : t.arr with
    | none =>
      cases hr : realloc (toInt (t.newcap * elemSize)) with
      | none => simp [Table.grow, hr, Table.entryAt, harr]
      | some block => simp [Table.grow, hr, Table.entryAt, harr]
    | some a =>
      cases hr : realloc (toInt (t.newcap * elemSize)) with
      | none => exact absurd ⟨by simp [harr], hr⟩ hkeep
      | some block => simp [Table.grow, hr, Table.entryAt, harr]

/-- `count` is read by a worker when no other has read it. -/
theorem InOrder.read (h : InOrder n s) {w : Worker} {fields : Nat → ε}
    (hpc : s.pc w = .reading fields) (hfree : ∀ w, (s.pc w).hasId = false)
    (hroom : (s.table.count : Int) < s.table.capacity) :
    InOrder n (s.goto w (.filling fields s.table.count (s.table.arr.map Arr.block))) where
  attached := h.attached
  workers := h.workers_goto (h.workers w (by rw [hpc]; rfl)) _
  ids := h.ids
  entries := h.entries
  reserved := by
    apply forall_goto (P := fun _ pc => Reserved s.table pc)
    · refine ⟨rfl, ?_, rfl, hroom⟩
      -- there is an array, as the table is not full
      intro hnone
      have hfull := h.attached (Option.map_eq_none_iff.mp hnone)
      omega
    · intro w' _
      exact h.reserved w'
  one := one_goto fun w' _ => hfree w'

/-- The worker that has the id is the only one that has one. -/
theorem InOrder.others (h : InOrder n s) {w : Worker} (hw : (s.pc w).hasId = true) :
    ∀ w', w' ≠ w → (s.pc w').hasId = false := by
  intro w' hne
  by_contra hid
  exact hne (h.one w' w (by simpa using hid) hw)

/-- The entry at `count` is filled. -/
theorem InOrder.fill (h : InOrder n s) {w : Worker} {fields : Nat → ε} {id : Nat}
    {block : Option Nat} (hpc : s.pc w = .filling fields id block)
    (hin : InArray s.table id block) :
    InOrder n ({ s with table := s.table.setEntry id (fields id) }.goto w
      (.incrementing fields id)) := by
  have hid : id = s.table.count := by
    have hres := h.reserved w
    rw [hpc] at hres
    exact hres.1
  have hothers := h.others (w := w) (by rw [hpc]; rfl)
  obtain ⟨a, harr⟩ : ∃ a, s.table.arr = some a := by
    apply Option.ne_none_iff_exists'.mp
    intro hnone
    exact hin.1 (by rw [← hin.2.1, hnone]; rfl)
  constructor
  · exact h.attached.setEntry id (fields id)
  · exact h.workers_goto (h.workers w (by rw [hpc]; rfl)) _
  · exact h.ids
  · intro r hr
    -- the ids returned so far are below `count`
    have hlt : r.1 < s.table.count := by
      rw [← List.mem_range, ← h.ids]
      exact List.mem_map_of_mem hr
    exact (entryAt_setEntry_ne _ _ (by omega)).trans (h.entries r hr)
  · apply forall_goto (P := fun _ pc => Reserved (s.table.setEntry id (fields id)) pc)
    · refine ⟨hid, ?_⟩
      simp [Table.setEntry, Table.entryAt, harr]
    · intro w' hne
      exact reserved_of_not_hasId (hothers w' hne)
  · exact one_goto hothers

/-- `count` passes the id that is returned. -/
theorem InOrder.increment (h : InOrder n s) {w : Worker} {fields : Nat → ε} {id : Nat}
    (hpc : s.pc w = .incrementing fields id) :
    InOrder n ({ s with
      table := { s.table with count := s.table.count + 1 }
      returned := s.returned ++ [(id, fields)] }.goto w .idle) := by
  obtain ⟨hid, hentry⟩ : id = s.table.count ∧ s.table.entryAt id = some (fields id) := by
    have hres := h.reserved w
    rw [hpc] at hres
    exact hres
  -- under NoOther no other worker has read count in the meantime
  have hothers := h.others (w := w) (by rw [hpc]; rfl)
  have hfree : ∀ w', ((s.goto w .idle).pc w').hasId = false :=
    forall_goto (P := fun _ pc => pc.hasId = false) rfl hothers
  constructor
  · intro hnone
    simp [Table.entryAt, show s.table.arr = none from hnone] at hentry
  · exact h.workers_goto (h.workers w (by rw [hpc]; rfl)) _
  · show (s.returned ++ [(id, fields)]).map Prod.fst = List.range (s.table.count + 1)
    rw [List.map_append, h.ids, List.range_succ, hid]
    rfl
  · intro r hr
    rcases List.mem_append.mp hr with hr | hr
    · exact h.entries r hr
    · cases List.mem_singleton.mp hr
      exact hentry
  · exact fun w' => reserved_of_not_hasId (hfree w')
  · intro w₁ w₂ h₁
    exact absurd (h₁.symm.trans (hfree w₁)) (by simp)

/-- A step that nobody disturbs keeps the order. -/
theorem InOrder.step {l : InsertLbl ε} (h : InOrder n s)
    (hstep : TableInserts.step n elemSize l s = some s') (hok : Undisturbed n elemSize l s) :
    InOrder n s' := by
  -- one case for each step of the insertion
  rcases step_cases hstep with ⟨w, fields, rfl, hw, hfree, rfl⟩ |
    ⟨w, realloc, fields, rfl, hpc, rfl⟩ | ⟨w, fields, rfl, hpc, rfl⟩ |
    ⟨w, fields, id, block, rfl, hpc, hin, rfl⟩ | ⟨w, fields, id, rfl, hpc, rfl⟩
  · -- the test
    apply h.goto hw
    split <;> rfl
  · -- the growth
    rcases hok with ⟨hother, hkeep⟩
    rcases grow_kept h.attached hkeep with ⟨hatt, hcount, hcells⟩
    have hmoved := h.moved (h.nobody hother (by rw [hpc]; rfl)) hatt hcount hcells
    apply hmoved.goto (h.workers w (by rw [hpc]; rfl))
    split <;> rfl
  · -- the reading of `count`
    exact h.read hpc (h.nobody hok.1 (by rw [hpc]; rfl)) hok.2
  · exact h.fill hpc hin
  · exact h.increment hpc

/-- Every run without a disturbance is in order. -/
theorem inOrder_reachable
    (h : ((inserts n elemSize).under (Undisturbed n elemSize)).Reachable s) : InOrder n s := by
  induction h with
  | init h0 =>
    rw [show _ = TableInserts.init from h0]
    exact InOrder.init
  | step _ hn ih => exact ih.step hn.2 hn.1

/-! ### One insert after the other -/

/-- The test for a full table, from an idle worker. -/
theorem step_test (elemSize : Int) {w : Worker} (fields : Nat → ε) (hw : w < n)
    (hpc : s.pc w = .idle) :
    TableInserts.step n elemSize (.test w fields) s =
      some (s.goto w (if (s.table.count : Int) = s.table.capacity then .growing fields
        else .reading fields)) := by
  simp only [TableInserts.step, hpc, if_pos hw]

theorem step_grow (n : Nat) (elemSize : Int) {w : Worker} {fields : Nat → ε}
    (realloc : Int → Option Nat) (hpc : s.pc w = .growing fields) :
    TableInserts.step n elemSize (.grow w realloc) s =
      some ({ s with table := s.table.grow realloc elemSize }.goto w
        (if (s.table.grow realloc elemSize).arr.isNone then .idle else .reading fields)) := by
  simp only [TableInserts.step, hpc]

/-- From the reading of `count` on, a worker alone pushes its entry. -/
theorem run_push (n : Nat) (elemSize : Int) {w : Worker} {fields : Nat → ε}
    (hpc : s.pc w = .reading fields) (harr : s.table.arr ≠ none)
    (hroom : (s.table.count : Int) < s.table.capacity) :
    ∃ s', run (TableInserts.step n elemSize) [.read w, .fill w, .increment w] s = some s' ∧
      s'.table = (s.table.push fields).2 ∧ s'.pc w = .idle ∧
      s'.returned = s.returned ++ [(s.table.count, fields)] := by
  rcases Option.ne_none_iff_exists'.mp harr with ⟨a, ha⟩
  have hin : InArray s.table s.table.count (s.table.arr.map Arr.block) :=
    ⟨by simp [ha], rfl, hroom⟩
  let s₁ := s.goto w (.filling fields s.table.count (s.table.arr.map Arr.block))
  let s₂ := { s₁ with table := s.table.setEntry s.table.count (fields s.table.count) }.goto w
    (.incrementing fields s.table.count)
  let s₃ := { s₂ with
    table := (s.table.push fields).2
    returned := s.returned ++ [(s.table.count, fields)] }.goto w .idle
  have hread : TableInserts.step n elemSize (.read w) s = some s₁ := by
    simp only [TableInserts.step, hpc, s₁]
  have hfill : TableInserts.step n elemSize (.fill w) s₁ = some s₂ := by
    have hpc₁ : s₁.pc w = .filling fields s.table.count (s.table.arr.map Arr.block) :=
      Function.update_self ..
    simp only [TableInserts.step, hpc₁]
    -- nobody has moved the array since `count` was read
    exact if_pos hin
  have hincrement : TableInserts.step n elemSize (.increment w) s₂ = some s₃ := by
    have hpc₂ : s₂.pc w = .incrementing fields s.table.count := Function.update_self ..
    simp only [TableInserts.step, hpc₂]
    rfl
  refine ⟨s₃, ?_, rfl, Function.update_self .., rfl⟩
  rw [run, hread, Option.bind_some, run, hfill, Option.bind_some, run, hincrement]
  rfl

/-- The steps of one worker, in the order of the code, are the insert function. -/
theorem run_insert (h : Attached s.table) {w : Worker} (hw : w < n) (hpc : s.pc w = .idle)
    (realloc : Int → Option Nat) (fields : Nat → ε)
    (hroom : (s.table.insert realloc elemSize fields).1 ≠ none →
      (s.table.count : Int) < (s.table.insert realloc elemSize fields).2.capacity) :
    ∃ ls s', run (TableInserts.step n elemSize) ls s = some s' ∧
      s'.table = (s.table.insert realloc elemSize fields).2 ∧ s'.pc w = .idle ∧
      s'.returned = s.returned ++
        ((s.table.insert realloc elemSize fields).1.map fun id => (id, fields)).toList := by
  have htest := step_test (n := n) elemSize fields hw hpc
  by_cases hfull : (s.table.count : Int) = s.table.capacity
  · rw [if_pos hfull] at htest
    have hgrow := step_grow n elemSize (s := s.goto w (.growing fields)) realloc
      (Function.update_self ..)
    rw [table_goto] at hgrow
    cases hr : (s.table.grow realloc elemSize).arr with
    | none =>
      -- the growth fails, and so does the insert
      have hins : s.table.insert realloc elemSize fields =
          (none, s.table.grow realloc elemSize) := by
        simp only [Table.insert, if_pos hfull, hr, Option.isNone_none, if_true]
      rw [hr, Option.isNone_none, if_pos rfl] at hgrow
      rw [hins]
      refine ⟨[.test w fields, .grow w realloc], ({ s.goto w (.growing fields) with
        table := s.table.grow realloc elemSize }.goto w .idle), ?_, rfl, ?_, ?_⟩
      · rw [run, htest, Option.bind_some, run, hgrow]
        rfl
      · rw [pc_goto, Function.update_self]
      · exact (List.append_nil _).symm
    | some a =>
      -- the entry goes into the new array
      have hins : s.table.insert realloc elemSize fields =
          (s.table.grow realloc elemSize).push fields := by
        simp only [Table.insert, if_pos hfull, hr, Option.isNone_some, Bool.false_eq_true, if_false]
      rw [hr, Option.isNone_some, if_neg Bool.false_ne_true] at hgrow
      rw [hins] at hroom ⊢
      let u : TableInserts ε := { s.goto w (.growing fields) with
        table := s.table.grow realloc elemSize }.goto w (.reading fields)
      have hlt : (u.table.count : Int) < u.table.capacity := by
        have hlt := hroom (Option.some_ne_none _)
        rwa [← count_grow realloc elemSize] at hlt
      obtain ⟨s', hrun, htable, hidle, hreturned⟩ :=
        run_push n elemSize (s := u) (by rw [pc_goto, Function.update_self])
          (by rw [table_goto, hr]; exact Option.some_ne_none a) hlt
      refine ⟨[.test w fields, .grow w realloc, .read w, .fill w, .increment w], s', ?_, htable,
        hidle, hreturned⟩
      rw [run, htest, Option.bind_some, run, hgrow, Option.bind_some]
      exact hrun
  · -- there is room as it is
    have hins : s.table.insert realloc elemSize fields = s.table.push fields := by
      simp only [Table.insert, if_neg hfull]
    rw [if_neg hfull] at htest
    rw [hins] at hroom ⊢
    obtain ⟨s', hrun, htable, hidle, hreturned⟩ :=
      run_push n elemSize (s := s.goto w (.reading fields)) (by rw [pc_goto, Function.update_self])
        (fun hnone => hfull (h hnone)) (hroom (Option.some_ne_none _))
    refine ⟨[.test w fields, .read w, .fill w, .increment w], s', ?_, htable, hidle, hreturned⟩
    rw [run, htest, Option.bind_some]
    exact hrun

end Table

/-! ## The three tables -/

/-- `n` workers inserting canvases, sprites and placements. -/
abbrev pool (n : Nat) : LTS PoolInserts PoolInsertLbl := ofStep .init (PoolInserts.step n)

/-- The condition on a step, for the table it is about. -/
def PoolUndisturbed (n : Nat) : PoolInsertLbl → PoolInserts → Prop
  | .canvas l, s => Undisturbed n sizeofCanvasEntry l s.canvases
  | .sprite l, s => Undisturbed n sizeofSpriteEntry l s.sprites
  | .placement l, s => Undisturbed n sizeofPlacementEntry l s.placements

/-- What a step does to the three tables: one of them takes a step of its own. -/
theorem pool_step_cases {n : Nat} {l : PoolInsertLbl} {s s' : PoolInserts}
    (h : PoolInserts.step n l s = some s') :
    (∃ k t, l = .canvas k ∧ s.canvases.step n sizeofCanvasEntry k = some t ∧
      s' = { s with canvases := t }) ∨
    (∃ k t, l = .sprite k ∧ s.sprites.step n sizeofSpriteEntry k = some t ∧
      s' = { s with sprites := t }) ∨
    (∃ k t, l = .placement k ∧ s.placements.step n sizeofPlacementEntry k = some t ∧
      s' = { s with placements := t }) := by
  -- each label is a step of one of the three tables
  cases l with
  | canvas k =>
    simp only [PoolInserts.step] at h
    split at h
    · rcases Option.map_eq_some_iff.mp h with ⟨t, ht, rfl⟩
      exact .inl ⟨k, t, rfl, ht, rfl⟩
    · cases h
  | sprite k =>
    simp only [PoolInserts.step] at h
    split at h
    · rcases Option.map_eq_some_iff.mp h with ⟨t, ht, rfl⟩
      exact .inr (.inl ⟨k, t, rfl, ht, rfl⟩)
    · cases h
  | placement k =>
    simp only [PoolInserts.step] at h
    split at h
    · rcases Option.map_eq_some_iff.mp h with ⟨t, ht, rfl⟩
      exact .inr (.inr ⟨k, t, rfl, ht, rfl⟩)
    · cases h

section Pool

variable {n : Nat}

/-- The workers as seen from the canvas table. -/
theorem refines_canvases : Refines ((pool n).under (PoolUndisturbed n))
    ((inserts n sizeofCanvasEntry).under (Undisturbed n sizeofCanvasEntry))
    PoolInserts.canvases where
  init := by
    intro s hs
    rw [show s = PoolInserts.init from hs]
    rfl
  step := by
    intro l s s' _ hn
    rcases pool_step_cases hn.2 with ⟨k, t, rfl, ht, rfl⟩ | ⟨k, t, rfl, -, rfl⟩ |
      ⟨k, t, rfl, -, rfl⟩
    · exact Or.inl ⟨k, hn.1, ht⟩
    · exact Or.inr rfl
    · exact Or.inr rfl

/-- The insertions into one table are a run of insertions of their own. -/
theorem refines_sprites : Refines ((pool n).under (PoolUndisturbed n))
    ((inserts n sizeofSpriteEntry).under (Undisturbed n sizeofSpriteEntry))
    PoolInserts.sprites where
  init := by
    intro s hs
    rw [show s = PoolInserts.init from hs]
    rfl
  step := by
    intro l s s' _ hn
    rcases pool_step_cases hn.2 with ⟨k, t, rfl, -, rfl⟩ | ⟨k, t, rfl, ht, rfl⟩ |
      ⟨k, t, rfl, -, rfl⟩
    · exact Or.inr rfl
    · exact Or.inl ⟨k, hn.1, ht⟩
    · exact Or.inr rfl

theorem refines_placements : Refines ((pool n).under (PoolUndisturbed n))
    ((inserts n sizeofPlacementEntry).under (Undisturbed n sizeofPlacementEntry))
    PoolInserts.placements where
  init := by
    intro s hs
    rw [show s = PoolInserts.init from hs]
    rfl
  step := by
    intro l s s' _ hn
    rcases pool_step_cases hn.2 with ⟨k, t, rfl, -, rfl⟩ | ⟨k, t, rfl, -, rfl⟩ |
      ⟨k, t, rfl, ht, rfl⟩
    · exact Or.inr rfl
    · exact Or.inr rfl
    · exact Or.inl ⟨k, hn.1, ht⟩

/-- For every pool size and every interleaving whose steps all meet the condition: the ids
of a table are different, `count` is the number of inserts in the end, and the entry of
each id is that of its insert. -/
theorem ids_unique {s : PoolInserts} (h : ((pool n).under (PoolUndisturbed n)).Reachable s) :
    Inserted s.canvases ∧ Inserted s.sprites ∧ Inserted s.placements := by
  have hcanvases := inOrder_reachable (refines_canvases.reachable h)
  have hsprites := inOrder_reachable (refines_sprites.reachable h)
  have hplacements := inOrder_reachable (refines_placements.reachable h)
  exact ⟨hcanvases.inserted, hsprites.inserted, hplacements.inserted⟩

end Pool

instance {ε : Type} (n : Nat) (elemSize : Int) (l : InsertLbl ε) (s : TableInserts ε) :
    Decidable (Undisturbed n elemSize l s) := by
  unfold Undisturbed NoOther
  cases l <;> infer_instance

instance (n : Nat) (l : PoolInsertLbl) (s : PoolInserts) : Decidable (PoolUndisturbed n l s) := by
  unfold PoolUndisturbed
  cases l <;> infer_instance

/-! ### Two workers -/

/-- The entry of a canvas with the pointer `ptr` for client 0. -/
def canvasOfZero (ptr : Handle) : Nat → CanvasEntry := newCanvas ptr 0 10 10

/-- Worker 0 makes the first entry, and then both workers find that there is room. -/
def bothTested : List (InsertLbl CanvasEntry) :=
  [.test 0 (canvasOfZero 1), .grow 0 fun _ => some 1, .read 0, .fill 0, .increment 0,
    .test 0 (canvasOfZero 2), .test 1 (canvasOfZero 3)]

def oneByOne : List (InsertLbl CanvasEntry) :=
  bothTested ++ [.read 0, .fill 0, .increment 0, .read 1, .fill 1, .increment 1]

def bothRead : List (InsertLbl CanvasEntry) :=
  bothTested ++ [.read 0, .read 1, .fill 0, .fill 1, .increment 0, .increment 1]

/-- If one insert is finished before the other reads `count`, the ids are 1 and 2. -/
theorem ids_unique_bothTested :
    ∃ s : PoolInserts, s.canvases.returned.map Prod.fst = [0, 1, 2] ∧
      Inserted s.canvases ∧ Inserted s.sprites ∧ Inserted s.placements := by
  have hrun := exists_reachable_of_run PoolInserts.init
    (guarded (PoolUndisturbed 2) (PoolInserts.step 2))
    (oneByOne.map PoolInsertLbl.canvas)
    (fun s => decide (s.canvases.returned.map Prod.fst = [0, 1, 2])) (by decide)
  rcases hrun with ⟨s, hreach, hids⟩
  rw [← under_ofStep] at hreach
  exact ⟨s, of_decide_eq_true hids, ids_unique hreach⟩

/-- If both read `count` before one of them increments it, both return 1. -/
theorem same_id_twice :
    ¬ ∀ n s, (pool n).Reachable s →
      Inserted s.canvases ∧ Inserted s.sprites ∧ Inserted s.placements := by
  intro hall
  have hrun := exists_reachable_of_run PoolInserts.init (PoolInserts.step 2)
    (bothRead.map PoolInsertLbl.canvas)
    (fun s => decide (s.canvases.returned.map Prod.fst = [0, 1, 1])) (by decide)
  rcases hrun with ⟨s, hreach, hids⟩
  have hnodup := (hall 2 s hreach).1.ids
  rw [of_decide_eq_true hids] at hnodup
  exact absurd hnodup (by decide)

end AnimateServer.ConcurrentInsert
