import AnimateServer.Model.ClientRegistry

/-!
# What the registry functions do

`SameButLinks` is the frame of the list surgery: it changes no field of a record
but `next` and `prev`, and frees nothing. `RegList r l` says that the pointers
spell the list `l`.
-/

namespace AnimateServer.Registry

open CLib Links ClientRegistry

/-! ## The frame of the list surgery -/

/-- A record without its links. -/
def unlinked (a : ActiveClient) : ActiveClient := { a with next := none, prev := none }

/-- `r'` is `r` with other links. -/
structure SameButLinks (r r' : ClientRegistry) : Prop where
  record : ∀ x, unlinked (r'.mem x) = unlinked (r.mem x)
  brk : r'.brk = r.brk
  destroyed : r'.destroyed = r.destroyed
  freed : r'.freed = r.freed

namespace SameButLinks

variable {r r' r'' : ClientRegistry}

/-- Nothing has changed at all. -/
theorem refl (r : ClientRegistry) : SameButLinks r r := ⟨fun _ => rfl, rfl, rfl, rfl⟩

/-- Two changes of the links are one. -/
theorem trans (h : SameButLinks r r') (h' : SameButLinks r' r'') : SameButLinks r r'' :=
  ⟨fun x => (h'.record x).trans (h.record x), h'.brk.trans h.brk,
    h'.destroyed.trans h.destroyed, h'.freed.trans h.freed⟩

/-- A field other than the links. -/
theorem field (h : SameButLinks r r') {β : Type} (f : ActiveClient → β)
    (hf : ∀ a, f (unlinked a) = f a) (x : ClientRef) : f (r'.mem x) = f (r.mem x) := by
  rw [← hf (r'.mem x), ← hf (r.mem x), h.record x]

/-- The reference counts are not links. -/
theorem refcount (h : SameButLinks r r') (x : ClientRef) :
    (r'.mem x).refcount = (r.mem x).refcount :=
  h.field ActiveClient.refcount (fun _ => rfl) x

theorem dead (h : SameButLinks r r') (x : ClientRef) : (r'.mem x).dead = (r.mem x).dead :=
  h.field ActiveClient.dead (fun _ => rfl) x

theorem c2sFd (h : SameButLinks r r') (x : ClientRef) : (r'.mem x).c2sFd = (r.mem x).c2sFd :=
  h.field ActiveClient.c2sFd (fun _ => rfl) x

end SameButLinks

/-- Looking at a record changes none. -/
theorem sameButLinks_touch (r : ClientRegistry) (c : ClientRef) : SameButLinks r (r.touch c) :=
  ⟨fun x => by simp, by simp, by simp, by simp⟩

theorem sameButLinks_touchAll (r : ClientRegistry) (cs : List ClientRef) :
    SameButLinks r (r.touchAll cs) := by
  rcases r.touchAll_eq cs with ⟨fs, hfs⟩
  rw [hfs]
  exact ⟨fun _ => rfl, rfl, rfl, rfl⟩

/-- A function that keeps everything but the links may be applied to a record. -/
theorem sameButLinks_modify (r : ClientRegistry) (c : ClientRef)
    (f : ActiveClient → ActiveClient) (hf : ∀ a, unlinked (f a) = unlinked a) :
    SameButLinks r (r.modify c f) := by
  refine ⟨fun x => ?_, by simp, by simp, by simp⟩
  by_cases hx : x = c
  · subst hx
    simp [hf]
  · simp [hx]

/-- The link from the predecessor of `c` goes past `c`. -/
def skipNext (c : ClientRef) (r : ClientRegistry) : ClientRegistry :=
  match (r.mem c).prev with
  | some p => r.modify p fun a => { a with next := (r.mem c).next }
  | none => { r with clients := (r.mem c).next }

/-- The link back from the node `next` goes to `prev`. -/
def skipPrev (next prev : Option ClientRef) (r : ClientRegistry) : ClientRegistry :=
  match next with
  | some n => r.modify n fun a => { a with prev := prev }
  | none => r

/-- The surgery once the record has been found. -/
def cutOut (c : ClientRef) (r : ClientRegistry) : ClientRegistry :=
  let r' := skipPrev (r.mem c).next (r.mem c).prev (skipNext c r)
  { r' with count := decr r'.count }.modify c fun a => { a with next := none, prev := none }

/-- The search finds nobody or the client it looks for. -/
theorem findClient_found (mem : ClientRef → ActiveClient) (c : ClientRef) :
    ∀ (n : Nat) (h : Option ClientRef),
      (findClient mem c n h).2 = none ∨ (findClient mem c n h).2 = some c
  | n, none => Or.inl (by cases n <;> rfl)
  | 0, some _ => Or.inl rfl
  | n + 1, some d => by
    by_cases hd : d = c
    · exact Or.inr (by simp [findClient, hd])
    · simpa [findClient, hd] using findClient_found mem c n (mem d).next

/-- `creg_unlink` either finds the record and cuts it out, or leaves the list alone. -/
theorem cregUnlink_eq (c : ClientRef) (r : ClientRegistry) :
    (findClient r.mem c r.brk r.clients).2 = none ∧
        cregUnlink c r = r.touchAll (findClient r.mem c r.brk r.clients).1 ∨
      (findClient r.mem c r.brk r.clients).2 = some c ∧
        cregUnlink c r =
          cutOut c ((r.touchAll (findClient r.mem c r.brk r.clients).1).touch c) := by
  rcases findClient_found r.mem c r.brk r.clients with hf | hf
  · refine Or.inl ⟨hf, ?_⟩
    simp only [cregUnlink, hf]
  · refine Or.inr ⟨hf, ?_⟩
    simp only [cregUnlink, hf]
    rfl

/-- Both halves of the unlinking write links only. -/
theorem sameButLinks_skipNext (c : ClientRef) (r : ClientRegistry) :
    SameButLinks r (skipNext c r) := by
  unfold skipNext
  cases (r.mem c).prev with
  | none => exact ⟨fun _ => rfl, rfl, rfl, rfl⟩
  | some p => exact sameButLinks_modify r p _ fun _ => rfl

theorem sameButLinks_skipPrev (next prev : Option ClientRef) (r : ClientRegistry) :
    SameButLinks r (skipPrev next prev r) := by
  cases next with
  | none => exact .refl r
  | some n => exact sameButLinks_modify r n (fun a => { a with prev := prev }) fun _ => rfl

theorem sameButLinks_cutOut (c : ClientRef) (r : ClientRegistry) :
    SameButLinks r (cutOut c r) := by
  unfold cutOut
  refine ((sameButLinks_skipNext c r).trans
    (sameButLinks_skipPrev (r.mem c).next (r.mem c).prev _)).trans ?_
  generalize skipPrev (r.mem c).next (r.mem c).prev (skipNext c r) = r'
  have hcount : SameButLinks r' { r' with count := decr r'.count } :=
    ⟨fun _ => rfl, rfl, rfl, rfl⟩
  exact hcount.trans
    (sameButLinks_modify _ c (fun a => { a with next := none, prev := none }) fun _ => rfl)

/-- `creg_unlink` changes nothing but the links, whether or not the client is in the list. -/
theorem sameButLinks_cregUnlink (c : ClientRef) (r : ClientRegistry) :
    SameButLinks r (cregUnlink c r) := by
  rcases cregUnlink_eq c r with ⟨-, heq⟩ | ⟨-, heq⟩
  · rw [heq]
    exact sameButLinks_touchAll r _
  · rw [heq]
    exact ((sameButLinks_touchAll r _).trans (sameButLinks_touch _ c)).trans
      (sameButLinks_cutOut c _)

/-! ## References -/

/-- An acquire succeeds unless the client is marked dead. -/
theorem cregAcquireClient_fst (c : ClientRef) (r : ClientRegistry) :
    (cregAcquireClient c r).1 = .SUCCESS ↔ (r.mem c).dead = false := by
  unfold cregAcquireClient
  cases (r.mem c).dead <;> simp

/-- A client that is marked dead gains no further reference. -/
theorem cregAcquireClient_dead {c : ClientRef} {r : ClientRegistry}
    (h : (r.mem c).dead = true) : cregAcquireClient c r = (.FAIL, r.touch c) := by
  simp [cregAcquireClient, h]

/-- A live client gains exactly one. -/
theorem cregAcquireClient_live {c : ClientRef} {r : ClientRegistry}
    (h : (r.mem c).dead = false) :
    cregAcquireClient c r =
      (.SUCCESS, r.modify c fun a => { a with refcount := a.refcount + 1 }) := by
  simp [cregAcquireClient, h]

/-- The locked section of a release only counts; who destroys the record is decided by its result.
-/
theorem releaseSection_snd (c : ClientRef) (r : ClientRegistry) :
    (releaseSection c r).2 = r.modify c fun a => { a with refcount := decr a.refcount } := rfl

/-- The local `destroy` of `creg_release_client`. -/
theorem releaseSection_fst (c : ClientRef) (r : ClientRegistry) :
    (releaseSection c r).1 = ((r.mem c).dead && decr (r.mem c).refcount == 0) := by
  simp [releaseSection]

/-- The locked section of `client_markdead` sets the flag. -/
@[simp] theorem mem_markdeadSection (c : ClientRef) (r : ClientRegistry) :
    (markdeadSection c r).mem = Function.update r.mem c { r.mem c with dead := true } := rfl

@[simp] theorem brk_markdeadSection (c : ClientRef) (r : ClientRegistry) :
    (markdeadSection c r).brk = r.brk := by
  simp [markdeadSection]

@[simp] theorem freed_markdeadSection (c : ClientRef) (r : ClientRegistry) :
    (markdeadSection c r).freed = r.freed := by
  simp [markdeadSection]

@[simp] theorem destroyed_markdeadSection (c : ClientRef) (r : ClientRegistry) :
    (markdeadSection c r).destroyed = r.destroyed := by
  simp [markdeadSection]

@[simp] theorem mem_destroyClient (c : ClientRef) (r : ClientRegistry) :
    (destroyClient c r).mem = r.mem := by
  simp [destroyClient]

@[simp] theorem brk_destroyClient (c : ClientRef) (r : ClientRegistry) :
    (destroyClient c r).brk = r.brk := by
  simp [destroyClient]

/-- Destroying a record is recorded, also if it has been destroyed before. -/
@[simp] theorem freed_destroyClient (c : ClientRef) (r : ClientRegistry) :
    (destroyClient c r).freed = c :: r.freed := by
  simp [destroyClient]

@[simp] theorem destroyed_destroyClient (c : ClientRef) (r : ClientRegistry) :
    (destroyClient c r).destroyed = c :: r.destroyed := by
  simp [destroyClient]

/-! ## The list the pointers spell -/

/-- The registry lists the records `l`. -/
structure RegList (r : ClientRegistry) (l : List ClientRef) : Prop where
  linked : Linked (fun c => (r.mem c).next) (fun c => (r.mem c).prev) none r.clients l
  nodup : l.Nodup
  bound : ∀ c ∈ l, c < r.brk
  count : r.count = l.length

/-- The registry starts with no client. -/
theorem regList_init : RegList .init [] where
  linked := rfl
  nodup := List.nodup_nil
  bound := fun _ hc => by simp at hc
  count := rfl

/-- Only the links, the head and the count matter. -/
theorem RegList.congr {r r' : ClientRegistry} {l : List ClientRef} (h : RegList r l)
    (hnext : ∀ c ∈ l, (r'.mem c).next = (r.mem c).next)
    (hprev : ∀ c ∈ l, (r'.mem c).prev = (r.mem c).prev)
    (hclients : r'.clients = r.clients) (hbrk : r'.brk = r.brk) (hcount : r'.count = r.count) :
    RegList r' l where
  linked := hclients ▸ h.linked.congr hnext hprev
  nodup := h.nodup
  bound := fun c hc => hbrk ▸ h.bound c hc
  count := hcount ▸ h.count

/-- Reading records does not change the list. -/
theorem RegList.touch {r : ClientRegistry} {l : List ClientRef} (h : RegList r l)
    (c : ClientRef) : RegList (r.touch c) l :=
  h.congr (by simp) (by simp) (by simp) (by simp) (by simp)

theorem RegList.touchAll {r : ClientRegistry} {l : List ClientRef} (h : RegList r l)
    (cs : List ClientRef) : RegList (r.touchAll cs) l := by
  rcases r.touchAll_eq cs with ⟨fs, hfs⟩
  rw [hfs]
  exact h.congr (fun _ _ => rfl) (fun _ _ => rfl) rfl rfl rfl

/-- Writing to other fields than the links. -/
theorem RegList.modify {r : ClientRegistry} {l : List ClientRef} (h : RegList r l)
    (c : ClientRef) {f : ActiveClient → ActiveClient} (hnext : ∀ a, (f a).next = a.next)
    (hprev : ∀ a, (f a).prev = a.prev) : RegList (r.modify c f) l := by
  refine h.congr (fun x _ => ?_) (fun x _ => ?_) (by simp) (by simp) (by simp)
  · by_cases hx : x = c
    · subst hx
      simp [hnext]
    · simp [hx]
  · by_cases hx : x = c
    · subst hx
      simp [hprev]
    · simp [hx]

/-- No more records are listed than were allocated. -/
theorem RegList.length_le {r : ClientRegistry} {l : List ClientRef} (h : RegList r l) :
    l.length ≤ r.brk := by
  have hsub : l ⊆ List.range r.brk := fun c hc => List.mem_range.mpr (h.bound c hc)
  simpa using h.nodup.length_le_of_subset hsub

/-! ## Insertion -/

/-- Pushing record number `brk`, its links aside. -/
def inserted (clientPid c2sFd s2cFd : Int) (next : Option ClientRef) : ActiveClient where
  clientPid := clientPid
  c2sFd := c2sFd
  s2cFd := s2cFd
  refcount := 1
  loggedIn := false
  dead := false
  username := []
  next := next
  prev := none

/-- `creg_insert` allocates the next record. -/
theorem cregInsert_true (pid c2s s2c : Int) (r : ClientRegistry) :
    cregInsert true pid c2s s2c r = (some r.brk, (cregInsert true pid c2s s2c r).2) := rfl

/-- Without memory for the record nothing is inserted. -/
@[simp] theorem cregInsert_false (pid c2s s2c : Int) (r : ClientRegistry) :
    cregInsert false pid c2s s2c r = (none, r) := rfl

/-- The registry after an insertion, but for the link back from the old head. -/
def pushed (pid c2s s2c : Int) (r : ClientRegistry) : ClientRegistry :=
  { r with
    mem := Function.update r.mem r.brk (inserted pid c2s s2c r.clients), brk := r.brk + 1 }

/-- The first client of an empty registry. -/
theorem cregInsert_snd_none {pid c2s s2c : Int} {r : ClientRegistry} (h : r.clients = none) :
    (cregInsert true pid c2s s2c r).2 =
      { pushed pid c2s s2c r with clients := some r.brk, count := r.count + 1 } := by
  simp [cregInsert, h, pushed, inserted]

/-- A further client is put in front of the head, which gets a link back. -/
theorem cregInsert_snd_some {pid c2s s2c : Int} {r : ClientRegistry} {head : ClientRef}
    (h : r.clients = some head) :
    (cregInsert true pid c2s s2c r).2 =
      { (pushed pid c2s s2c r).modify head fun a => { a with prev := some r.brk } with
        clients := some r.brk, count := r.count + 1 } := by
  simp [cregInsert, h, pushed, inserted]

/-- An insertion is, up to links, the new record. -/
theorem sameButLinks_cregInsert (pid c2s s2c : Int) (r : ClientRegistry) :
    SameButLinks (pushed pid c2s s2c r) (cregInsert true pid c2s s2c r).2 := by
  cases hh : r.clients with
  | none =>
    rw [cregInsert_snd_none hh]
    exact ⟨fun _ => rfl, rfl, rfl, rfl⟩
  | some head =>
    rw [cregInsert_snd_some hh]
    have hmod := sameButLinks_modify (pushed pid c2s s2c r) head
      (fun a => { a with prev := some r.brk }) fun _ => rfl
    exact ⟨hmod.record, hmod.brk, hmod.destroyed, hmod.freed⟩

/-- An insertion puts the new record in front of the list. -/
theorem RegList.cregInsert {r : ClientRegistry} {l : List ClientRef} (h : RegList r l)
    (pid c2s s2c : Int) :
    RegList (cregInsert true pid c2s s2c r).2 (r.brk :: l) := by
  have hfresh : r.brk ∉ l := fun hm => Nat.lt_irrefl _ (h.bound _ hm)
  have hpush := h.linked.push hfresh h.nodup
  have hbrk : (ClientRegistry.cregInsert true pid c2s s2c r).2.brk = r.brk + 1 :=
    (sameButLinks_cregInsert pid c2s s2c r).brk
  -- the links after the push, as updates of those before it
  have hnext : (fun c => ((pushed pid c2s s2c r).mem c).next) =
      Function.update (fun c => (r.mem c).next) r.brk r.clients := by
    funext c
    by_cases hc : c = r.brk
    · subst hc
      simp [pushed, inserted]
    · simp [pushed, hc]
  have hprev : (fun c => ((pushed pid c2s s2c r).mem c).prev) =
      Function.update (fun c => (r.mem c).prev) r.brk none := by
    funext c
    by_cases hc : c = r.brk
    · subst hc
      simp [pushed, inserted]
    · simp [pushed, hc]
  refine ⟨?_, List.nodup_cons.mpr ⟨hfresh, h.nodup⟩, ?_, ?_⟩
  · cases hh : r.clients with
    | none =>
      rw [hh] at hpush hnext
      rw [cregInsert_snd_none hh]
      simpa only [hnext, hprev, setPrev] using hpush
    -- the old head gets its `prev`
    | some head =>
      rw [hh] at hpush hnext
      rw [cregInsert_snd_some hh]
      have hnext' : (fun c => (((pushed pid c2s s2c r).modify head fun a =>
          { a with prev := some r.brk }).mem c).next) =
          Function.update (fun c => (r.mem c).next) r.brk (some head) := by
        rw [← hnext]
        funext c
        by_cases hc : c = head
        · subst hc
          simp
        · simp [hc]
      have hprev' : (fun c => (((pushed pid c2s s2c r).modify head fun a =>
          { a with prev := some r.brk }).mem c).prev) =
          Function.update (Function.update (fun c => (r.mem c).prev) r.brk none) head
            (some r.brk) := by
        rw [← hprev]
        funext c
        by_cases hc : c = head
        · subst hc
          simp
        · simp [hc]
      simpa only [hnext', hprev', setPrev] using hpush
  · intro c hc
    rw [hbrk]
    rcases List.mem_cons.mp hc with rfl | hc
    · exact Nat.lt_succ_self _
    · exact Nat.lt_succ_of_lt (h.bound c hc)
  · cases hh : r.clients with
    | none => rw [cregInsert_snd_none hh]; simp [h.count]
    | some head => rw [cregInsert_snd_some hh]; simp [h.count]

/-! ## Unlinking -/

/-- The search reads listed records only, and finds exactly the listed ones. -/
theorem findClient_spec {mem : ClientRef → ActiveClient} (c : ClientRef) :
    ∀ (l : List ClientRef) (n : Nat) (h : Option ClientRef),
      Chain (fun x => (mem x).next) h l → l.length ≤ n →
      (∀ x ∈ (findClient mem c n h).1, x ∈ l) ∧
        (findClient mem c n h).2 = if c ∈ l then some c else none
  | [], n, h, hl, _ => by
    rw [chain_nil] at hl
    subst hl
    cases n <;> simp [findClient]
  | a :: l, n, h, hl, hn => by
    rcases hl with ⟨rfl, hl⟩
    obtain ⟨m, rfl⟩ : ∃ m, n = m + 1 := ⟨n - 1, by simp only [List.length_cons] at hn; omega⟩
    -- the walk stops at c, or goes on from the next
    by_cases hac : a = c
    · subst hac
      simp [findClient]
    · obtain ⟨hvis, hfound⟩ := findClient_spec c l m (mem a).next hl
        (by simpa using hn)
      simp only [findClient, hac, if_false]
      refine ⟨fun x hx => ?_, ?_⟩
      · rcases List.mem_cons.mp hx with rfl | hx
        · exact List.mem_cons_self
        · exact List.mem_cons_of_mem _ (hvis x hx)
      · rw [hfound]
        simp [Ne.symm hac]

/-- The first half of `creg_unlink` makes the successor of the predecessor skip the client. -/
theorem next_skipNext (c : ClientRef) (r : ClientRegistry) :
    (fun x => ((skipNext c r).mem x).next) =
      cutNext (fun x => (r.mem x).next) (fun x => (r.mem x).prev) c := by
  cases hp : (r.mem c).prev with
  | none => simp [skipNext, cutNext, hp]
  | some p =>
    funext x
    by_cases hx : x = p
    · subst hx
      simp [skipNext, cutNext, hp]
    · simp [skipNext, cutNext, hp, hx]

/-- The first half of `creg_unlink` touches no link back. -/
theorem prev_skipNext (c : ClientRef) (r : ClientRegistry) (x : ClientRef) :
    ((skipNext c r).mem x).prev = (r.mem x).prev := by
  unfold skipNext
  cases (r.mem c).prev with
  | none => rfl
  | some p =>
    by_cases hx : x = p
    · subst hx
      simp
    · simp [hx]

/-- The second half of `creg_unlink` touches no successor. -/
theorem next_skipPrev (next prev : Option ClientRef) (r : ClientRegistry) (x : ClientRef) :
    ((skipPrev next prev r).mem x).next = (r.mem x).next := by
  cases next with
  | none => rfl
  | some n =>
    by_cases hx : x = n
    · subst hx
      simp [skipPrev]
    · simp [skipPrev, hx]

/-- The second half of `creg_unlink` makes the predecessor of the successor skip the client. -/
theorem prev_skipPrev (c : ClientRef) (r : ClientRegistry) :
    (fun x => ((skipPrev (r.mem c).next (r.mem c).prev r).mem x).prev) =
      cutPrev (fun x => (r.mem x).next) (fun x => (r.mem x).prev) c := by
  cases hn : (r.mem c).next with
  | none => simp [skipPrev, cutPrev, hn]
  | some n =>
    funext x
    by_cases hx : x = n
    · subst hx
      simp [skipPrev, cutPrev, hn]
    · simp [skipPrev, cutPrev, hn, hx]

/-- Both halves together cut the client out of the two chains. -/
theorem next_cutOut (c : ClientRef) (r : ClientRegistry) {x : ClientRef} (hx : x ≠ c) :
    ((cutOut c r).mem x).next =
      cutNext (fun x => (r.mem x).next) (fun x => (r.mem x).prev) c x := by
  have hskip := congrFun (next_skipNext c r) x
  simp [cutOut, hx, next_skipPrev, hskip]

theorem prev_cutOut (c : ClientRef) (r : ClientRegistry) {x : ClientRef} (hx : x ≠ c) :
    ((cutOut c r).mem x).prev =
      cutPrev (fun x => (r.mem x).next) (fun x => (r.mem x).prev) c x := by
  have hskip := congrFun (prev_skipPrev c r) x
  rw [← hskip]
  unfold cutOut skipPrev
  cases (r.mem c).next with
  | none => simp [hx, prev_skipNext]
  | some n =>
    by_cases hxn : x = n
    · subst hxn
      simp [hx]
    · simp [hx, hxn, prev_skipNext]

/-- The head moves on if it was the client that is cut out. -/
theorem clients_cutOut (c : ClientRef) (r : ClientRegistry) :
    (cutOut c r).clients = if (r.mem c).prev = none then (r.mem c).next else r.clients := by
  unfold cutOut skipPrev skipNext
  cases (r.mem c).prev <;> cases (r.mem c).next <;> simp

/-- One client less is counted, and zero stays zero. -/
theorem count_cutOut (c : ClientRef) (r : ClientRegistry) :
    (cutOut c r).count = decr r.count := by
  unfold cutOut skipPrev skipNext
  cases (r.mem c).prev <;> cases (r.mem c).next <;> simp

/-- Cutting a listed record out. -/
theorem RegList.cut {r : ClientRegistry} {l : List ClientRef} (h : RegList r l)
    {c : ClientRef} (hc : c ∈ l) : RegList (cutOut c r) (l.erase c) := by
  have hmem : ∀ x ∈ l.erase c, x ≠ c := fun x hx hxc =>
    h.nodup.not_mem_erase (hxc ▸ hx)
  -- only the head has no prev, so the test on prev is the test for the head
  have hhead : (cutOut c r).clients = if r.clients = some c then (r.mem c).next else r.clients := by
    rw [clients_cutOut]
    rcases h.linked.prev_cases h.nodup c hc with ⟨hh, hp⟩ | ⟨hh, b, -, hp⟩
    · rw [if_pos hp, if_pos hh]
    · rw [if_neg (by simp [hp]), if_neg hh]
  refine ⟨?_, h.nodup.erase c, fun x hx => ?_, ?_⟩
  · rw [hhead]
    exact (h.linked.erase h.nodup (fun _ hq => by cases hq) hc).congr
      (fun x hx => next_cutOut c r (hmem x hx)) (fun x hx => prev_cutOut c r (hmem x hx))
  · rw [(sameButLinks_cutOut c r).brk]
    exact h.bound x (List.mem_of_mem_erase hx)
  · rw [count_cutOut, h.count, List.length_erase_of_mem hc]
    have hpos := List.length_pos_of_mem hc
    rw [decr, if_neg (by omega)]

/-- `creg_unlink` takes the record out of the list, and changes nothing if it is not
in there. -/
theorem RegList.cregUnlink {r : ClientRegistry} {l : List ClientRef} (h : RegList r l)
    (c : ClientRef) : RegList (cregUnlink c r) (l.erase c) := by
  rcases findClient_spec c l r.brk r.clients h.linked.chain h.length_le with ⟨-, hfound⟩
  rcases cregUnlink_eq c r with ⟨hf, heq⟩ | ⟨hf, heq⟩
  · -- not found: nothing was cut, and c was not on the list
    have hc : c ∉ l := by
      intro hc
      rw [hfound, if_pos hc] at hf
      cases hf
    rw [heq, List.erase_of_not_mem hc]
    exact h.touchAll _
  · have hc : c ∈ l := by
      by_contra hc
      rw [hfound, if_neg hc] at hf
      cases hf
    rw [heq]
    exact ((h.touchAll _).touch c).cut hc

/-- The neighbours of a listed record are listed. -/
theorem RegList.faults_cut {r : ClientRegistry} {l : List ClientRef} (h : RegList r l)
    {c : ClientRef} (hc : c ∈ l) (hlive : ∀ x ∈ l, x ∉ r.freed) :
    (cutOut c r).faults = r.faults := by
  -- both neighbours are on the list, so they are not freed
  have hp : ∀ p, (r.mem c).prev = some p → p ∉ r.freed := by
    intro p hp
    rcases h.linked.prev_cases h.nodup c hc with ⟨-, hpc⟩ | ⟨-, b, hb, hpc⟩
    · rw [hp] at hpc
      cases hpc
    · rw [hp] at hpc
      cases hpc
      exact hlive p hb
  have hn : ∀ n, (r.mem c).next = some n → n ∉ r.freed := fun n hn =>
    hlive n (h.linked.next_mem c hc n hn)
  have hcf := hlive c hc
  unfold cutOut skipPrev skipNext
  cases hpc : (r.mem c).prev <;> cases hnc : (r.mem c).next <;>
    simp_all [ClientRegistry.touch]

/-- With every listed record allocated, `creg_unlink` touches no freed one. -/
theorem RegList.faults_cregUnlink {r : ClientRegistry} {l : List ClientRef} (h : RegList r l)
    (hlive : ∀ x ∈ l, x ∉ r.freed) (c : ClientRef) :
    (ClientRegistry.cregUnlink c r).faults = r.faults := by
  rcases findClient_spec c l r.brk r.clients h.linked.chain h.length_le with ⟨hvis, hfound⟩
  have hquiet : r.touchAll (findClient r.mem c r.brk r.clients).1 = r :=
    r.touchAll_of_notMem fun x hx => hlive x (hvis x hx)
  rcases cregUnlink_eq c r with ⟨hf, heq⟩ | ⟨hf, heq⟩
  · rw [heq, hquiet]
  · have hc : c ∈ l := by
      by_contra hc
      rw [hfound, if_neg hc] at hf
      cases hf
    rw [heq, hquiet, r.touch_of_notMem c (hlive c hc)]
    exact h.faults_cut hc hlive

end AnimateServer.Registry
