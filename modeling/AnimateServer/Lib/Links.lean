import Mathlib.Logic.Function.Basic
import Mathlib.Data.List.Nodup
import Mathlib.Tactic.Common

/-!
# Intrusive linked lists in a heap

A singly linked list is a head pointer and a `next` field for each address; a
doubly linked one has a `prev` field too. `Chain` and `Linked` relate such a
pointer structure to the list of addresses it spells, and the lemmas say what
the usual pointer surgery (push at the front, append at the end, cut out a
node) does to that list. `none` is the null pointer.
-/

namespace Links

universe u

variable {A : Type u}

/-! ## Singly linked chains -/

/-- Following `next` from `h` visits exactly the addresses of the list and then
reaches the null pointer. -/
def Chain (next : A → Option A) : Option A → List A → Prop
  | h, [] => h = none
  | h, a :: l => h = some a ∧ Chain next (next a) l

@[simp] theorem chain_nil {next : A → Option A} {h : Option A} :
    Chain next h [] ↔ h = none := Iff.rfl

@[simp] theorem chain_cons {next : A → Option A} {h : Option A} {a : A} {l : List A} :
    Chain next h (a :: l) ↔ h = some a ∧ Chain next (next a) l := Iff.rfl

/-- The pointers determine the list. -/
theorem Chain.unique {next : A → Option A} :
    ∀ {l l' : List A} {h : Option A}, Chain next h l → Chain next h l' → l = l'
  | [], [], _, _, _ => rfl
  | [], a :: l', h, hl, hl' => by
    rw [chain_nil] at hl
    simp [hl] at hl'
  | a :: l, [], h, hl, hl' => by
    rw [chain_nil] at hl'
    simp [hl'] at hl
  | a :: l, b :: l', h, hl, hl' => by
    rcases hl with ⟨ha, hl⟩
    rcases hl' with ⟨hb, hl'⟩
    -- the head is where both chains start
    have hab : a = b := by
      rw [ha] at hb
      exact Option.some.inj hb
    subst hab
    rw [Chain.unique hl hl']

/-- Follow `next` from `h` for at most `n` nodes. -/
def walk (next : A → Option A) : Nat → Option A → List A
  | 0, _ => []
  | _ + 1, none => []
  | n + 1, some a => a :: walk next n (next a)

/-- Walking a chain for its length spells it. -/
theorem Chain.walk_eq {next : A → Option A} :
    ∀ {l : List A} {h : Option A}, Chain next h l → walk next l.length h = l
  | [], _, _ => rfl
  | a :: l, _, hl => by
    rw [hl.1]
    simp only [List.length_cons, walk]
    rw [hl.2.walk_eq]

/-- A chain only depends on the `next` fields of its own nodes. -/
theorem Chain.congr {next next' : A → Option A} :
    ∀ {l : List A} {h : Option A}, (∀ a ∈ l, next' a = next a) →
      Chain next h l → Chain next' h l
  | [], _, _, hl => hl
  | a :: l, _, heq, hl => by
    refine ⟨hl.1, ?_⟩
    rw [heq a List.mem_cons_self]
    exact Chain.congr (fun b hb => heq b (List.mem_cons_of_mem _ hb)) hl.2

/-- The null head is the empty list. -/
theorem Chain.head_eq_none {next : A → Option A} {h : Option A} {l : List A}
    (hl : Chain next h l) : h = none ↔ l = [] := by
  cases l with
  | nil => simpa using hl
  | cons a l => simp [hl.1]

/-- In a chain without repetitions the last node, and only the last node, has a
null `next`. -/
theorem Chain.next_eq_none {next : A → Option A} :
    ∀ {l : List A} {h : Option A}, Chain next h l →
      ∀ a ∈ l, l.Nodup → (next a = none ↔ l.getLast? = some a)
  | a :: [], _, hl, b, hb, _ => by
    have hba : b = a := by simpa using hb
    subst hba
    simpa using hl.2
  | a :: b :: l, _, hl, c, hc, hnd => by
    have hnd' := (List.nodup_cons.mp hnd).2
    rcases List.mem_cons.mp hc with rfl | hc
    · have hb : next c = some b := hl.2.1
      -- an element with a successor is not the last one
      have hlast : (b :: l).getLast? ≠ some c := fun hlast =>
        (List.nodup_cons.mp hnd).1 (List.mem_of_getLast? hlast)
      rw [List.getLast?_cons_cons]
      simp [hb, hlast]
    · rw [List.getLast?_cons_cons]
      exact Chain.next_eq_none hl.2 c hc hnd'

variable [DecidableEq A]

/-- Appending behind the tail: the tail's null `next` is pointed at a new node
whose own `next` is null. -/
theorem Chain.append {next : A → Option A} {b : A} (hb : next b = none) :
    ∀ {l : List A} {h : Option A} {t : A}, l.Nodup → b ∉ l → l.getLast? = some t →
      Chain next h l → Chain (Function.update next t (some b)) h (l ++ [b])
  | a :: [], _, t, _, hbl, hlast, hl => by
    have hta : a = t := by simpa using hlast
    subst hta
    have hne : b ≠ a := by simpa using hbl
    exact ⟨hl.1, by simp, by simpa [hne] using hb⟩
  | a :: c :: l, _, t, hnd, hbl, hlast, hl => by
    have hlast' : (c :: l).getLast? = some t := by
      rwa [List.getLast?_cons_cons] at hlast
    -- the links before the tail do not change
    have hne : a ≠ t := by
      intro hat
      exact (List.nodup_cons.mp hnd).1 (hat ▸ List.mem_of_getLast? hlast')
    refine ⟨hl.1, ?_⟩
    rw [Function.update_of_ne hne]
    exact Chain.append hb (List.nodup_cons.mp hnd).2
      (fun hm => hbl (List.mem_cons_of_mem _ hm)) hlast' hl.2

/-! ## Doubly linked lists -/

/-- Following `next` from `h` spells the list, and the `prev` field of each node
is its predecessor, that of the first one being `p`. -/
def Linked (next prev : A → Option A) : Option A → Option A → List A → Prop
  | _, h, [] => h = none
  | p, h, a :: l => h = some a ∧ prev a = p ∧ Linked next prev (some a) (next a) l

omit [DecidableEq A] in
@[simp] theorem linked_nil {next prev : A → Option A} {p h : Option A} :
    Linked next prev p h [] ↔ h = none := Iff.rfl

omit [DecidableEq A] in
@[simp] theorem linked_cons {next prev : A → Option A} {p h : Option A} {a : A}
    {l : List A} : Linked next prev p h (a :: l) ↔
      h = some a ∧ prev a = p ∧ Linked next prev (some a) (next a) l := Iff.rfl

omit [DecidableEq A] in
/-- Forgetting `prev` leaves a chain. -/
theorem Linked.chain {next prev : A → Option A} :
    ∀ {l : List A} {p h : Option A}, Linked next prev p h l → Chain next h l
  | [], _, _, hl => hl
  | _ :: _, _, _, hl => ⟨hl.1, hl.2.2.chain⟩

omit [DecidableEq A] in
/-- A linked list only depends on the fields of its own nodes. -/
theorem Linked.congr {next prev next' prev' : A → Option A} :
    ∀ {l : List A} {p h : Option A},
      (∀ a ∈ l, next' a = next a) → (∀ a ∈ l, prev' a = prev a) →
      Linked next prev p h l → Linked next' prev' p h l
  | [], _, _, _, _, hl => hl
  | a :: l, _, _, hn, hp, hl => by
    refine ⟨hl.1, (hp a List.mem_cons_self).trans hl.2.1, ?_⟩
    rw [hn a List.mem_cons_self]
    exact Linked.congr (fun b hb => hn b (List.mem_cons_of_mem _ hb))
      (fun b hb => hp b (List.mem_cons_of_mem _ hb)) hl.2.2

omit [DecidableEq A] in
/-- A node's successor is a node. -/
theorem Linked.next_mem {next prev : A → Option A} :
    ∀ {l : List A} {p h : Option A}, Linked next prev p h l →
      ∀ a ∈ l, ∀ b, next a = some b → b ∈ l
  | a :: [], _, _, hl, c, hc, b, hb => by
    have hca : c = a := by simpa using hc
    subst hca
    have hnone : next c = none := hl.2.2
    simp [hnone] at hb
  | a :: d :: l, _, _, hl, c, hc, b, hb => by
    rcases List.mem_cons.mp hc with rfl | hc
    · have hd : next c = some d := hl.2.2.1
      have hbd : b = d := Option.some.inj (hb.symm.trans hd)
      simp [hbd]
    · exact List.mem_cons_of_mem _ (Linked.next_mem hl.2.2 c hc b hb)

omit [DecidableEq A] in
/-- A node is the head, or its predecessor is a node. -/
theorem Linked.prev_cases {next prev : A → Option A} :
    ∀ {l : List A} {p h : Option A}, Linked next prev p h l → l.Nodup →
      ∀ c ∈ l, (h = some c ∧ prev c = p) ∨ (h ≠ some c ∧ ∃ b ∈ l, prev c = some b)
  | a :: l, p, h, hl, hnd, c, hc => by
    rcases hl with ⟨hh, hp, hl⟩
    rcases List.nodup_cons.mp hnd with ⟨hal, hnd⟩
    rcases List.mem_cons.mp hc with rfl | hc
    · exact Or.inl ⟨hh, hp⟩
    · -- the head is a, and an element behind it is another one
      have hne : h ≠ some c := by
        intro heq
        rw [hh] at heq
        exact hal (Option.some.inj heq ▸ hc)
      refine Or.inr ⟨hne, ?_⟩
      rcases Linked.prev_cases hl hnd c hc with ⟨-, hpc⟩ | ⟨-, b, hb, hpc⟩
      · exact ⟨a, List.mem_cons_self, hpc⟩
      · exact ⟨b, List.mem_cons_of_mem _ hb, hpc⟩

omit [DecidableEq A] in
/-- `prev` undoes `next`; the predecessor `p` of the list counts as a node that points
at the head. -/
theorem Linked.next_iff_prev {next prev : A → Option A} {a b : A} :
    ∀ {l : List A} {p h : Option A}, Linked next prev p h l →
      (a ∈ l ∧ next a = some b ∨ p = some a ∧ h = some b ↔ b ∈ l ∧ prev b = some a)
  | [], p, h, hl => by
    rw [linked_nil] at hl
    simp [hl]
  | x :: l, p, h, hl => by
    rcases hl with ⟨rfl, rfl, hl⟩
    have ih := Linked.next_iff_prev (a := a) (b := b) hl
    constructor
    · -- a link starts inside the list, or it is the one that leads to the head
      rintro (⟨ha, hn⟩ | ⟨hp, hh⟩)
      · have hb : b ∈ l ∧ prev b = some a := by
          rcases List.mem_cons.mp ha with rfl | ha
          · exact ih.mp (Or.inr ⟨rfl, hn⟩)
          · exact ih.mp (Or.inl ⟨ha, hn⟩)
        exact ⟨List.mem_cons_of_mem _ hb.1, hb.2⟩
      · obtain rfl := Option.some.inj hh
        exact ⟨List.mem_cons_self, hp⟩
    · rintro ⟨hb, hp⟩
      rcases List.mem_cons.mp hb with rfl | hb
      · exact Or.inr ⟨hp, rfl⟩
      · refine Or.inl ?_
        rcases ih.mpr ⟨hb, hp⟩ with ⟨ha, hn⟩ | ⟨hx, hn⟩
        · exact ⟨List.mem_cons_of_mem _ ha, hn⟩
        · obtain rfl := Option.some.inj hx
          exact ⟨List.mem_cons_self, hn⟩

/-- Write `q` to the `prev` field of the node at `h`, if there is one. -/
def setPrev (prev : A → Option A) (h q : Option A) : A → Option A :=
  match h with
  | some b => Function.update prev b q
  | none => prev

/-- Writing the `prev` field of the head node moves the list behind another
predecessor. -/
theorem Linked.set_prev {next prev : A → Option A} {p q h : Option A} {l : List A}
    (hnd : l.Nodup) (hl : Linked next prev p h l) :
    Linked next (setPrev prev h q) q h l := by
  cases l with
  | nil => exact hl
  | cons b l =>
    rcases hl with ⟨rfl, -, hl⟩
    refine ⟨rfl, by simp [setPrev], Linked.congr (fun _ _ => rfl) (fun c hc => ?_) hl⟩
    have hne : c ≠ b := fun hcb => (List.nodup_cons.mp hnd).1 (hcb ▸ hc)
    simp [setPrev, hne]

/-- Pushing a fresh node at the front. -/
theorem Linked.push {next prev : A → Option A} {h : Option A} {l : List A} {a : A}
    (ha : a ∉ l) (hnd : l.Nodup) (hl : Linked next prev none h l) :
    Linked (Function.update next a h)
      (setPrev (Function.update prev a none) h (some a)) none (some a) (a :: l) := by
  have hne : ∀ b ∈ l, b ≠ a := fun b hb hba => ha (hba ▸ hb)
  -- the new element is not in the list, so its links change none of the list's
  have hl' : Linked (Function.update next a h) (Function.update prev a none) none h l :=
    Linked.congr (fun b hb => by simp [hne b hb]) (fun b hb => by simp [hne b hb]) hl
  refine ⟨rfl, ?_, ?_⟩
  · cases h with
    | none => simp [setPrev]
    | some b =>
      have hab : a ≠ b := by
        intro hab
        cases l with
        | nil => simp at hl
        | cons c l =>
          have hbc : b = c := Option.some.inj hl.1
          exact ha (by simp [hab, hbc])
      simp [setPrev, hab]
  · rw [Function.update_self]
    exact Linked.set_prev hnd hl'

/-- The `next` fields after `c` has been bypassed. -/
def cutNext (next prev : A → Option A) (c : A) : A → Option A :=
  match prev c with
  | some p => Function.update next p (next c)
  | none => next

/-- The `prev` fields after `c` has been bypassed. -/
def cutPrev (next prev : A → Option A) (c : A) : A → Option A :=
  match next c with
  | some n => Function.update prev n (prev c)
  | none => prev

theorem cutNext_of_ne {next prev : A → Option A} {a c : A} (h : prev c ≠ some a) :
    cutNext next prev c a = next a := by
  unfold cutNext
  cases hp : prev c with
  | none => rfl
  | some p =>
    have hne : a ≠ p := fun hap => h (by rw [hp, hap])
    simp [hne]

theorem cutNext_of_eq {next prev : A → Option A} {a c : A} (h : prev c = some a) :
    cutNext next prev c a = next c := by
  simp [cutNext, h]

theorem cutPrev_of_ne {next prev : A → Option A} {a c : A} (h : next c ≠ some a) :
    cutPrev next prev c a = prev a := by
  unfold cutPrev
  cases hn : next c with
  | none => rfl
  | some n =>
    have hne : a ≠ n := fun han => h (by rw [hn, han])
    simp [hne]

theorem cutPrev_of_eq {next prev : A → Option A} {a c : A} (h : next c = some a) :
    cutPrev next prev c a = prev c := by
  simp [cutPrev, h]

/-- Bypassing a node writes to no node outside the list. -/
theorem Linked.cutNext_of_notMem {next prev : A → Option A} {h : Option A} {l : List A}
    (hl : Linked next prev none h l) (hnd : l.Nodup) {c a : A} (hc : c ∈ l) (ha : a ∉ l) :
    cutNext next prev c a = next a := by
  refine cutNext_of_ne fun hp => ?_
  rcases hl.prev_cases hnd c hc with ⟨-, hnone⟩ | ⟨-, b, hb, hb'⟩
  · rw [hnone] at hp
    cases hp
  · rw [hb'] at hp
    exact ha (Option.some.inj hp ▸ hb)

theorem Linked.cutPrev_of_notMem {next prev : A → Option A} {p h : Option A} {l : List A}
    (hl : Linked next prev p h l) {c a : A} (hc : c ∈ l) (ha : a ∉ l) :
    cutPrev next prev c a = prev a :=
  cutPrev_of_ne fun hn => ha (hl.next_mem c hc a hn)

/-- Bypassing a node takes it out of the list. The predecessor `p` of the whole
list is not one of its nodes, so the surgery stays inside the list. -/
theorem Linked.erase {next prev : A → Option A} {c : A} :
    ∀ {l : List A} {p h : Option A}, l.Nodup → (∀ q, p = some q → q ∉ l) → c ∈ l →
      Linked next prev p h l →
      Linked (cutNext next prev c) (cutPrev next prev c) p
        (if h = some c then next c else h) (l.erase c)
  | a :: l, p, h, hnd, hp, hc, hl => by
    rcases List.nodup_cons.mp hnd with ⟨hal, hndl⟩
    rcases hl with ⟨rfl, hpa, hl⟩
    by_cases hca : c = a
    · -- the head goes: its successor inherits the predecessor `p`
      subst hca
      rw [List.erase_cons_head, if_pos rfl]
      cases l with
      | nil => exact hl
      | cons b l =>
        rcases hl with ⟨hnb, hpb, hl⟩
        have hbl := (List.nodup_cons.mp hndl).1
        have hout : ∀ x ∈ b :: l, prev c ≠ some x := by
          intro x hx hpx
          exact hp x (hpa ▸ hpx) (List.mem_cons_of_mem _ hx)
        refine ⟨hnb, by rw [cutPrev_of_eq hnb, hpa], ?_⟩
        rw [cutNext_of_ne (hout b List.mem_cons_self)]
        refine Linked.congr (fun x hx => ?_) (fun x hx => ?_) hl
        · exact cutNext_of_ne (hout x (List.mem_cons_of_mem _ hx))
        · refine cutPrev_of_ne fun hx' => hbl ?_
          rw [hnb] at hx'
          exact Option.some.inj hx' ▸ hx
    · -- the node goes from the tail
      have hcl : c ∈ l := by
        rcases List.mem_cons.mp hc with rfl | hcl
        · exact absurd rfl hca
        · exact hcl
      have hac : ¬ (some a = some c) := fun heq => hca (Option.some.inj heq).symm
      have hna : next c ≠ some a := fun hna => hal (hl.next_mem c hcl a hna)
      rw [if_neg hac, List.erase_cons_tail (by simpa using Ne.symm hca)]
      refine ⟨rfl, by rw [cutPrev_of_ne hna, hpa], ?_⟩
      have ih := Linked.erase hndl (p := some a) (h := next a)
        (fun q hq => by rw [← Option.some.inj hq]; exact hal) hcl hl
      -- the head of the tail moves exactly when `a` is the predecessor of `c`
      rcases hl.prev_cases hndl c hcl with ⟨hhc, hpc⟩ | ⟨hhc, b, hb, hpc⟩
      · rw [if_pos hhc] at ih
        rwa [cutNext_of_eq hpc]
      · rw [if_neg hhc] at ih
        have hne : prev c ≠ some a := by
          intro hpa'
          rw [hpc] at hpa'
          exact hal (Option.some.inj hpa' ▸ hb)
        rwa [cutNext_of_ne hne]

end Links
