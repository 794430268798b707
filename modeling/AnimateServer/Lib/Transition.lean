import Mathlib.Logic.Function.Basic
import Mathlib.Tactic.Common

/-!
# Labelled transition systems

A system is an initial predicate and a labelled next-state relation. Safety is
proved once and for all by `Reachable.invariant`; `LTS.under` cuts a system
down to the runs whose steps all meet a side condition, and `Refines` moves
invariants from an abstract system to a concrete one. Executable systems are
given by a partial step function (`ofStep`), so that a concrete run is
evaluated and not only reasoned about.
-/

namespace Transition

universe u v w

/-- A labelled transition system over states `σ` and labels `Λ`. -/
structure LTS (σ : Type u) (Λ : Type v) where
  Init : σ → Prop
  Next : Λ → σ → σ → Prop

variable {σ : Type u} {Λ : Type v} {τ : Type w}

/-- States reached by a finite run from an initial state. -/
inductive LTS.Reachable (M : LTS σ Λ) : σ → Prop where
  | init {s : σ} : M.Init s → M.Reachable s
  | step {s s' : σ} {l : Λ} : M.Reachable s → M.Next l s s' → M.Reachable s'

/-- Inductive invariance: what holds initially and survives each step holds in
every reachable state. -/
@[elab_as_elim]
theorem LTS.Reachable.invariant {M : LTS σ Λ} {inv : σ → Prop}
    (hinit : ∀ s, M.Init s → inv s)
    (hstep : ∀ l s s', M.Next l s s' → inv s → inv s') {s : σ}
    (h : M.Reachable s) : inv s := by
  induction h with
  | init h0 => exact hinit _ h0
  | step _ hn ih => exact hstep _ _ _ hn ih

/-- Inductive invariance relative to an invariant already proved. -/
@[elab_as_elim]
theorem LTS.Reachable.invariant_with {M : LTS σ Λ} {known inv : σ → Prop}
    (hknown : ∀ s, M.Reachable s → known s)
    (hinit : ∀ s, M.Init s → inv s)
    (hstep : ∀ l s s', M.Next l s s' → known s → inv s → inv s') {s : σ}
    (h : M.Reachable s) : inv s := by
  induction h with
  | init h0 => exact hinit _ h0
  | step hr hn ih => exact hstep _ _ _ hn (hknown _ hr) ih

/-! ## Runs under a side condition -/

/-- The runs of `M` whose steps all meet `ok`, a condition on the label and on
the state before the step. -/
def LTS.under (M : LTS σ Λ) (ok : Λ → σ → Prop) : LTS σ Λ where
  Init := M.Init
  Next := fun l s s' => ok l s ∧ M.Next l s s'

@[simp] theorem LTS.under_Init (M : LTS σ Λ) (ok : Λ → σ → Prop) :
    (M.under ok).Init = M.Init := rfl

/-- The condition that is always met. -/
theorem LTS.under_true (M : LTS σ Λ) : M.under (fun _ _ => True) = M := by
  simp only [LTS.under, true_and]

/-- A run under a condition is a run. -/
theorem LTS.Reachable.of_under {M : LTS σ Λ} {ok : Λ → σ → Prop} {s : σ}
    (h : (M.under ok).Reachable s) : M.Reachable s := by
  induction h with
  | init h0 => exact .init h0
  | step _ hn ih => exact .step ih hn.2

/-- A weaker condition on the steps allows more runs. -/
theorem LTS.Reachable.under_mono {M : LTS σ Λ} {ok ok' : Λ → σ → Prop}
    (hok : ∀ l s, ok' l s → ok l s) {s : σ} (h : (M.under ok').Reachable s) :
    (M.under ok).Reachable s := by
  induction h with
  | init h0 => exact .init h0
  | step _ hn ih => exact .step ih ⟨hok _ _ hn.1, hn.2⟩

/-- A condition that every step from a reachable state meets is no restriction. -/
theorem LTS.Reachable.to_under {M : LTS σ Λ} {ok : Λ → σ → Prop}
    (hok : ∀ l s s', M.Reachable s → M.Next l s s' → ok l s) {s : σ}
    (h : M.Reachable s) : (M.under ok).Reachable s := by
  induction h with
  | init h0 => exact .init h0
  | step hs hn ih => exact .step ih ⟨hok _ _ _ hs hn, hn⟩

/-! ## Refinement -/

/-- `f` maps the runs of `C` to runs of `A`: each step from a reachable state is a
step of `A` or leaves the image where it was. -/
structure Refines (C : LTS σ Λ) {Λ' : Type v} (A : LTS τ Λ') (f : σ → τ) : Prop where
  init : ∀ s, C.Init s → A.Init (f s)
  step : ∀ l s s', C.Reachable s → C.Next l s s' →
    (∃ l', A.Next l' (f s) (f s')) ∨ f s' = f s

/-- The image of a reachable state is reachable. -/
theorem Refines.reachable {C : LTS σ Λ} {Λ' : Type v} {A : LTS τ Λ'} {f : σ → τ}
    (hr : Refines C A f) {s : σ} (h : C.Reachable s) : A.Reachable (f s) := by
  induction h with
  | init h0 => exact .init (hr.init _ h0)
  | step hs hn ih =>
    rcases hr.step _ _ _ hs hn with ⟨l', hl⟩ | heq
    · exact .step ih hl
    · rw [heq]
      exact ih

/-! ## History variables -/

variable {η : Type w}

/-- `M` with a history variable, which each step updates from its label and the states
before and after it. -/
def LTS.recording (M : LTS σ Λ) (h₀ : η) (upd : Λ → σ → σ → η → η) : LTS (σ × η) Λ where
  Init := fun p => M.Init p.1 ∧ p.2 = h₀
  Next := fun l p p' => M.Next l p.1 p'.1 ∧ p'.2 = upd l p.1 p'.1 p.2

/-- Forgetting the history. -/
theorem LTS.Reachable.of_recording {M : LTS σ Λ} {h₀ : η} {upd : Λ → σ → σ → η → η}
    {p : σ × η} (h : (M.recording h₀ upd).Reachable p) : M.Reachable p.1 := by
  induction h with
  | init h0 => exact .init h0.1
  | step _ hn ih => exact .step ih hn.1

/-- A history variable does not restrict the runs. -/
theorem LTS.Reachable.exists_recording {M : LTS σ Λ} (h₀ : η) (upd : Λ → σ → σ → η → η)
    {s : σ} (h : M.Reachable s) : ∃ hist, (M.recording h₀ upd).Reachable (s, hist) := by
  induction h with
  | init h0 => exact ⟨h₀, .init ⟨h0, rfl⟩⟩
  | @step s s' l _ hn ih =>
    rcases ih with ⟨hist, hr⟩
    exact ⟨upd l s s' hist, .step hr ⟨hn, rfl⟩⟩

/-- Weakening the condition on the runs of a system with a history. -/
theorem LTS.Reachable.recording_of_under {M : LTS σ Λ} {ok : Λ → σ → Prop} {h₀ : η}
    {upd : Λ → σ → σ → η → η} {p : σ × η} (h : ((M.under ok).recording h₀ upd).Reachable p) :
    (M.recording h₀ upd).Reachable p := by
  induction h with
  | init h0 => exact .init h0
  | step _ hn ih => exact .step ih ⟨hn.1.2, hn.2⟩

/-! ## Executable systems -/

/-- The system of a partial step function from one initial state. -/
def ofStep (s₀ : σ) (step : Λ → σ → Option σ) : LTS σ Λ where
  Init := fun s => s = s₀
  Next := fun l s s' => step l s = some s'

/-- Take the step only if the condition is met. -/
def guarded (ok : Λ → σ → Prop) [∀ l s, Decidable (ok l s)] (step : Λ → σ → Option σ) :
    Λ → σ → Option σ :=
  fun l s => if ok l s then step l s else none

/-- A condition on the runs of an executable system can be executed with it. -/
theorem under_ofStep (s₀ : σ) (ok : Λ → σ → Prop) [∀ l s, Decidable (ok l s)]
    (step : Λ → σ → Option σ) : (ofStep s₀ step).under ok = ofStep s₀ (guarded ok step) := by
  unfold LTS.under ofStep guarded
  congr
  funext l s s'
  by_cases h : ok l s <;> simp [h]

/-- The step of an executable system with a history variable. -/
def recordStep (upd : Λ → σ → σ → η → η) (step : Λ → σ → Option σ) :
    Λ → σ × η → Option (σ × η) :=
  fun l p => (step l p.1).map fun s' => (s', upd l p.1 s' p.2)

theorem recording_ofStep (s₀ : σ) (step : Λ → σ → Option σ) (h₀ : η)
    (upd : Λ → σ → σ → η → η) :
    (ofStep s₀ step).recording h₀ upd = ofStep (s₀, h₀) (recordStep upd step) := by
  unfold LTS.recording ofStep recordStep
  congr
  · funext p
    exact propext (Prod.ext_iff (x := p) (y := (s₀, h₀))).symm
  · funext l p p'
    apply propext
    rw [Option.map_eq_some_iff]
    constructor
    · rintro ⟨hs, heq⟩
      exact ⟨p'.1, hs, Prod.ext rfl heq.symm⟩
    · rintro ⟨s', hs, rfl⟩
      exact ⟨hs, rfl⟩

/-- Run the labels in order; `none` as soon as one of them is not enabled. -/
def run (step : Λ → σ → Option σ) : List Λ → σ → Option σ
  | [], s => some s
  | l :: ls, s => (step l s).bind (run step ls)

/-- A run from a reachable state ends in a reachable state. -/
theorem LTS.Reachable.run {M : LTS σ Λ} {step : Λ → σ → Option σ}
    (hnext : ∀ l s s', step l s = some s' → M.Next l s s') {ls : List Λ} {s s' : σ}
    (hs : M.Reachable s) (h : Transition.run step ls s = some s') : M.Reachable s' := by
  induction ls generalizing s with
  | nil =>
    cases h
    exact hs
  | cons l ls ih =>
    rcases Option.bind_eq_some_iff.mp h with ⟨t, hl, ht⟩
    exact ih (.step hs (hnext _ _ _ hl)) ht

theorem reachable_run {s₀ : σ} {step : Λ → σ → Option σ} {ls : List Λ} {s s' : σ}
    (hs : (ofStep s₀ step).Reachable s) (h : run step ls s = some s') :
    (ofStep s₀ step).Reachable s' :=
  hs.run (fun _ _ _ hn => hn) h

/-- What the steps of a run cost together. -/
def cost (step : Λ → σ → Option σ) (price : Λ → σ → σ → Nat) : List Λ → σ → Nat
  | [], _ => 0
  | l :: ls, s => (step l s).elim 0 fun t => price l s t + cost step price ls t

/-- A measure that pays for every step bounds what a run costs. -/
theorem cost_run_le {step : Λ → σ → Option σ} {price : Λ → σ → σ → Nat} (rank : σ → Nat)
    {inv : σ → Prop} (hinv : ∀ l s s', inv s → step l s = some s' → inv s')
    (hpay : ∀ l s s', inv s → step l s = some s' → rank s' + price l s s' ≤ rank s)
    {ls : List Λ} {s s' : σ} (hs : inv s) (h : run step ls s = some s') :
    cost step price ls s + rank s' ≤ rank s := by
  induction ls generalizing s with
  | nil =>
    cases h
    simp [cost]
  | cons l ls ih =>
    rcases Option.bind_eq_some_iff.mp h with ⟨t, hl, ht⟩
    have hstep := hpay l s t hs hl
    have hrest := ih (hinv l s t hs hl) ht
    rw [cost, hl, Option.elim_some]
    omega

/-- Steps of one kind at one apiece. -/
theorem cost_kind {step : Λ → σ → Option σ} (kind : Λ → Bool) {ls : List Λ} {s s' : σ}
    (h : run step ls s = some s') :
    cost step (fun l _ _ => if kind l then 1 else 0) ls s = ls.countP kind := by
  induction ls generalizing s with
  | nil => rfl
  | cons l ls ih =>
    rcases Option.bind_eq_some_iff.mp h with ⟨t, hl, ht⟩
    rw [cost, hl, Option.elim_some, ih ht, List.countP_cons, Nat.add_comm]

/-- A measure that steps of one kind lower and no other step raises bounds the steps of that
kind in a run. -/
theorem countP_run_le {step : Λ → σ → Option σ} (kind : Λ → Bool) (rank : σ → Nat)
    {inv : σ → Prop} (hinv : ∀ l s s', inv s → step l s = some s' → inv s')
    (hrank : ∀ l s s', inv s → step l s = some s' →
      rank s' + (if kind l then 1 else 0) ≤ rank s)
    {ls : List Λ} {s s' : σ} (hs : inv s) (h : run step ls s = some s') :
    ls.countP kind + rank s' ≤ rank s := by
  rw [← cost_kind kind h]
  exact cost_run_le rank hinv hrank hs h

/-- A concrete run that ends in a state with property `p` exhibits a reachable
state with property `p`. -/
theorem exists_reachable_of_run (s₀ : σ) (step : Λ → σ → Option σ) (ls : List Λ)
    (p : σ → Bool) (h : (run step ls s₀).map p = some true) :
    ∃ s, (ofStep s₀ step).Reachable s ∧ p s = true := by
  cases hr : run step ls s₀ with
  | none => simp [hr] at h
  | some s =>
    rw [hr] at h
    exact ⟨s, reachable_run (.init rfl) hr, by simpa using h⟩

end Transition
