import Mathlib
import Exploration.Proofs.RoundPhases
import Exploration.Proofs.TreeCheck

/-!
# Runs of planning rounds keep the tree well formed

A run of the local planner (`Planned`) starts from a fresh planner and is made of planning rounds
that return, with any change of the mission between them. Each round sees a scene of its own (the
map, and whether the map knows the robot's position); the planner keeps the gain model and the
generator it was made with.

A round first resets a planner not set up, or not planning locally, then runs its phases. A
property that a reset gives and that every other phase keeps (`Preserved`) is kept by every round
that returns (`Preserved.step`), and holds along a run once the planner is set up
(`Preserved.planned`). Each phase keeps the planner set up with a well-formed tree (see
`RoundPhases`), so along a run the planner is fresh, with no tree yet, or set up with a
well-formed tree (`Planned.fresh_or_started`), and the tree of the latter passes its own check
(`TreeWF.check_passes`).

Main statement: `planning_keeps_tree_wf`.
-/

namespace Exploration

/-- Two steps taken when a condition holds, then the rest: the rest follows the guarded steps.
A `do` block's `if` without `else` shares what follows it between its branches; this takes that
out as the continuation of one bind. -/
theorem ite_seq_bind {m : Type → Type} [Monad m] [LawfulMonad m] {β : Type} (c : Prop)
    [Decidable c] (a b : m Unit) (k : Unit → m β) :
    (if c then a >>= fun _ => b >>= k else k ()) =
      (if c then a >>= fun _ => b else pure ()) >>= k := by
  split_ifs <;> simp

namespace LocalRun

/-- A fresh planner on settings `cfg`, with gain model `gain` and generator `g`, sharing mission
`m`. -/
def fresh (cfg : LocalSettings) (gain : GainModel) (g : Pcg64) (m : Mission) : LocalRun :=
  ⟨{ settings := cfg, gainModel := gain, rng := g }, m⟩

end LocalRun

namespace LocalPlanner

open ViewpointTree

@[simp] theorem state_run (r : LocalRun) : (MonadState.get : LocalM LocalRun) r = .ok r r := rfl

@[simp] theorem steer_run (f : Mission → Mission) (r : LocalRun) :
    steer f r = .ok () { r with mission := f r.mission } := rfl

/-- The runs of planning rounds that all return, from a fresh planner: between rounds the mission
may change in any way, and each round sees a scene of its own. -/
inductive Planned : LocalRun → Prop where
  | fresh (cfg : LocalSettings) (gain : GainModel) (g : Pcg64) (m : Mission) :
      Planned (LocalRun.fresh cfg gain g m)
  | round {r r' : LocalRun} (sc : Scene) {w : Option Pose} :
      Planned r → step sc r = .ok w r' → Planned r'
  | mission {r : LocalRun} (m : Mission) : Planned r → Planned { r with mission := m }

/-- A property of runs that each phase of a planning round keeps: a reset gives it from any run,
and each other phase of the round, a change of the mission and a change of the flag asking for
the gains to be judged afresh keep it. -/
structure Preserved (P : LocalRun → Prop) : Prop where
  reset : ∀ {origin : Pose} {r r' : LocalRun}, resetAt origin r = .ok () r' → P r'
  mission : ∀ {r : LocalRun} (m : Mission), P r → P { r with mission := m }
  flag : ∀ {r : LocalRun} (b : Bool), P r →
    P { r with planner := { r.planner with shouldUpdate := b } }
  gains : ∀ {sc : Scene} {r r' : LocalRun}, P r → updateGains sc r = .ok () r' → P r'
  expand : ∀ {sc : Scene} {r r' : LocalRun} {b : Bool}, P r → expand sc r = .ok b r' → P r'
  collision : ∀ {sc : Scene} {r r' : LocalRun} {n : Int}, P r →
    updateCollision sc r = .ok n r' → P r'
  select : ∀ {r r' : LocalRun} {w : Option Pose}, P r → selectNext r = .ok w r' → P r'

namespace Preserved

variable {P : LocalRun → Prop} (hP : Preserved P)
include hP

/-- **A planning round keeps what its phases keep.** A round that returns, from a planner that
has the property once set up, leaves it with the property: a planner not set up, or not planning
locally, is first reset, and each phase after that keeps the property. -/
theorem step (sc : Scene) {r r' : LocalRun} {w : Option Pose}
    (hr : r.planner.initialized = true → P r) (h : step sc r = .ok w r') : P r' := by
  unfold LocalPlanner.step at h
  replace h := run_bind_ok_of (state_run r) h
  rw [ite_seq_bind, run_bind_eq_ok] at h
  obtain ⟨_, r₁, hset, h⟩ := h
  -- set up: reset, or already set up
  have hP₁ : P r₁ := by
    split at hset
    · rw [run_bind_eq_ok] at hset
      obtain ⟨_, r₀, hreset, hset⟩ := hset
      rw [steer_run] at hset
      obtain ⟨-, rfl⟩ := EStateM.Result.ok.inj hset
      exact hP.mission _ (hP.reset hreset)
    · obtain ⟨-, rfl⟩ := EStateM.Result.ok.inj hset
      exact hr (by simp_all)
  dsimp only at h
  replace h := run_bind_ok_of (planner_run _) h
  rw [ite_seq_bind, run_bind_eq_ok] at h
  obtain ⟨_, r₂, hupd, h⟩ := h
  -- the gains judged afresh when asked for
  have hP₂ : P r₂ := by
    split at hupd
    · rw [run_bind_eq_ok] at hupd
      obtain ⟨_, r₀, hg, hupd⟩ := hupd
      rw [alter_run] at hupd
      obtain ⟨-, rfl⟩ := EStateM.Result.ok.inj hupd
      exact hP.flag _ (hP.gains hP₁ hg)
    · obtain ⟨-, rfl⟩ := EStateM.Result.ok.inj hupd
      exact hP₁
  rw [run_bind_eq_ok] at h
  obtain ⟨_, r₃, hexp, h⟩ := h
  have hP₃ := hP.expand hP₂ hexp
  replace h := run_bind_ok_of (state_run _) h
  split at h
  · -- away from the target: the round ends
    obtain ⟨-, rfl⟩ := EStateM.Result.ok.inj h
    exact hP₃
  rw [run_bind_eq_ok] at h
  obtain ⟨_, r₄, hcol, h⟩ := h
  have hP₄ := hP.collision hP₃ hcol
  rw [run_bind_eq_ok] at h
  obtain ⟨wp, r₅, hsel, h⟩ := h
  have hP₅ := hP.select hP₄ hsel
  -- a waypoint found is published
  cases wp with
  | none =>
    obtain ⟨-, rfl⟩ := EStateM.Result.ok.inj h
    exact hP₅
  | some p =>
    dsimp only at h
    replace h := run_bind_ok_of (steer_run _ _) h
    replace h := run_bind_ok_of (alter_run _ _) h
    obtain ⟨-, rfl⟩ := EStateM.Result.ok.inj h
    exact hP.flag _ (hP.mission _ hP₅)

/-- **Along a run the property holds once the planner is set up**: the planner is still fresh,
with no tree and no connection flown, or it has the property. -/
theorem planned {r : LocalRun} (h : Planned r) :
    (r.planner.initialized = false ∧ r.planner.tree = {} ∧ r.planner.current = none) ∨ P r := by
  induction h with
  | fresh => exact .inl ⟨rfl, rfl, rfl⟩
  | round sc _ hstep ih =>
    -- a round starts from a fresh planner or from one with the property
    refine .inr (hP.step sc (fun hi => ?_) hstep)
    rcases ih with ⟨h0, -⟩ | hr
    · simp [h0] at hi
    · exact hr
  | mission m _ ih =>
    -- the mission is not the planner's
    exact ih.imp id (hP.mission m)

end Preserved

/-- Every phase of a round keeps the planner started, with a well-formed tree. -/
theorem started_preserved : Preserved Started where
  reset h := resetAt_started h
  mission _ hS := hS.congr rfl rfl
  flag _ hS := hS.congr rfl rfl
  gains hS h := updateGains_started _ hS h
  expand hS h := expand_started _ hS h
  collision hS h := updateCollision_started _ hS h
  select hS h := selectNext_started hS h

/-- Along a run, the planner is fresh, with no tree yet, or set up with a well-formed tree. -/
theorem Planned.fresh_or_started {r : LocalRun} (h : Planned r) :
    (r.planner.initialized = false ∧ r.planner.tree = {}) ∨ Started r :=
  (started_preserved.planned h).imp_left fun h0 => ⟨h0.1, h0.2.1⟩

/-- **Planning keeps the tree well formed.** Along every run of planning rounds that all return,
from a fresh planner, whatever the mission does between rounds and whatever each round sees, the
planner is still fresh, with no tree, or its tree is well formed and passes its own check; and
every round that returns from there leaves a well-formed tree that passes the check. -/
theorem planning_keeps_tree_wf {r : LocalRun} (h : Planned r) :
    (r.planner.initialized = false ∧ r.planner.tree = {} ∨
      TreeWF r.planner.tree ∧ ∀ requireAll, check requireAll r.planner.tree = .ok () r.planner.tree) ∧
    ∀ (sc : Scene) (w : Option Pose) (r' : LocalRun), step sc r = .ok w r' →
      TreeWF r'.planner.tree ∧
        ∀ requireAll, check requireAll r'.planner.tree = .ok () r'.planner.tree := by
  have hready : r.planner.initialized = true → TreeWF r.planner.tree := fun hi =>
    h.fresh_or_started.elim (fun h0 => absurd hi (by simp [h0.1])) Started.wf
  refine ⟨h.fresh_or_started.imp_right fun hS => ⟨hS.wf, hS.wf.check_passes⟩,
    fun sc w r' hstep => ?_⟩
  have hw := (started_preserved.step sc (fun hi => ⟨hi, hready hi⟩) hstep).wf
  exact ⟨hw, hw.check_passes⟩

/-- A fresh planner on default settings starts a run. -/
theorem fresh_planner_keeps_tree_wf :
    Planned (LocalRun.fresh default default default {}) ∧
    ((LocalRun.fresh default default default {}).planner.initialized = false ∧
        (LocalRun.fresh default default default {}).planner.tree = {} ∨
      TreeWF (LocalRun.fresh default default default {}).planner.tree ∧
        ∀ requireAll, check requireAll (LocalRun.fresh default default default {}).planner.tree =
          .ok () (LocalRun.fresh default default default {}).planner.tree) ∧
    ∀ (sc : Scene) (w : Option Pose) (r' : LocalRun),
      step sc (LocalRun.fresh default default default {}) = .ok w r' →
      TreeWF r'.planner.tree ∧
        ∀ requireAll, check requireAll r'.planner.tree = .ok () r'.planner.tree :=
  ⟨.fresh _ _ _ _, planning_keeps_tree_wf (.fresh _ _ _ _)⟩

end LocalPlanner

end Exploration
