import Mathlib
import Exploration.Local.Planner

/-!
# What a planning round does to the mission

The local planner shares the mission state with the supervisor and the global planner. Of all its
computations only a planning round (`LocalPlanner.step`) writes to that state: it switches the
mode to local planning when it starts afresh, and at its end it may publish one waypoint. Every
other computation of the planner leaves the mission exactly as it found it, whether it returns
or fails (`MissionIs m ⦃…⦄ EndsWith m`), and the triples of this module say so, one per
function, each read off the function's body by `mvcgen` from the triples of what it calls.

Main statement: `step_publishes`. A planning round changes neither the published waypoints nor
the reached flag, or it publishes exactly one waypoint, which it does only when the robot had
reached its target, and then the flag is down (`Publishes`). This holds of a round that fails
too: a failure comes before the publication or not at all.
-/

open Std.Do

namespace Exploration

/-- `m'` follows `m` by at most one publication, made while the target was reached: either the
published waypoints and the reached flag are as they were, or the robot had reached its target,
one waypoint was published, and the flag is down. -/
def Mission.Publishes (m m' : Mission) : Prop :=
  (m'.published = m.published ∧ m'.targetReached = m.targetReached) ∨
  (m.targetReached = true ∧ ∃ w, m'.published = m.published ++ [w] ∧ m'.targetReached = false)

namespace Mission

@[simp] theorem signal_published (m : Mission) (mode : PlanningMode) :
    (m.signal mode).published = m.published := by
  unfold signal
  split <;> rfl

@[simp] theorem signal_targetReached (m : Mission) (mode : PlanningMode) :
    (m.signal mode).targetReached = m.targetReached := by
  unfold signal
  split <;> rfl

@[simp] theorem publish_published (m : Mission) (w : Pose) :
    (m.publish w).published = m.published ++ [w] := rfl

@[simp] theorem publish_targetReached (m : Mission) (w : Pose) :
    (m.publish w).targetReached = false := rfl

theorem Publishes.refl (m : Mission) : m.Publishes m := .inl ⟨rfl, rfl⟩

end Mission

namespace LocalPlanner

set_option mvcgen.warning false

/-- The runs of the local planner whose mission is `m`. -/
abbrev MissionIs (m : Mission) : Assertion (.except Error (.arg LocalRun .pure)) :=
  fun r => ⌜r.mission = m⌝

/-- A run ends, returning or failing, with mission `m`. -/
abbrev EndsWith {α : Type} (m : Mission) : PostCond α (.except Error (.arg LocalRun .pure)) :=
  post⟨fun _ r => ⌜r.mission = m⌝, fun _ r => ⌜r.mission = m⌝⟩

/-- The state a run ends in, whether it returns or fails. -/
def endState {α : Type} : EStateM.Result Error LocalRun α → LocalRun
  | .ok _ r => r
  | .error _ r => r

/-- A triple whose two postconditions agree says that property of the state a run ends in. -/
theorem endState_of_triple {α : Type} {x : LocalM α} {P : LocalRun → Prop} {Q : LocalRun → Prop}
    (h : ⦃fun r => ⌜P r⌝⦄ x ⦃post⟨fun _ r => ⌜Q r⌝, fun _ r => ⌜Q r⌝⟩⦄) {r : LocalRun}
    (hr : P r) : Q (endState (x r)) := by
  have hw := h r hr
  simp only [wp, PredTrans.apply, EStateM.run] at hw
  unfold endState
  split <;> simp_all

variable (m : Mission)

/-! ## The building blocks -/

@[spec] theorem onTree_keeps {α : Type} (act : TreeM α) :
    ⦃MissionIs m⦄ onTree act ⦃EndsWith m⦄ := by
  intro r hr
  simp only [wp, PredTrans.apply, EStateM.run, onTree]
  cases act r.planner.tree <;> simpa using hr

@[spec] theorem alter_keeps (f : LocalPlanner → LocalPlanner) :
    ⦃MissionIs m⦄ alter f ⦃EndsWith m⦄ := by
  mvcgen [alter]

@[spec] theorem lift_keeps {α : Type} (x : Except Error α) : ⦃MissionIs m⦄ lift x ⦃EndsWith m⦄ := by
  mvcgen [lift]

@[spec] theorem planner_keeps : ⦃MissionIs m⦄ planner ⦃EndsWith m⦄ := by
  mvcgen [planner]

@[spec] theorem draw_keeps : ⦃MissionIs m⦄ draw ⦃EndsWith m⦄ := by
  mvcgen [draw] <;> simp_all

@[spec] theorem clear_keeps (sc : Scene) : ⦃MissionIs m⦄ clear sc ⦃EndsWith m⦄ := by
  mvcgen [clear]

@[spec] theorem count_keeps (f : PlannerStats → PlannerStats) :
    ⦃MissionIs m⦄ count f ⦃EndsWith m⦄ := by
  mvcgen [count]

@[spec] theorem phase_keeps (n : String) : ⦃MissionIs m⦄ phase n ⦃EndsWith m⦄ := by
  mvcgen [phase]

/-! ## Starting afresh and growing the tree -/

@[spec] theorem resetAt_keeps (o : Pose) : ⦃MissionIs m⦄ resetAt o ⦃EndsWith m⦄ := by
  mvcgen [resetAt] <;> simp_all

@[spec] theorem sample_keeps (sc : Scene) : ⦃MissionIs m⦄ sample sc ⦃EndsWith m⦄ := by
  mvcgen [sample] <;> simp_all

@[spec] theorem connectEach_keeps (sc : Scene) (cfg : LocalSettings) (s : Nat) (p : Vec3)
    (nbs : List Viewpoint) : ⦃MissionIs m⦄ connectEach sc cfg s p nbs ⦃EndsWith m⦄ := by
  induction nbs generalizing m with
  | nil => mvcgen [connectEach]
  | cons nb nbs ih => mvcgen [connectEach, ih] <;> simp_all

@[spec] theorem connect_keeps (sc : Scene) (s : Nat) : ⦃MissionIs m⦄ connect sc s ⦃EndsWith m⦄ := by
  mvcgen [connect] <;> simp_all

@[spec] theorem evaluate_keeps (sc : Scene) (s : Nat) :
    ⦃MissionIs m⦄ evaluate sc s ⦃EndsWith m⦄ := by
  mvcgen [evaluate] <;> simp_all

@[spec] theorem expand_keeps (sc : Scene) : ⦃MissionIs m⦄ expand sc ⦃EndsWith m⦄ := by
  mvcgen [expand] <;> simp_all

@[spec] theorem evaluateEach_keeps (sc : Scene) (vs : List Viewpoint) :
    ⦃MissionIs m⦄ evaluateEach sc vs ⦃EndsWith m⦄ := by
  induction vs generalizing m with
  | nil => mvcgen [evaluateEach]
  | cons v vs ih => mvcgen [evaluateEach, ih] <;> simp_all

@[spec] theorem updateGains_keeps (sc : Scene) : ⦃MissionIs m⦄ updateGains sc ⦃EndsWith m⦄ := by
  mvcgen [updateGains] <;> simp_all

/-! ## Dropping blocked connections -/

@[spec] theorem dropBlocked_keeps (sc : Scene) (ls : List (Bool × Link)) :
    ⦃MissionIs m⦄ dropBlocked sc ls ⦃EndsWith m⦄ := by
  induction ls generalizing m with
  | nil => mvcgen [dropBlocked]
  | cons l ls ih => mvcgen [dropBlocked, ih] <;> simp_all

@[spec] theorem dropBlockedEach_keeps (sc : Scene) (vs : List Viewpoint) :
    ⦃MissionIs m⦄ dropBlockedEach sc vs ⦃EndsWith m⦄ := by
  induction vs generalizing m with
  | nil => mvcgen [dropBlockedEach]
  | cons v vs ih => mvcgen [dropBlockedEach, ih] <;> simp_all

@[spec] theorem updateCollision_keeps (sc : Scene) :
    ⦃MissionIs m⦄ updateCollision sc ⦃EndsWith m⦄ := by
  mvcgen [updateCollision] <;> simp_all

/-! ## Values and rewiring -/

@[spec] theorem spread_keeps (best : Float) (fuel : Nat) (seen : List Int)
    (st : List (Viewpoint × Float × Float)) : ⦃MissionIs m⦄ spread best fuel seen st ⦃EndsWith m⦄ := by
  induction fuel generalizing m best seen st with
  | zero => mvcgen [spread]
  | succ n ih =>
    cases st with
    | nil => mvcgen [spread]
    | cons e st => mvcgen [spread, ih] <;> simp_all

@[spec] theorem gainPerCost_keeps (v : Viewpoint) (g c : Float) :
    ⦃MissionIs m⦄ gainPerCost v g c ⦃EndsWith m⦄ := by
  mvcgen [gainPerCost] <;> simp_all

@[spec] theorem gather_keeps (v : Viewpoint) (n fuel steps : Nat) (cur : Option Viewpoint)
    (g c : Float) : ⦃MissionIs m⦄ gather v n fuel steps cur g c ⦃EndsWith m⦄ := by
  induction fuel generalizing m steps cur g c with
  | zero => mvcgen [gather]
  | succ k ih => mvcgen [gather, ih] <;> simp_all

@[spec] theorem computeValue_keeps (s : Nat) : ⦃MissionIs m⦄ computeValue s ⦃EndsWith m⦄ := by
  mvcgen [computeValue] <;> simp_all

@[spec] theorem climbFrom_keeps (s : Nat) (v : Viewpoint) (fuel : Nat) (cur : Viewpoint) :
    ⦃MissionIs m⦄ climbFrom s v fuel cur ⦃EndsWith m⦄ := by
  induction fuel generalizing m cur with
  | zero => mvcgen [climbFrom]
  | succ k ih => mvcgen [climbFrom, ih] <;> simp_all

@[spec] theorem reachesRoot_keeps (s : Nat) : ⦃MissionIs m⦄ reachesRoot s ⦃EndsWith m⦄ := by
  mvcgen [reachesRoot] <;> simp_all

@[spec] theorem tryEach_keeps (s : Nat) (is : List Nat) (best : Float) (bestIdx : Int) :
    ⦃MissionIs m⦄ tryEach s is best bestIdx ⦃EndsWith m⦄ := by
  induction is generalizing m best bestIdx with
  | nil => mvcgen [tryEach]
  | cons i is ih => mvcgen [tryEach, ih] <;> simp_all

@[spec] theorem selectBest_keeps (s : Nat) : ⦃MissionIs m⦄ selectBest s ⦃EndsWith m⦄ := by
  mvcgen [selectBest] <;> simp_all

@[spec] theorem countNear_keeps (cfg : LocalSettings) (goal : Vec3) (vs : List Viewpoint)
    (q : Value) : ⦃MissionIs m⦄ countNear cfg goal vs q ⦃EndsWith m⦄ := by
  induction vs generalizing m q with
  | nil => mvcgen [countNear]
  | cons v vs ih => mvcgen [countNear, ih] <;> simp_all

@[spec] theorem refreshQuota_keeps (s : Nat) : ⦃MissionIs m⦄ refreshQuota s ⦃EndsWith m⦄ := by
  mvcgen [refreshQuota] <;> simp_all

@[spec] theorem rewireRound_keeps (vs : List Viewpoint) :
    ⦃MissionIs m⦄ rewireRound vs ⦃EndsWith m⦄ := by
  induction vs generalizing m with
  | nil => mvcgen [rewireRound]
  | cons v vs ih => mvcgen [rewireRound, ih] <;> simp_all

@[spec] theorem rewire_keeps (cfg : LocalSettings) (fuel rounds : Nat) :
    ⦃MissionIs m⦄ rewire cfg fuel rounds ⦃EndsWith m⦄ := by
  induction fuel generalizing m rounds with
  | zero => mvcgen [rewire]
  | succ k ih => mvcgen [rewire, ih] <;> simp_all

@[spec] theorem bestChild_keeps (root : Viewpoint) (is : List Nat) (best : Float) (next : Int) :
    ⦃MissionIs m⦄ bestChild root is best next ⦃EndsWith m⦄ := by
  induction is generalizing m best next with
  | nil => mvcgen [bestChild]
  | cons i is ih => mvcgen [bestChild, ih] <;> simp_all

@[spec] theorem selectNext_keeps : ⦃MissionIs m⦄ selectNext ⦃EndsWith m⦄ := by
  mvcgen [selectNext] <;> simp_all

/-! ## A planning round -/

/-- **A planning round publishes at most once, and only with the target reached.** Between the
mode switch at its start and the publication at its end, every phase keeps the mission; a round
that fails fails before it publishes. -/
theorem step_publishes (sc : Scene) :
    ⦃MissionIs m⦄ step sc
      ⦃post⟨fun _ r => ⌜m.Publishes r.mission⌝, fun _ r => ⌜m.Publishes r.mission⌝⟩⦄ := by
  mvcgen [step, steer] <;> simp_all +zetaDelta [Mission.Publishes]

end LocalPlanner

end Exploration
