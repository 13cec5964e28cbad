import Mathlib
import Exploration.Global.Planner
import Exploration.Proofs.Loops
import Exploration.Proofs.MissionFrame

/-!
# The waypoint feed

The global planner hands the robot a loaded path one waypoint at a time, through the mission state
it shares with the supervisor and with the local planner. The robot flies to a waypoint, the
supervisor raises the reached flag, and the next execution step publishes the next waypoint and
lowers the flag again.

Everything that can happen to this feed is an event (`FeedEvent`): a plan to a goal or to
frontiers, a submap taken in, an execution step, a planning round of the local planner on the same
mission, and the supervisor's changes of the reached flag, the pose and the mode. `Feed.apply`
runs one event on the feed; a call that fails leaves what the failure left. Beside the planners'
state, the feed keeps an observer's record: the waypoints of the last successful plan (`loaded`)
and those the global planner published since (`sent`), read off the mission's list of published
waypoints as each execution step extends it.

Main statement: `waypoint_feed`. Over every sequence of events from a fresh global planner,

* the waypoints published since the last successful plan, followed by those still to publish, are
  that plan's waypoints, in order (`sent ++ pending = loaded`);
* the execution is marked finished only by an execution step that found the target reached and no
  waypoint left;
* between two publications, by either planner, the supervisor raised the reached flag again;
* a plan that fails, to a goal or to frontiers, leaves the waypoints, the execution flag and the
  mission as they were.

The step lemmas (`apply_record`, `apply_finished`, `apply_publishes`) say what one event can do;
the trace statements follow from them by induction along the events.
-/

namespace Exploration

namespace GlobalPlanner

/-- What a plan does to the execution: a success loads its waypoints and switches the mission to
global planning; a failure leaves the waypoints, the execution flag and the mission alone. -/
def Loads (p : GlobalPlanner) (m : Mission) (q : GlobalPlanner) (m' : Mission) (r : PlanResult) :
    Prop :=
  if r.success then q.pending = r.waypoints ∧ q.finished = false ∧ m' = m.signal .globalPlanning
  else q.pending = p.pending ∧ q.finished = p.finished ∧ m' = m

theorem Loads.congr {p p' q : GlobalPlanner} {m m' : Mission} {r : PlanResult}
    (hp : p'.pending = p.pending) (hf : p'.finished = p.finished) (h : Loads p' m q m' r) :
    Loads p m q m' r := by
  unfold Loads at *
  rw [hp, hf] at h
  exact h

theorem plan_loads {p q : GlobalPlanner} {map : VoxelMap} {robot : Option Vec3} {m m' : Mission}
    {start goal : Vec3} {r : PlanResult} (h : p.plan map robot m start goal = .ok (q, m', r)) :
    Loads p m q m' r := by
  unfold plan at h
  obtain ⟨r', hr', h⟩ := bind_eq_ok.1 h
  unfold Loads
  split at h <;> cases h <;> simp_all

/-- The frontiers are tried in turn from a planner whose last try failed: the loop ends with a
plan that loads as if made from the planner it started from. -/
theorem forIn_loads {map : VoxelMap} {robot : Option Vec3} {start : Vec3} :
    ∀ (gs : List Frontier) {p q : GlobalPlanner} {m m' : Mission} {r₀ r : PlanResult},
      r₀.success = false →
      forIn gs (p, m, r₀) (fun (g : Frontier) (st : GlobalPlanner × Mission × PlanResult) =>
        match st with
        | (p, mission, _) => do
          let x ← p.plan map robot mission start g.centroid
          match x with
          | (p, mission, r) =>
            if r.success = true then pure (ForInStep.done (p, mission, r))
            else pure (ForInStep.yield (p, mission, r))) = .ok (q, m', r) →
      Loads p m q m' r
  | [], p, q, m, m', r₀, r, h₀, h => by
    rw [List.forIn_nil, pure_eq_ok] at h
    cases h
    simp [Loads, h₀]
  | g :: gs, p, q, m, m', r₀, r, h₀, h => by
    rw [List.forIn_cons] at h
    obtain ⟨step, hstep, hrest⟩ := bind_eq_ok.1 h
    obtain ⟨⟨p₁, m₁, r₁⟩, h₁, hstep⟩ := bind_eq_ok.1 hstep
    have hl := plan_loads h₁
    dsimp only at hstep
    by_cases hs : r₁.success = true
    · -- the first success ends the loop with its plan
      rw [if_pos hs, pure_eq_ok] at hstep
      subst hstep
      rw [pure_eq_ok] at hrest
      cases hrest
      exact hl
    · -- a failure changed neither the waypoints nor the mission: go on from it
      rw [if_neg hs, pure_eq_ok] at hstep
      subst hstep
      have hf : r₁.success = false := by simpa using hs
      unfold Loads at hl
      rw [if_neg hs] at hl
      obtain ⟨hp, hfin, rfl⟩ := hl
      exact (forIn_loads gs hf hrest).congr hp hfin

theorem planFrontiers_loads {p q : GlobalPlanner} {map : VoxelMap} {robot : Option Vec3}
    {m m' : Mission} {start : Vec3} {goals : List Frontier} {r : PlanResult}
    (h : p.planFrontiers map robot m start goals = .ok (q, m', r)) : Loads p m q m' r := by
  unfold planFrontiers at h
  dsimp only at h
  split at h
  · cases h
    simp [Loads]
  · obtain ⟨st, hst, h⟩ := bind_eq_ok.1 h
    rw [pure_eq_ok] at h
    subst h
    exact forIn_loads _ rfl hst

/-- What an execution step can do: nothing (finished, or the target not reached yet); mark the
execution finished when no waypoint is left; or publish the next waypoint. -/
theorem step_cases (p : GlobalPlanner) (m : Mission) :
    (p.step m = (p, m, none) ∧ (p.finished = true ∨ m.targetReached = false)) ∨
    (p.finished = false ∧ m.targetReached = true ∧ p.pending = [] ∧
      p.step m = ({ p with finished := true }, m, none)) ∨
    (p.finished = false ∧ m.targetReached = true ∧ ∃ w rest, p.pending = w :: rest ∧
      p.step m = ({ p with pending := rest }, m.publish w, some w)) := by
  unfold step
  by_cases hc : p.finished = true ∨ m.targetReached = false
  · refine .inl ⟨?_, hc⟩
    rcases hc with hc | hc <;> simp [hc]
  · obtain ⟨hf, hr⟩ : p.finished = false ∧ m.targetReached = true := by simpa using hc
    cases hp : p.pending with
    | nil => exact .inr (.inl ⟨hf, hr, rfl, by simp [hf, hr]⟩)
    | cons w rest => exact .inr (.inr ⟨hf, hr, w, rest, rfl, by simp [hf, hr]⟩)

end GlobalPlanner

/-- Everything that can happen to the waypoint feed. -/
inductive FeedEvent where
  /-- The global planner plans from `start` to `goal`. -/
  | plan (map : VoxelMap) (robot : Option Vec3) (start goal : Vec3)
  /-- The global planner plans from `start` to the reachable frontiers, nearest first. -/
  | planFrontiers (map : VoxelMap) (robot : Option Vec3) (start : Vec3) (goals : List Frontier)
  /-- The global planner takes in a frozen region's submap. -/
  | receive (s : Submap)
  /-- An execution step of the global planner. -/
  | advance
  /-- A planning round of the local planner on the same mission. -/
  | tick (sc : Scene)
  /-- The supervisor sets the reached flag. -/
  | reach (b : Bool)
  /-- The supervisor moves the robot. -/
  | move (p : Pose)
  /-- The supervisor switches the planning mode. -/
  | signal (mode : PlanningMode)

/-- The two planners, the mission they share, and an observer's record of the last successful
plan's waypoints (`loaded`) and of those the global planner published since (`sent`). The
planners never read the record. -/
structure Feed where
  global : GlobalPlanner
  localPlanner : LocalPlanner
  mission : Mission
  loaded : List Pose := []
  sent : List Pose := []

namespace Feed

/-- A fresh global planner beside a local planner and a mission in any state. -/
def fresh (cfg : SearchSettings) (l : LocalPlanner) (m : Mission) : Feed :=
  { global := { settings := cfg }, localPlanner := l, mission := m }

/-- The feed once a plan returned: its planner and mission, and the record reloaded on a
success. -/
def afterPlan (s : Feed) (g : GlobalPlanner) (m : Mission) (r : PlanResult) : Feed :=
  { s with global := g, mission := m, loaded := if r.success then r.waypoints else s.loaded,
           sent := if r.success then [] else s.sent }

/-- Runs one event on the feed. A plan that fails with an error changes nothing; a planning
round of the local planner keeps what it did before it failed. -/
def apply (s : Feed) : FeedEvent → Feed
  | .plan map robot start goal =>
    match s.global.plan map robot s.mission start goal with
    | .ok (g, m, r) => s.afterPlan g m r
    | .error _ => s
  | .planFrontiers map robot start goals =>
    match s.global.planFrontiers map robot s.mission start goals with
    | .ok (g, m, r) => s.afterPlan g m r
    | .error _ => s
  | .receive sub => { s with global := (s.global.receive sub).1 }
  | .advance =>
    match s.global.step s.mission with
    | (g, m, _) =>
      { s with global := g, mission := m,
               sent := s.sent ++ m.published.drop s.mission.published.length }
  | .tick sc =>
    let r := LocalPlanner.endState (LocalPlanner.step sc ⟨s.localPlanner, s.mission⟩)
    { s with localPlanner := r.planner, mission := r.mission }
  | .reach b => { s with mission := { s.mission with targetReached := b } }
  | .move p => { s with mission := { s.mission with pose := p } }
  | .signal mode => { s with mission := s.mission.signal mode }

/-- The record agrees with the global planner: what was published since the last successful
plan, then what is left, is that plan. -/
def Recorded (s : Feed) : Prop := s.sent ++ s.global.pending = s.loaded

theorem afterPlan_recorded {s : Feed} {g : GlobalPlanner} {m : Mission} {r : PlanResult}
    (hs : s.Recorded) (hl : GlobalPlanner.Loads s.global s.mission g m r) :
    (s.afterPlan g m r).Recorded := by
  unfold GlobalPlanner.Loads at hl
  unfold Recorded afterPlan
  split at hl
  · simp_all
  · simp_all [Recorded]

/-- **Every event keeps the record right.** A successful plan starts it afresh; a publication by
the global planner moves the first waypoint left to the end of those sent. -/
theorem apply_record {s : Feed} (hs : s.Recorded) (e : FeedEvent) : (s.apply e).Recorded := by
  cases e with
  | plan map robot start goal =>
    simp only [apply]
    split
    · exact afterPlan_recorded hs (GlobalPlanner.plan_loads ‹_›)
    · exact hs
  | planFrontiers map robot start goals =>
    simp only [apply]
    split
    · exact afterPlan_recorded hs (GlobalPlanner.planFrontiers_loads ‹_›)
    · exact hs
  | receive sub => exact hs
  | advance =>
    simp only [apply, Recorded] at *
    rcases GlobalPlanner.step_cases s.global s.mission with ⟨h, -⟩ | ⟨-, -, -, h⟩ |
      ⟨-, -, w, rest, hp, h⟩ <;> rw [h] <;> simp_all
  | tick sc => exact hs
  | reach b => exact hs
  | move p => exact hs
  | signal mode => exact hs

/-- **Only an execution step finishes the execution**, and only one that finds the target reached
and no waypoint left. -/
theorem apply_finished {s : Feed} {e : FeedEvent} (hf : s.global.finished = false)
    (hf' : (s.apply e).global.finished = true) :
    e = .advance ∧ s.mission.targetReached = true ∧ s.global.pending = [] := by
  cases e with
  | plan map robot start goal =>
    simp only [apply] at hf'
    split at hf'
    · have hl := GlobalPlanner.plan_loads ‹_›
      unfold GlobalPlanner.Loads at hl
      split at hl <;> simp_all [afterPlan]
    · simp_all
  | planFrontiers map robot start goals =>
    simp only [apply] at hf'
    split at hf'
    · have hl := GlobalPlanner.planFrontiers_loads ‹_›
      unfold GlobalPlanner.Loads at hl
      split at hl <;> simp_all [afterPlan]
    · simp_all
  | receive sub => simp_all [apply, GlobalPlanner.receive]
  | advance =>
    simp only [apply] at hf'
    rcases GlobalPlanner.step_cases s.global s.mission with ⟨h, -⟩ | ⟨-, hr, hp, h⟩ |
      ⟨-, -, w, rest, hp, h⟩ <;> rw [h] at hf' <;> simp_all
  | tick sc => simp_all [apply]
  | reach b => simp_all [apply]
  | move p => simp_all [apply]
  | signal mode => simp_all [apply]

/-- A planning round of the local planner, seen on the mission: at most one publication, made
with the target reached. -/
theorem tick_publishes (s : Feed) (sc : Scene) : s.mission.Publishes (s.apply (.tick sc)).mission :=
  LocalPlanner.endState_of_triple (LocalPlanner.step_publishes s.mission sc) (r := ⟨_, _⟩) rfl

/-- **A publication is made with the target reached and lowers the flag**, whichever planner
makes it; the supervisor's events publish nothing. -/
theorem apply_publishes {s : Feed} {e : FeedEvent}
    (h : (s.apply e).mission.published ≠ s.mission.published) :
    s.mission.targetReached = true ∧ (s.apply e).mission.targetReached = false := by
  have hpub : s.mission.Publishes (s.apply e).mission := by
    cases e with
    | plan map robot start goal =>
      simp only [apply] at h ⊢
      split at h
      · have hl := GlobalPlanner.plan_loads ‹_›
        unfold GlobalPlanner.Loads at hl
        split at hl <;> simp_all [afterPlan]
      · exact absurd rfl h
    | planFrontiers map robot start goals =>
      simp only [apply] at h ⊢
      split at h
      · have hl := GlobalPlanner.planFrontiers_loads ‹_›
        unfold GlobalPlanner.Loads at hl
        split at hl <;> simp_all [afterPlan]
      · exact absurd rfl h
    | advance =>
      simp only [apply] at h ⊢
      rcases GlobalPlanner.step_cases s.global s.mission with ⟨h', -⟩ | ⟨-, -, -, h'⟩ |
        ⟨-, hr, w, rest, -, h'⟩ <;> rw [h'] at h ⊢
      · exact absurd rfl h
      · exact absurd rfl h
      · exact .inr ⟨hr, w, rfl, rfl⟩
    | tick sc => exact tick_publishes s sc
    | receive sub => exact absurd rfl h
    | reach b => exact absurd rfl h
    | move p => exact absurd rfl h
    | signal mode => simp [apply] at h
  rcases hpub with ⟨hp, -⟩ | ⟨hr, -, -, hr'⟩
  · exact absurd hp h
  · exact ⟨hr, hr'⟩

/-- The reached flag goes up only by the supervisor's hand. -/
theorem apply_raises {s : Feed} {e : FeedEvent} (hr : s.mission.targetReached = false)
    (hr' : (s.apply e).mission.targetReached = true) :
    e = .reach true ∧ (s.apply e).mission.published = s.mission.published := by
  have hkeep : e ≠ .reach true → (s.apply e).mission.targetReached = s.mission.targetReached ∨
      (s.apply e).mission.targetReached = false := by
    intro hne
    cases e with
    | reach b =>
      cases b with
      | false => exact .inr rfl
      | true => exact absurd rfl hne
    | tick sc =>
      rcases tick_publishes s sc with ⟨-, h⟩ | ⟨-, -, -, h⟩
      · exact .inl h
      · exact .inr h
    | advance =>
      simp only [apply]
      rcases GlobalPlanner.step_cases s.global s.mission with ⟨h, -⟩ | ⟨-, -, -, h⟩ |
        ⟨-, -, w, rest, -, h⟩ <;> rw [h] <;> simp
    | plan map robot start goal =>
      simp only [apply]
      split
      · have hl := GlobalPlanner.plan_loads ‹_›
        unfold GlobalPlanner.Loads at hl
        left
        split at hl <;> simp_all [afterPlan]
      · exact .inl rfl
    | planFrontiers map robot start goals =>
      simp only [apply]
      split
      · have hl := GlobalPlanner.planFrontiers_loads ‹_›
        unfold GlobalPlanner.Loads at hl
        left
        split at hl <;> simp_all [afterPlan]
      · exact .inl rfl
    | receive sub => exact .inl rfl
    | move p => exact .inl rfl
    | signal mode => simp [apply]
  by_cases he : e = .reach true
  · subst he
    exact ⟨rfl, rfl⟩
  · rcases hkeep he with h | h <;> simp_all

end Feed

/-- A Boolean that is false at `a` and true at `b` turns true somewhere between. -/
theorem exists_rise {f : ℕ → Bool} {a b : ℕ} (hab : a ≤ b) (ha : f a = false) (hb : f b = true) :
    ∃ k, a ≤ k ∧ k < b ∧ f k = false ∧ f (k + 1) = true := by
  -- read `f` on `[a, b]` only, constant past `b`, so that the first rise lies inside
  obtain ⟨n, hn, hn'⟩ := Nat.exists_not_and_succ_of_not_zero_of_exists
    (p := fun n => f (a + min n (b - a)) = true) (by simpa using ha) ⟨b - a, by simpa [hab] using hb⟩
  have hlt : n < b - a := by
    by_contra hge
    rw [min_eq_right (show b - a ≤ n by omega)] at hn
    rw [min_eq_right (show b - a ≤ n + 1 by omega)] at hn'
    exact hn hn'
  refine ⟨a + n, by omega, by omega, ?_, ?_⟩
  · simpa [min_eq_left hlt.le] using hn
  · simpa [min_eq_left (show n + 1 ≤ b - a by omega), Nat.add_assoc] using hn'

/-- **The waypoint feed.** Over every sequence of events from a fresh global planner (any local
planner, any mission):

1. in every state, the waypoints published since the last successful plan, then the waypoints
   left, are that plan's waypoints;
2. the execution is marked finished only by an execution step made with the target reached and
   no waypoint left;
3. between any two publications, by either planner, the supervisor raised the reached flag by an
   event that published nothing;
4. a plan to a goal, or to frontiers, that returns a failure leaves the waypoints, the execution
   flag and the mission as they were. -/
theorem waypoint_feed (cfg : SearchSettings) (l : LocalPlanner) (m : Mission)
    (evs : List FeedEvent) :
    let states := List.scanl Feed.apply (Feed.fresh cfg l m) evs
    (∀ s ∈ states, s.sent ++ s.global.pending = s.loaded) ∧
    (∀ i (h : i + 1 < states.length), states[i].global.finished = false →
      states[i + 1].global.finished = true →
      evs[i]? = some .advance ∧ states[i].mission.targetReached = true ∧
        states[i].global.pending = []) ∧
    (∀ i j (h : j + 1 < states.length) (hij : i < j),
      states[i + 1].mission.published ≠ states[i].mission.published →
      states[j + 1].mission.published ≠ states[j].mission.published →
      ∃ k, ∃ hk : k + 1 < states.length, i < k ∧ k < j ∧ evs[k]? = some (.reach true) ∧
        states[k].mission.targetReached = false ∧ states[k + 1].mission.targetReached = true ∧
        states[k + 1].mission.published = states[k].mission.published) ∧
    (∀ (p q : GlobalPlanner) map robot (m m' : Mission) start goal r,
      p.plan map robot m start goal = .ok (q, m', r) → r.success = false →
      q.pending = p.pending ∧ q.finished = p.finished ∧ m' = m) ∧
    (∀ (p q : GlobalPlanner) map robot (m m' : Mission) start goals r,
      p.planFrontiers map robot m start goals = .ok (q, m', r) → r.success = false →
      q.pending = p.pending ∧ q.finished = p.finished ∧ m' = m) := by
  intro states
  -- one event at a time: the state after event `i` is the state before it with the event run
  have hstep : ∀ i (h : i + 1 < states.length),
      ∃ e, evs[i]? = some e ∧ states[i + 1] = states[i].apply e := by
    intro i h
    have hi : i < evs.length := by simpa [states] using h
    exact ⟨evs[i], List.getElem?_eq_getElem hi, List.getElem_succ_scanl h⟩
  refine ⟨?_, ?_, ?_, ?_, ?_⟩
  · -- the record is right at the start and every event keeps it right
    have hall : ∀ (s : Feed) (es : List FeedEvent), s.Recorded →
        ∀ t ∈ List.scanl Feed.apply s es, t.Recorded := by
      intro s es
      induction es generalizing s with
      | nil => simp
      | cons e es ih =>
        intro hs t ht
        rw [List.scanl_cons, List.mem_cons] at ht
        rcases ht with rfl | ht
        · exact hs
        · exact ih _ (Feed.apply_record hs e) t ht
    exact hall _ _ (by simp [Feed.Recorded, Feed.fresh])
  · intro i h hf hf'
    obtain ⟨e, he, hs⟩ := hstep i h
    rw [hs] at hf'
    obtain ⟨rfl, hr, hp⟩ := Feed.apply_finished hf hf'
    exact ⟨he, hr, hp⟩
  · intro i j h hij hi hj
    obtain ⟨ei, -, hi'⟩ := hstep i (by omega)
    obtain ⟨ej, -, hj'⟩ := hstep j h
    rw [hi'] at hi
    rw [hj'] at hj
    obtain ⟨-, hdown⟩ := Feed.apply_publishes hi
    obtain ⟨hup, -⟩ := Feed.apply_publishes hj
    -- the flag is down after publication `i` and up before publication `j`
    obtain ⟨k, hik, hkj, hk, hk'⟩ := exists_rise
      (f := fun n => if hn : n < states.length then states[n].mission.targetReached else false)
      (a := i + 1) (b := j) (by omega)
      (by simpa [← hi', show i + 1 < states.length by omega] using hdown)
      (by simpa [show j < states.length by omega] using hup)
    have hk1 : k + 1 < states.length := by omega
    simp only [show k < states.length by omega, hk1, dite_true] at hk hk'
    obtain ⟨ek, hek, hk''⟩ := hstep k hk1
    rw [hk''] at hk'
    obtain ⟨rfl, hsame⟩ := Feed.apply_raises hk hk'
    refine ⟨k, hk1, by omega, hkj, hek, hk, ?_, ?_⟩
    · rw [hk'']
      exact hk'
    · rw [hk'']
      exact hsame
  · intro p q map robot m m' start goal r h hr
    have hl := GlobalPlanner.plan_loads h
    simpa [GlobalPlanner.Loads, hr] using hl
  · intro p q map robot m m' start goals r h hr
    have hl := GlobalPlanner.planFrontiers_loads h
    simpa [GlobalPlanner.Loads, hr] using hl

end Exploration
