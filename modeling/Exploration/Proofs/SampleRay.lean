import Mathlib
import Exploration.Proofs.TreeGrowth

/-!
# Where a sampled viewpoint lands

`LocalPlanner.sample` puts a new viewpoint on the ray from the tree viewpoint nearest a drawn goal
towards that goal (`sample_on_ray`). The ray advances by cell edges from one edge out while the
distance is below `min (max d dₘᵢₙ) dₘₐₓ + crop` and the ray is traversable there (`advance`); it
is then cut back by `crop` and one edge, and a ray shorter than the least sampling distance fails.

`advance` is written for distances of any ordered kind; the planner runs it on doubles, whose sums
round. In exact arithmetic (an ordered field) its `k`-th distance is `k` edges, and the march reads
off exactly: it stops after some `n` edges, and every distance of fewer edges was below the limit
and traversable (`advance_steps`). The landing distance is `n - 1` edges less `crop`. It is below
the longest path, since the last distance marched was below the limit, or no step was taken and
it is `-crop`. Every multiple of the edge up to the landing distance plus `crop` was probed and
traversable (`landing_exact`).

The march runs for at most `marchFuel` steps, as many as there are bit patterns of a double. The
loop it stands for has no bound (`Marches`); a march of the loop that stops never comes back to a
distance it had, so its distances are distinct doubles and it stops within the fuel
(`Marches.steps_lt`, `advance_marchFuel`).

Main statement: `sample_lands_on_ray`.
-/

namespace Exploration

namespace LocalPlanner

open ViewpointTree

section Exact

variable {K : Type} [Field K] [LinearOrder K] [IsStrictOrderedRing K]
  {free : K → Except Error Bool} {inc limit : K}

omit [IsStrictOrderedRing K] in
/-- **The march in exact arithmetic.** From `k` edges out, the march stops at some `n ≥ k` edges,
and every distance of `j` edges with `k ≤ j < n` was below the limit and traversable. -/
theorem advance_steps : ∀ (fuel k : ℕ) {s : K}, advance free inc limit fuel (k * inc) = .ok s →
    ∃ n : ℕ, k ≤ n ∧ s = n * inc ∧
      ∀ j : ℕ, k ≤ j → j < n → (j : K) * inc < limit ∧ free (j * inc) = .ok true
  | 0, k, s, h => by
    simp only [advance, Except.ok.injEq] at h
    exact ⟨k, le_rfl, h.symm, fun j hk hj => absurd hj (not_lt.2 hk)⟩
  | fuel + 1, k, s, h => by
    unfold advance at h
    by_cases hlt : (k : K) * inc < limit
    · rw [if_pos hlt] at h
      cases hfree : free (k * inc) with
      | error e => simp [hfree, bind, Except.bind] at h
      | ok b =>
        cases b with
        | false =>
          simp only [hfree, bind, Except.bind, Bool.false_eq_true, if_false, Except.ok.injEq] at h
          exact ⟨k, le_rfl, h.symm, fun j hk hj => absurd hj (not_lt.2 hk)⟩
        | true =>
          -- one edge further is `k + 1` edges: the march goes on from there
          simp only [hfree, bind, Except.bind, if_true] at h
          rw [show (k : K) * inc + inc = ((k + 1 : ℕ) : K) * inc by push_cast; ring] at h
          obtain ⟨n, hkn, rfl, hsteps⟩ := advance_steps fuel (k + 1) h
          refine ⟨n, by omega, rfl, fun j hk hj => ?_⟩
          rcases hk.lt_or_eq with hk | rfl
          · exact hsteps j hk hj
          · exact ⟨hlt, hfree⟩
    · rw [if_neg hlt, Except.ok.injEq] at h
      exact ⟨k, le_rfl, h.symm, fun j hk hj => absurd hj (not_lt.2 hk)⟩

/-- **Where the ray lands, in exact arithmetic.** With a positive edge and crop and a limit of
`c + crop` for some `c ≥ 0`, the march from one edge out, cut back by `crop` and one edge, lands
below `c`, and every multiple of the edge up to the landing distance plus `crop` was probed and
traversable. -/
theorem landing_exact {crop c : K} (hinc : 0 < inc) (hcrop : 0 < crop) (hc : 0 ≤ c)
    {fuel : ℕ} {s : K} (h : advance free inc (c + crop) fuel inc = .ok s) :
    s - (crop + inc) < c ∧
      ∀ j : ℕ, 1 ≤ j → (j : K) * inc ≤ s - (crop + inc) + crop → free (j * inc) = .ok true := by
  have h₁ : advance free inc (c + crop) fuel ((1 : ℕ) * inc) = .ok s := by simpa using h
  obtain ⟨n, hn, rfl, hsteps⟩ := advance_steps fuel 1 h₁
  constructor
  · rcases Nat.lt_or_ge 1 n with h1 | h1
    · -- the last distance marched, `n - 1` edges, was below the limit
      obtain ⟨m, rfl⟩ : ∃ m, n = m + 1 := ⟨n - 1, by omega⟩
      have hm := (hsteps m (by omega) (by omega)).1
      push_cast
      linarith
    · -- no step was taken: the landing distance is `-crop`
      obtain rfl : n = 1 := by omega
      simp only [Nat.cast_one, one_mul]
      linarith
  · intro j hj hle
    have hjn : (j : K) * inc < n * inc := by linarith
    exact (hsteps j hj (by exact_mod_cast lt_of_mul_lt_mul_right hjn hinc.le)).2

end Exact

section Halting

variable {K : Type} [Add K] [LT K] [DecidableLT K] {free : K → Except Error Bool} {inc limit : K}

variable (free inc limit) in
/-- The march as the loop runs it, with no bound on its steps: from distance `s` it stops after
`n` steps with outcome `o`, when the distance reaches the limit, the ray is blocked or the probe
fails. -/
inductive Marches : ℕ → K → Except Error K → Prop
  | reached {s : K} : ¬ s < limit → Marches 0 s (.ok s)
  | blocked {s : K} : s < limit → free s = .ok false → Marches 0 s (.ok s)
  | failed {s : K} {e : Error} : s < limit → free s = .error e → Marches 0 s (.error e)
  | next {n : ℕ} {s : K} {o : Except Error K} :
      s < limit → free s = .ok true → Marches n (s + inc) o → Marches (n + 1) s o

namespace Marches

/-- A march that stops after `n` steps is run to its end by any fuel above `n`. -/
theorem advance_eq {n : ℕ} {s : K} {o : Except Error K} (h : Marches free inc limit n s o) :
    ∀ fuel, n < fuel → advance free inc limit fuel s = o := by
  induction h with
  | reached hs =>
    rintro (_ | fuel) hf
    · omega
    · simp [advance, hs]
  | blocked hs hfree =>
    rintro (_ | fuel) hf
    · omega
    · simp [advance, hs, hfree, bind, Except.bind]
  | failed hs hfree =>
    rintro (_ | fuel) hf
    · omega
    · simp [advance, hs, hfree, bind, Except.bind]
  | next hs hfree _ ih =>
    rintro (_ | fuel) hf
    · omega
    · simp only [advance, if_pos hs, hfree, bind, Except.bind, if_true]
      exact ih fuel (by omega)

omit [DecidableLT K] in
/-- The loop is deterministic: a distance stops after one number of steps, with one outcome. -/
theorem unique {n n' : ℕ} {s : K} {o o' : Except Error K} (h : Marches free inc limit n s o)
    (h' : Marches free inc limit n' s o') : n = n' ∧ o = o' := by
  induction h generalizing n' with
  | reached hs => cases h' <;> simp_all
  | blocked hs hfree => cases h' <;> simp_all
  | failed hs hfree => cases h' <;> simp_all
  | next hs hfree _ ih =>
    cases h' with
    | reached hs' => exact absurd hs hs'
    | blocked _ hfree' => simp_all
    | failed _ hfree' => simp_all
    | next _ _ h'' => 
      obtain ⟨rfl, rfl⟩ := ih h''
      exact ⟨rfl, rfl⟩

omit [DecidableLT K] in
/-- After `i` of its steps, a march goes on from the distance reached, `i` steps fewer. -/
theorem drop {n : ℕ} {s : K} {o : Except Error K} (h : Marches free inc limit n s o) :
    ∀ i ≤ n, Marches free inc limit (n - i) ((· + inc)^[i] s) o := by
  induction h with
  | reached hs =>
    intro i hi
    obtain rfl : i = 0 := by omega
    exact .reached hs
  | blocked hs hfree =>
    intro i hi
    obtain rfl : i = 0 := by omega
    exact .blocked hs hfree
  | failed hs hfree =>
    intro i hi
    obtain rfl : i = 0 := by omega
    exact .failed hs hfree
  | next hs hfree hrest ih =>
    rintro (_ | i) hi
    · exact .next hs hfree hrest
    · simpa using ih i (by omega)

omit [DecidableLT K] in
/-- A march that stops never comes back to a distance it had. -/
theorem iterate_injective {n : ℕ} {s : K} {o : Except Error K} (h : Marches free inc limit n s o)
    {i j : ℕ} (hi : i ≤ n) (hj : j ≤ n) (hij : (· + inc)^[i] s = (· + inc)^[j] s) : i = j := by
  have hi' := h.drop i hi
  rw [hij] at hi'
  have := (hi'.unique (h.drop j hj)).1
  omega

end Marches

end Halting

/-- **A march of doubles stops within its fuel.** Its distances are distinct doubles, so there
are fewer steps than bit patterns of a double, and the planner's fuel runs every march that stops
to its end. -/
theorem Marches.steps_lt {free : Float → Except Error Bool} {inc limit s : Float} {n : ℕ}
    {o : Except Error Float} (h : Marches free inc limit n s o) : n < marchFuel := by
  let bits : Fin (n + 1) → Fin UInt64.size := fun i => ((· + inc)^[i] s).toBits.toFin
  have hbits : Function.Injective bits := by
    intro i j hij
    have hfloat : (· + inc)^[i] s = (· + inc)^[j] s :=
      Float.toBits_inj.1 (UInt64.toFin_inj.1 hij)
    exact Fin.ext (h.iterate_injective (by omega) (by omega) hfloat)
  have := Fintype.card_le_of_injective bits hbits
  simp only [Fintype.card_fin] at this
  have hsize : UInt64.size = marchFuel := by decide
  omega

/-- The planner's march runs every march that stops to its end. -/
theorem advance_marchFuel {free : Float → Except Error Bool} {inc limit s : Float} {n : ℕ}
    {o : Except Error Float} (h : Marches free inc limit n s o) :
    advance free inc limit marchFuel s = o :=
  h.advance_eq _ h.steps_lt

/-- The limit of the march: the distance to the goal, raised to the least sampling distance and
cut to the longest path, plus the crop. -/
theorem marchLimit_ok {cfg : LocalSettings} {dist limit : Float}
    (h : (do
      let capped ← Value.smaller (← Value.larger (.num dist) cfg.minSamplingDistance) cfg.maxPathLength
      return (← capped.toNumber) + (← cfg.cropping.toNumber) : Except Error Float) = .ok limit) :
    ∃ big capped c crop, Value.larger (.num dist) cfg.minSamplingDistance = .ok big ∧
      Value.smaller big cfg.maxPathLength = .ok capped ∧ capped.toNumber = .ok c ∧
      cfg.cropping.toNumber = .ok crop ∧ limit = c + crop := by
  cases hbig : Value.larger (.num dist) cfg.minSamplingDistance with
  | error e => simp [hbig, bind, Except.bind] at h
  | ok big =>
    cases hcap : Value.smaller big cfg.maxPathLength with
    | error e => simp [hbig, hcap, bind, Except.bind] at h
    | ok capped =>
      cases hc : capped.toNumber with
      | error e => simp [hbig, hcap, hc, bind, Except.bind] at h
      | ok c =>
        cases hcrop : cfg.cropping.toNumber with
        | error e => simp [hbig, hcap, hc, hcrop, bind, Except.bind] at h
        | ok crop =>
          simp only [hbig, hcap, hc, hcrop, bind, Except.bind, pure, Except.pure,
            Except.ok.injEq] at h
          exact ⟨big, capped, c, crop, rfl, hcap, hc, rfl, h.symm⟩

/-- Where `sample` puts a pose on run `r`: on the ray from the viewpoint `n` that the tree's index
finds first nearest a goal, at least a billionth from it, along the unit direction `d` towards the
goal. The distances marched stop below `min (max dist dₘᵢₙ) dₘₐₓ + crop` (`dist` the distance to
the goal) or where the ray is not traversable, at `s`; the pose lies at `s` less `crop` and one
edge, a distance that is not below the least sampling distance. -/
def OnSampledRay (sc : Scene) (r : LocalRun) (pose : Pose) : Prop :=
  ∃ (goal : Vec3) (n : Viewpoint) (rest : List Viewpoint) (big capped : Value) (c crop s : Float),
    let d := (goal - n.position).divBy (goal - n.position).norm
    let inc := sc.map.frame.size
    ViewpointTree.nearest goal (.int 1) r.planner.tree = .ok (n :: rest) r.planner.tree ∧
    ¬ (goal - n.position).norm < 1e-9 ∧
    Value.larger (.num (goal - n.position).norm) r.planner.settings.minSamplingDistance = .ok big ∧
    Value.smaller big r.planner.settings.maxPathLength = .ok capped ∧
    capped.toNumber = .ok c ∧ r.planner.settings.cropping.toNumber = .ok crop ∧
    advance (fun t => sc.map.traversableActive
        (if sc.seesRobot then some r.mission.pose.position else none) (n.position + d.scale t))
      inc (c + crop) marchFuel inc = .ok s ∧
    Value.lessThan (.num (s - (crop + inc))) r.planner.settings.minSamplingDistance = .ok false ∧
    pose.position = n.position + d.scale (s - (crop + inc))

/-- **A sampled pose lies on the marched ray.** The draws change only the generator, so the goal
is looked up in the tree and the ray tested in the map and robot position of the call. -/
theorem sample_on_ray {sc : Scene} {r r' : LocalRun} {pose : Pose}
    (h : sample sc r = .ok (some pose) r') : OnSampledRay sc r pose := by
  unfold sample at h
  rw [run_bind_eq_ok] at h
  obtain ⟨p, r₀, hp, h⟩ := h
  rw [planner_run, EStateM.Result.ok.injEq] at hp
  obtain ⟨rfl, rfl⟩ := hp
  -- the two draws of the direction
  rw [run_bind_eq_ok] at h
  obtain ⟨x₁, r₁, hd₁, h⟩ := h
  obtain ⟨g₁, rfl⟩ : ∃ g, r₁ = r.withRng g := ⟨_, DrawsOnly.draw _ _ _ hd₁⟩
  rw [run_bind_eq_ok] at h
  obtain ⟨x₂, r₂, hd₂, h⟩ := h
  obtain ⟨g₂, rfl⟩ : ∃ g, r₂ = (r.withRng g₁).withRng g := ⟨_, DrawsOnly.draw _ _ _ hd₂⟩
  rw [LocalRun.withRng_withRng, run_bind_eq_ok] at h
  obtain ⟨rho, r₃, hrho, h⟩ := h
  obtain ⟨-, rfl⟩ := lift_eq_ok.1 hrho
  rw [run_bind_eq_ok] at h
  obtain ⟨st, r₄, hget, h⟩ := h
  obtain ⟨rfl, rfl⟩ : st = r.withRng g₂ ∧ r₄ = r.withRng g₂ := by
    simpa [MonadState.get, getThe, MonadStateOf.get, EStateM.get, eq_comm] using hget
  -- the nearest viewpoint, found in the tree of the call
  rw [run_bind_eq_ok] at h
  obtain ⟨nbs, r₅, hn, h⟩ := h
  obtain ⟨t₅, hnear, rfl⟩ := onTree_eq_ok.1 hn
  have ht₅ := nearest_state hnear
  subst ht₅
  rcases nbs with _ | ⟨n, rest⟩
  · simp [pure, EStateM.pure] at h
  · dsimp only at h
    split at h
    · simp [pure, EStateM.pure] at h
    · rename_i hd
      -- the limit, the march and the cut
      rw [LocalRun.withTree_self, run_bind_eq_ok] at h
      obtain ⟨limit, r₆, hlim, h⟩ := h
      obtain ⟨hlimit, rfl⟩ := lift_eq_ok.1 hlim
      obtain ⟨big, capped, c, crop, hbig, hcap, hc, hcrop, rfl⟩ := marchLimit_ok hlimit
      rw [run_bind_eq_ok] at h
      obtain ⟨ok, r₇, hok, h⟩ := h
      rw [clear_run, EStateM.Result.ok.injEq] at hok
      obtain ⟨rfl, rfl⟩ := hok
      rw [run_bind_eq_ok] at h
      obtain ⟨s, r₈, hs, h⟩ := h
      obtain ⟨hadv, rfl⟩ := lift_eq_ok.1 hs
      rw [run_bind_eq_ok] at h
      obtain ⟨crop', r₉, hcrop', h⟩ := h
      obtain ⟨hcrop'', rfl⟩ := lift_eq_ok.1 hcrop'
      rw [hcrop, Except.ok.injEq] at hcrop''
      subst hcrop''
      rw [run_bind_eq_ok] at h
      obtain ⟨short, r₁₀, hshort, h⟩ := h
      obtain ⟨hless, rfl⟩ := lift_eq_ok.1 hshort
      cases short with
      | true => simp [pure, EStateM.pure] at h
      | false =>
        simp only [Bool.false_eq_true, if_false] at h
        rw [run_bind_eq_ok] at h
        obtain ⟨yaw, r₁₁, hyaw, h⟩ := h
        simp only [pure, EStateM.pure, EStateM.Result.ok.injEq, Option.some.injEq] at h
        obtain ⟨rfl, rfl⟩ := h
        exact ⟨_, n, rest, big, capped, c, crop, s, hnear, hd, hbig, hcap, hc, hcrop, hadv, hless, rfl⟩

/-- **Where a sampled viewpoint lands.** A pose that `sample` returns lies on the ray from the
tree viewpoint nearest the goal towards the goal, at the landing distance of the march. In exact
arithmetic, with a positive edge, crop, distance to the goal and longest path, the march with
limit `min (max dist dₘᵢₙ) dₘₐₓ + crop` lands, once the distance passes the planner's check, at
no less than the least sampling distance and below the longest path, and every multiple of the
edge up to the landing distance plus `crop` was probed and traversable. -/
theorem sample_lands_on_ray :
    (∀ (sc : Scene) (r r' : LocalRun) (pose : Pose),
      sample sc r = .ok (some pose) r' → OnSampledRay sc r pose) ∧
    ∀ (K : Type) [Field K] [LinearOrder K] [IsStrictOrderedRing K] (free : K → Except Error Bool)
      (inc crop dist msd mpl : K) (fuel : ℕ) (s : K),
      0 < inc → 0 < crop → 0 < dist → 0 < mpl →
      advance free inc (min (max dist msd) mpl + crop) fuel inc = .ok s →
      ¬ s - (crop + inc) < msd →
      msd ≤ s - (crop + inc) ∧ s - (crop + inc) < mpl ∧
        ∀ j : ℕ, 1 ≤ j → (j : K) * inc ≤ s - (crop + inc) + crop → free (j * inc) = .ok true := by
  refine ⟨fun _ _ _ _ h => sample_on_ray h, ?_⟩
  intro K _ _ _ free inc crop dist msd mpl fuel s hinc hcrop hdist hmpl h hshort
  have hc : 0 ≤ min (max dist msd) mpl := le_min (hdist.le.trans (le_max_left _ _)) hmpl.le
  obtain ⟨hbelow, hprobes⟩ := landing_exact hinc hcrop hc h
  exact ⟨not_lt.1 hshort, hbelow.trans_le (min_le_right _ _), hprobes⟩

/-- On unit edges, with the ray blocked from 2.5 on, a goal 4 away, a least sampling distance of 1,
a longest path of 3 and a crop of 1: the march stops at 3 edges and lands at 1. -/
theorem landing_before_block :
    advance (fun t : ℚ => (.ok (decide (t < 5 / 2)) : Except Error Bool)) 1
      (min (max 4 1) 3 + 1) 10 1 = .ok 3 ∧
    ((1 : ℚ) ≤ 3 - (1 + 1) ∧ 3 - (1 + 1) < (3 : ℚ) ∧
      ∀ j : ℕ, 1 ≤ j → (j : ℚ) * 1 ≤ 3 - (1 + 1) + 1 →
        (.ok (decide ((j : ℚ) * 1 < 5 / 2)) : Except Error Bool) = .ok true) := by
  have hadv : advance (fun t : ℚ => (.ok (decide (t < 5 / 2)) : Except Error Bool)) 1
      (min (max 4 1) 3 + 1) 10 1 = .ok 3 := by
    norm_num [advance, bind, Except.bind]
  exact ⟨hadv, sample_lands_on_ray.2 ℚ _ 1 1 4 1 3 10 3 (by norm_num) (by norm_num) (by norm_num)
    (by norm_num) hadv (by norm_num)⟩

end LocalPlanner

end Exploration
