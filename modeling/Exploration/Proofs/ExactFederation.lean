import Mathlib
import Exploration.Proofs.BestFirst
import Exploration.Proofs.FrameAlgebra

/-!
# The federation search in exact arithmetic

The search over a federation of submaps lists the steps out of a vertex through a view of the
federation (`Federation.View.steps`). On a view with real coordinates whose lengths are Euclidean
(`View.Exact`: orthogonal poses, integer ids, no vertex that is the goal mark, bridges listed at
their vertices' positions), every step costs the distance between the positions of its ends
(`View.Exact.steps_metric`). For a step along an edge the length is measured in the submap's own
frame, and it is the distance in the common frame because the pose is an isometry
(`Transform.euclid_apply_sub`). The distance left to the goal is then a consistent estimate, by the
triangle inequality (`View.Exact.consistent`), and the search is the best-first search of
`Exploration.Proofs.BestFirst`.

Every walk of the search graph, from the start through the entry vertices, costs the length of the
polyline from the start through the positions of its vertices (`View.Exact.walk_cost`). So
(`View.exact_search_shortest_route`):

* when the search closes the goal mark, the distance from the start to the first vertex of its
  path plus the length of the path through the vertices' positions is the least cost of a walk to
  the goal mark;
* given rounds enough, it runs out of open vertices only when no walk reaches the goal mark;
* given rounds enough, when a walk reaches the goal mark, it succeeds or stops at its iteration
  limit.

None of this holds when a vertex of the federation is the goal mark `(-1, -1)`: that vertex ends
the search at once, at the position of the goal (`sentinel_route_below_goal_distance`).
-/

namespace Exploration

open scoped Matrix

section Euclid

theorem Vec3.toFun_sub {K : Type} [Sub K] (a b : Vec3 K) : (a - b).toFun = a.toFun - b.toFun := by
  ext i
  fin_cases i <;> rfl

namespace Vec3

/-- The Euclidean length of a vector of reals: the root of its dot product with itself. -/
noncomputable def euclid (p : Vec3 ℝ) : ℝ := Real.sqrt (p.toFun ⬝ᵥ p.toFun)

/-- The length is the norm of the Euclidean space. -/
theorem euclid_eq_norm (p : Vec3 ℝ) :
    euclid p = ‖(WithLp.toLp 2 p.toFun : EuclideanSpace ℝ (Fin 3))‖ := by
  rw [euclid, EuclideanSpace.norm_eq]
  simp [dotProduct, sq]

theorem euclid_nonneg (p : Vec3 ℝ) : 0 ≤ euclid p := Real.sqrt_nonneg _

/-- The length of a difference is the distance between the two points. -/
theorem euclid_sub (a b : Vec3 ℝ) : euclid (a - b) =
    Dist.dist (WithLp.toLp 2 a.toFun : EuclideanSpace ℝ (Fin 3)) (WithLp.toLp 2 b.toFun) := by
  rw [euclid_eq_norm, dist_eq_norm, toFun_sub, WithLp.toLp_sub]

@[simp] theorem euclid_sub_self (a : Vec3 ℝ) : euclid (a - a) = 0 := by
  rw [euclid_sub, dist_self]

/-- The triangle inequality. -/
theorem euclid_sub_le (a b c : Vec3 ℝ) : euclid (a - c) ≤ euclid (a - b) + euclid (b - c) := by
  rw [euclid_sub, euclid_sub, euclid_sub]
  exact dist_triangle _ _ _

theorem euclid_sq (p : Vec3 ℝ) : euclid p ^ 2 = p.toFun ⬝ᵥ p.toFun := by
  rw [euclid_eq_norm, EuclideanSpace.real_norm_sq_eq]
  simp [dotProduct, sq]

/-- The length of the polyline through points in order. -/
noncomputable def polyline : List (Vec3 ℝ) → ℝ
  | a :: b :: rest => euclid (b - a) + polyline (b :: rest)
  | _ => 0

@[simp] theorem polyline_nil : polyline [] = 0 := rfl

@[simp] theorem polyline_singleton (a : Vec3 ℝ) : polyline [a] = 0 := rfl

@[simp] theorem polyline_cons_cons (a b : Vec3 ℝ) (rest : List (Vec3 ℝ)) :
    polyline (a :: b :: rest) = euclid (b - a) + polyline (b :: rest) := rfl

/-- A point appended to a polyline adds its distance from the last point. -/
theorem polyline_concat : ∀ (ps : List (Vec3 ℝ)) {p : Vec3 ℝ} (q : Vec3 ℝ),
    ps.getLast? = some p → polyline (ps ++ [q]) = polyline ps + euclid (q - p)
  | [], _, _, h => absurd h (by simp)
  | [a], p, q, h => by
    rw [List.getLast?_singleton, Option.some.injEq] at h
    subst h
    simp
  | a :: b :: rest, p, q, h => by
    rw [List.getLast?_cons_cons] at h
    rw [List.cons_append, List.cons_append, polyline_cons_cons, ← List.cons_append,
      polyline_concat (b :: rest) q h, polyline_cons_cons, add_assoc]

end Vec3

/-- **An orthogonal transform keeps distances**: lengths measured in a submap's frame are lengths
in the common frame. -/
theorem Transform.euclid_apply_sub {T : Transform ℝ}
    (hT : T.rot.toMatrix ∈ Matrix.orthogonalGroup (Fin 3) ℝ) (a b : Vec3 ℝ) :
    Vec3.euclid (T.apply a - T.apply b) = Vec3.euclid (a - b) := by
  have hdiff : (T.apply a - T.apply b).toFun = T.rot.toMatrix *ᵥ (a - b).toFun := by
    rw [Vec3.toFun_sub, toFun_apply, toFun_apply, Vec3.toFun_sub, Matrix.mulVec_sub,
      add_sub_add_right_eq_sub]
  have hRR : T.rot.toMatrixᵀ * T.rot.toMatrix = 1 :=
    (Matrix.mem_orthogonalGroup_iff' (Fin 3) ℝ).1 hT
  -- `(R v) ⬝ (R v) = v ⬝ (Rᵀ R v) = v ⬝ v`
  have hdot : ∀ v : Fin 3 → ℝ, (T.rot.toMatrix *ᵥ v) ⬝ᵥ (T.rot.toMatrix *ᵥ v) = v ⬝ᵥ v := by
    intro v
    rw [Matrix.dotProduct_mulVec, ← Matrix.vecMul_transpose, Matrix.vecMul_vecMul, hRR,
      Matrix.vecMul_one]
  apply (pow_left_inj₀ (Vec3.euclid_nonneg _) (Vec3.euclid_nonneg _) two_ne_zero).1
  rw [Vec3.euclid_sq, Vec3.euclid_sq, hdiff, hdot]

end Euclid

namespace VertexRef

@[simp] theorem goal_beq_goal : (goal == goal) = true :=
  (beq_iff_eq goal_isInt goal_isInt).2 rfl

theorem beq_goal_eq_false {v : VertexRef} (hv : v.IsInt) (hne : v ≠ goal) :
    (v == goal) = false := by
  cases h : (v == goal) with
  | false => rfl
  | true => exact absurd ((beq_iff_eq hv goal_isInt).1 h) hne

end VertexRef

namespace Federation

section Places

variable {L : Type} [Add L] [Mul L] [OfNat L 0] [MulAdd L]
  (find : Value → Except Error (Submap L)) (goal : Vec3 L)

@[simp] theorem placeOf_goal : placeOf find goal VertexRef.goal = goal := by
  rw [placeOf, if_pos VertexRef.goal_beq_goal]

variable {find goal}

/-- A real vertex is placed at its position in its submap. -/
theorem placeOf_of_find {v : VertexRef} (hv : v.IsInt) (hne : v ≠ VertexRef.goal) {s : Submap L}
    (hs : find v.submap = .ok s) : placeOf find goal v = position s v.vertex := by
  rw [placeOf, if_neg (by rw [VertexRef.beq_goal_eq_false hv hne]; exact Bool.false_ne_true), hs]

/-- The position of a vertex found in a submap is the pose's image of its point. -/
theorem position_of_vertex {s : Submap L} {v : Value} {x : SkeletonVertex L}
    (h : s.graph.vertex v = .ok x) : position s v = s.pose.apply x.point := by
  simp [position, Submap.vertexWorld, h, bind, Except.bind, Except.toOption]

end Places

namespace View

/-- A view of a federation in exact arithmetic with the shape of the planner's when its ids are
integers: lengths are Euclidean; every submap found has an orthogonal pose, vertices of integer
ids, none of them the goal mark, and edges between integer ids; every bridge from a point lists a
vertex of integer ids other than the goal mark, at its position in its submap, with its distance
from the point. -/
structure Exact (V : View ℝ (WithTop ℝ)) : Prop where
  length : ∀ p, V.length p = (Vec3.euclid p : WithTop ℝ)
  orthogonal : ∀ sid s, V.find sid = .ok s → s.pose.rot.toMatrix ∈ Matrix.orthogonalGroup (Fin 3) ℝ
  vertices : ∀ sid s, V.find sid = .ok s → ∀ x ∈ s.graph.vertices,
    (∃ n : Int, x.id = .int n) ∧ VertexRef.mk sid x.id ≠ VertexRef.goal
  edgeEnds : ∀ sid s, V.find sid = .ok s → ∀ e ∈ s.graph.edges,
    (∃ n : Int, e.start = .int n) ∧ ∃ n : Int, e.stop = .int n
  bridges : ∀ home p bs, V.bridgesAt home p = .ok bs → ∀ b ∈ bs,
    b.1.IsInt ∧ b.1 ≠ VertexRef.goal ∧ (∃ s, V.find b.1.submap = .ok s ∧ b.2.1 = position s b.1.vertex) ∧
      b.2.2 = (Vec3.euclid (b.2.1 - p) : WithTop ℝ)

/-- The entries of a search from `start`: the entry vertices, each at its distance from the
start. -/
noncomputable def entryCosts (V : View ℝ (WithTop ℝ)) (goal start : Vec3 ℝ)
    (starts : List VertexRef) : List (VertexRef × ℝ) :=
  starts.map fun v => (v, Vec3.euclid (placeOf V.find goal v - start))

/-- The vertices `Vs` hold every vertex a search can close: each of integer ids other than the
goal mark lists its steps, at most `D` of them, each to a vertex of `Vs` or to the goal mark. -/
def StepsWithin (V : View ℝ (WithTop ℝ)) (goal : Vec3 ℝ) (exits Vs : List VertexRef) (D : Nat) :
    Prop :=
  ∀ u ∈ Vs, u.IsInt → u ≠ VertexRef.goal → ∃ L, V.steps goal exits u = .ok L ∧ L.length ≤ D ∧
    ∀ s ∈ L, s.1 ∈ Vs ∨ s.1 = VertexRef.goal

variable {V : View ℝ (WithTop ℝ)} (hV : V.Exact) {goal : Vec3 ℝ}
include hV

/-- The other end of an edge found from a real vertex is a real vertex. -/
theorem Exact.edge_target {u : VertexRef} {s : Submap ℝ} {id w : Value} {e : SkeletonEdge}
    {nv : SkeletonVertex ℝ} (hu : u.IsInt) (hs : V.find u.submap = .ok s)
    (he : s.graph.edge id = .ok e) (hnv : s.graph.vertex (e.other w) = .ok nv) :
    (VertexRef.mk u.submap (e.other w)).IsInt ∧ VertexRef.mk u.submap (e.other w) ≠ VertexRef.goal := by
  obtain ⟨⟨a, ha⟩, ⟨b, hb⟩⟩ := hV.edgeEnds _ _ hs e (SkeletonGraph.mem_of_edge_ok he)
  obtain ⟨k, hk⟩ : ∃ k : Int, e.other w = .int k := by
    rcases SkeletonEdge.other_eq e w with h | h
    · exact ⟨a, h.trans ha⟩
    · exact ⟨b, h.trans hb⟩
  obtain ⟨hmem, hsame⟩ := SkeletonGraph.mem_of_vertex_ok hnv
  obtain ⟨⟨n, hn⟩, hne⟩ := hV.vertices _ _ hs nv hmem
  -- the vertex found has the id looked up, both being integers
  have hid : nv.id = e.other w := by
    rw [hk] at hsame ⊢
    exact (Value.same_int_iff hn k).1 hsame
  obtain ⟨i, j, hij⟩ := hu
  refine ⟨⟨i, k, by rw [hij, hk]⟩, ?_⟩
  rw [← hid]
  exact hne

/-- **Every step costs the distance between the positions of its ends**, and carries the distance
left from its end to the goal. -/
theorem Exact.steps_metric {exits : List VertexRef} {u : VertexRef} (hu : u.IsInt)
    (hne : u ≠ VertexRef.goal) {L : List (VertexRef × WithTop ℝ × WithTop ℝ)}
    (h : V.steps goal exits u = .ok L) :
    ∀ s ∈ L, s.1.IsInt ∧
      s.2.1 = (Vec3.euclid (placeOf V.find goal s.1 - placeOf V.find goal u) : WithTop ℝ) ∧
      s.2.2 = (Vec3.euclid (goal - placeOf V.find goal s.1) : WithTop ℝ) := by
  rcases steps_cases h with ⟨-, rfl⟩ | ⟨-, s, vx, edges, hs, hvx, hedges, hrest⟩
  · -- an exit vertex leads to the goal mark only, at its distance
    intro s hs
    rw [List.mem_singleton] at hs
    subst hs
    refine ⟨VertexRef.goal_isInt, ?_, ?_⟩
    · rw [placeOf_goal, hV.length]
    · rw [placeOf_goal, Vec3.euclid_sub_self, WithTop.coe_zero]
  · have hpu : placeOf V.find goal u = s.pose.apply vx.point := by
      rw [placeOf_of_find hu hne hs, position_of_vertex hvx]
    -- along an edge: the length in the submap's frame is the distance of the images
    have hE : ∀ x ∈ edges, x.1.IsInt ∧
        x.2.1 = (Vec3.euclid (placeOf V.find goal x.1 - placeOf V.find goal u) : WithTop ℝ) ∧
        x.2.2 = (Vec3.euclid (goal - placeOf V.find goal x.1) : WithTop ℝ) := by
      intro x hx
      obtain ⟨eid, -, hx⟩ := exists_of_mapM_ok hedges x hx
      obtain ⟨e, nv, he, hnv, rfl⟩ := edgeStep_ok hx
      obtain ⟨hint, hgoal⟩ := hV.edge_target hu hs he hnv
      have hpv : placeOf V.find goal ⟨u.submap, e.other vx.id⟩ = s.pose.apply nv.point := by
        rw [placeOf_of_find hint hgoal hs, position_of_vertex hnv]
      refine ⟨hint, ?_, ?_⟩ <;> dsimp only
      · rw [hV.length, hpv, hpu, Transform.euclid_apply_sub (hV.orthogonal _ _ hs)]
      · rw [hV.length, hpv, position_of_vertex hnv]
    rcases hrest with ⟨-, bs, hbs, rfl⟩ | ⟨-, rfl⟩
    · -- over a bridge: listed at the position of the vertex it reaches
      intro x hx
      rcases List.mem_append.1 hx with hx | hx
      · exact hE x hx
      · obtain ⟨b, hb, rfl⟩ := List.mem_map.1 hx
        obtain ⟨hbint, hbne, ⟨s', hs', hpos⟩, hlen⟩ := hV.bridges _ _ _ hbs b hb
        have hpb : placeOf V.find goal b.1 = b.2.1 := by
          rw [placeOf_of_find hbint hbne hs', hpos]
        exact ⟨hbint, by rw [hpb, hlen], by rw [hV.length, hpb]⟩
    · exact hE

variable (goal) in
/-- **The distance left to the goal is a consistent estimate** of the steps. -/
theorem Exact.consistent (exits : List VertexRef) :
    Consistent (V.steps goal exits) fun v => Vec3.euclid (goal - placeOf V.find goal v) := by
  intro u hu hne L hL s hs
  obtain ⟨hint, hcost, hleft⟩ := hV.steps_metric hu hne hL s hs
  refine ⟨hint, _, hcost, hleft, ?_⟩
  -- the triangle through the step's end
  calc Vec3.euclid (goal - placeOf V.find goal u)
      ≤ Vec3.euclid (goal - placeOf V.find goal s.1) +
        Vec3.euclid (placeOf V.find goal s.1 - placeOf V.find goal u) := Vec3.euclid_sub_le _ _ _
    _ = _ := add_comm _ _

/-- The first state of a search is the entries queued with the distance left as estimate. -/
theorem Exact.entries_eq_seed (start : Vec3 ℝ) (starts : List VertexRef) :
    V.entries goal start starts = SearchState.seed (V.entryCosts goal start starts)
      fun v => Vec3.euclid (goal - placeOf V.find goal v) := by
  rw [entries, SearchState.seed, entryCosts, List.foldl_map]
  simp only [hV.length]

variable {start : Vec3 ℝ} {starts exits : List VertexRef}

omit hV in
variable (V goal start) in
theorem entryCosts_isInt (hstarts : ∀ v ∈ starts, v.IsInt) :
    ∀ x ∈ V.entryCosts goal start starts, x.1.IsInt := by
  intro x hx
  obtain ⟨v, hv, rfl⟩ := List.mem_map.1 hx
  exact hstarts v hv

/-- **Every walk costs the length of its route**: the polyline from the start through the positions
of its vertices, the first of which is an entry vertex. -/
theorem Exact.walk_cost (hstarts : ∀ v ∈ starts, v.IsInt) {ws : List VertexRef} {c : ℝ}
    (hw : Walk (V.entryCosts goal start starts) (V.steps goal exits) ws c) :
    ∃ v₀ rest, ws = v₀ :: rest ∧ v₀ ∈ starts ∧
      c = Vec3.polyline (start :: ws.map (placeOf V.find goal)) := by
  have hE := entryCosts_isInt V goal start hstarts
  have hcons := hV.consistent goal exits
  induction hw with
  | start hv =>
    obtain ⟨a, ha, heq⟩ := List.mem_map.1 hv
    obtain ⟨rfl, rfl⟩ := Prod.mk.inj heq
    exact ⟨a, [], rfl, ha, by simp⟩
  | @step ws u v c δ L h hw hlast hne hL hs ih =>
    obtain ⟨v₀, rest, rfl, hv₀, rfl⟩ := ih
    have hu : u.IsInt := Walk.isInt hE hcons hw u (List.mem_of_getLast? hlast)
    -- the step's cost is the distance from the walk's last position
    have hδ : δ = Vec3.euclid (placeOf V.find goal v - placeOf V.find goal u) :=
      WithTop.coe_inj.1 (hV.steps_metric hu hne hL _ hs).2.1
    have hlast' : (start :: (v₀ :: rest).map (placeOf V.find goal)).getLast? =
        some (placeOf V.find goal u) := by
      rw [List.map_cons, List.getLast?_cons_cons, ← List.map_cons, List.getLast?_map, hlast,
        Option.map_some]
    refine ⟨v₀, rest ++ [v], rfl, hv₀, ?_⟩
    rw [List.map_append, List.map_singleton, ← List.cons_append, Vec3.polyline_concat _ _ hlast',
      hδ]

variable {atLimit : Nat → Except Error Bool} {fuel : Nat}

/-- Given rounds enough, a search that runs out of open vertices leaves no walk to the goal
mark. -/
theorem Exact.exhausted_unreachable (hstarts : ∀ v ∈ starts, v.IsInt) {Vs : List VertexRef}
    {D : Nat} (hVs : V.StepsWithin goal exits Vs D) (hsub : ∀ v ∈ starts, v ∈ Vs)
    (hfuel : starts.length + D * Vs.length < fuel) {st : SearchState (WithTop ℝ)}
    (h : (V.entries goal start starts).run atLimit (V.steps goal exits) fuel = .ok (.exhausted st))
    {ws : List VertexRef} {c : ℝ} (hw : Walk (V.entryCosts goal start starts) (V.steps goal exits) ws c) :
    ws.getLast? ≠ some VertexRef.goal := by
  have hE := entryCosts_isInt V goal start hstarts
  have hcons := hV.consistent goal exits
  rw [hV.entries_eq_seed] at h
  -- rounds enough: nothing is left queued
  have hempty := SearchState.run_exhausted_seed hE hcons Vs D
    (fun x hx => by
      obtain ⟨v, hv, rfl⟩ := List.mem_map.1 hx
      exact .inl (hsub v hv))
    (fun u hu huint hne L hL => by
      obtain ⟨L', hL', hlen, hmem⟩ := hVs u hu huint hne
      obtain rfl : L = L' := Except.ok.inj (hL.symm.trans hL')
      exact ⟨hlen, hmem⟩)
    (by rwa [entryCosts, List.length_map]) h
  exact SearchState.run_exhausted_exact hE hcons h hempty hw

omit hV in
variable (V goal start starts exits atLimit fuel) in
/-- What a search from `start` over a view answers, read on the search graph whose walks start at
an entry vertex at its distance from the start (`entryCosts`) and follow the steps listed out of
each vertex (`View.steps`), in `fuel` rounds:

* `found`: when it closes the goal mark, the path read back through the predecessors runs from an
  entry vertex `v₀` to the goal mark, and the distance from the start to `v₀` plus the length of
  the path through its vertices' positions is the cost of that walk and the least cost of a walk
  to the goal mark;
* `exhausted`: given more rounds than the entries and `D` steps for each vertex of `Vs`, where `Vs`
  holds every vertex the search can close, it runs out of open vertices only when no walk reaches
  the goal mark;
* `reached`: with those rounds and an iteration limit that can always be compared, when a walk
  reaches the goal mark, the search succeeds or stops at its iteration limit. -/
structure ShortestRoute : Prop where
  found : ∀ st u, (V.entries goal start starts).run atLimit (V.steps goal exits) fuel =
      .ok (.found st u) →
    ∃ v₀ rest, st.pathTo u st.iterations = v₀ :: rest ∧ v₀ ∈ starts ∧
      (v₀ :: rest).getLast? = some VertexRef.goal ∧
      Walk (V.entryCosts goal start starts) (V.steps goal exits) (v₀ :: rest)
        (Vec3.euclid (placeOf V.find goal v₀ - start) +
          Vec3.polyline ((v₀ :: rest).map (placeOf V.find goal))) ∧
      ∀ ws c, Walk (V.entryCosts goal start starts) (V.steps goal exits) ws c →
        ws.getLast? = some VertexRef.goal →
        Vec3.euclid (placeOf V.find goal v₀ - start) +
          Vec3.polyline ((v₀ :: rest).map (placeOf V.find goal)) ≤ c
  exhausted : ∀ (Vs : List VertexRef) (D : Nat), V.StepsWithin goal exits Vs D →
    (∀ v ∈ starts, v ∈ Vs) → starts.length + D * Vs.length < fuel → ∀ st,
    (V.entries goal start starts).run atLimit (V.steps goal exits) fuel = .ok (.exhausted st) →
    ∀ ws c, Walk (V.entryCosts goal start starts) (V.steps goal exits) ws c →
      ws.getLast? ≠ some VertexRef.goal
  reached : ∀ (Vs : List VertexRef) (D : Nat), V.StepsWithin goal exits Vs D →
    (∀ v ∈ starts, v ∈ Vs) → starts.length + D * Vs.length < fuel →
    (∀ n, ∃ b, atLimit n = .ok b) →
    (∃ ws c, Walk (V.entryCosts goal start starts) (V.steps goal exits) ws c ∧
      ws.getLast? = some VertexRef.goal) →
    ∃ e, (V.entries goal start starts).run atLimit (V.steps goal exits) fuel = .ok e ∧
      ((∃ st u, e = .found st u) ∨ ∃ st, e = .limit st)

/-- **The federation search in exact arithmetic is a shortest-route search.** On an exact view,
from entry vertices of integer ids none of which is the goal mark, a search that succeeds returns
a path whose route from the start is the shortest to the goal mark; given rounds enough, it runs
out of open vertices only when the goal mark cannot be reached, and when it can be, it succeeds or
stops at its iteration limit. -/
theorem exact_search_shortest_route (hstarts : ∀ v ∈ starts, v.IsInt ∧ v ≠ VertexRef.goal)
    (atLimit : Nat → Except Error Bool) (fuel : Nat) :
    ShortestRoute V goal start starts exits atLimit fuel := by
  have hint : ∀ v ∈ starts, v.IsInt := fun v hv => (hstarts v hv).1
  have hE := entryCosts_isInt V goal start hint
  have hcons := hV.consistent goal exits
  refine ⟨fun st u h => ?_, fun Vs D hVs hsub hfuel st h ws c hw =>
    hV.exhausted_unreachable hint hVs hsub hfuel h hw, fun Vs D hVs hsub hfuel hlim hreach => ?_⟩
  · -- the path read back is a least-cost walk, and every walk costs its route's length
    rw [hV.entries_eq_seed] at h
    obtain ⟨rfl, ws, c, -, hw, hlast, hpath, hmin⟩ := SearchState.run_found_exact hE hcons h
    obtain ⟨v₀, rest, rfl, hv₀, rfl⟩ := hV.walk_cost hint hw
    exact ⟨v₀, rest, hpath, hv₀, hlast, hw, hmin⟩
  · -- the rounds answer, and not for want of open vertices
    have hclosed : ∀ u ∈ Vs, u.IsInt → u ≠ VertexRef.goal → ∃ L, V.steps goal exits u = .ok L ∧
        ∀ s ∈ L, s.1.IsInt ∧ (s.1 ∈ Vs ∨ s.1 = VertexRef.goal) := by
      intro u hu huint hne
      obtain ⟨L, hL, -, hmem⟩ := hVs u hu huint hne
      exact ⟨L, hL, fun s hs => ⟨(hV.steps_metric huint hne hL s hs).1, hmem s hs⟩⟩
    have hqueue : ∀ e ∈ (V.entries goal start starts).queue,
        e.2.2.IsInt ∧ (e.2.2 ∈ Vs ∨ e.2.2 = VertexRef.goal) := by
      intro e he
      rw [hV.entries_eq_seed] at he
      obtain ⟨x, hx, hex⟩ := (SearchState.seed_queue).2 e he
      obtain ⟨v, hv, rfl⟩ := List.mem_map.1 hx
      exact ⟨hex ▸ hint v hv, .inl (hex ▸ hsub v hv)⟩
    obtain ⟨e, he⟩ := SearchState.run_ok Vs hlim hclosed fuel _ hqueue
    refine ⟨e, he, ?_⟩
    cases e with
    | found st u => exact .inl ⟨st, u, rfl⟩
    | limit st => exact .inr ⟨st, rfl⟩
    | exhausted st =>
      obtain ⟨ws, c, hw, hlast⟩ := hreach
      exact absurd hlast (hV.exhausted_unreachable hint hVs hsub hfuel he hw)

end View

section Samples

open View

/-- The federation of copies of `pairGraph`, one for each submap id, posed by the quarter turn,
with no bridges. -/
noncomputable def pairView : View ℝ (WithTop ℝ) where
  find sid := Submap.make sid pairGraph (some quarterTurn)
  few _ := .ok false
  bridgesAt _ _ := .ok []
  length p := (Vec3.euclid p : WithTop ℝ)

theorem pairView_find {sid : Value} {s : Submap ℝ} (hs : pairView.find sid = .ok s) :
    s.graph = pairGraph ∧ s.pose = quarterTurn := by
  have hmake : Submap.make sid pairGraph (some quarterTurn) = .ok s := hs
  obtain rfl := Submap.eq_of_make hmake
  exact ⟨rfl, rfl⟩

theorem pairView_exact : pairView.Exact where
  length _ := rfl
  orthogonal sid s hs := by
    rw [(pairView_find hs).2]
    exact quarterTurn_orthogonal
  vertices sid s hs x hx := by
    rw [(pairView_find hs).1] at hx
    simp only [pairGraph, List.mem_cons, List.not_mem_nil, or_false] at hx
    rcases hx with rfl | rfl <;> simp [VertexRef.goal]
  edgeEnds sid s hs e he := by
    rw [(pairView_find hs).1] at he
    simp [pairGraph] at he
  bridges _ _ _ h b hb := by
    obtain rfl : [] = _ := Except.ok.inj h
    exact absurd hb List.not_mem_nil

/-- A search over copies of `pairGraph` from the first vertex of submap `7`, with its second
vertex as exit, is a shortest-route search. -/
theorem shortest_route_on_pair :
    pairView.Exact ∧
    (∀ v ∈ [VertexRef.mk (.int 7) (.int 0)], v.IsInt ∧ v ≠ VertexRef.goal) ∧
    ShortestRoute pairView ⟨2, 0, 0⟩ ⟨0, 0, 0⟩ [⟨.int 7, .int 0⟩] [⟨.int 7, .int 1⟩]
      (fun _ => .ok false) 10 := by
  have hstarts : ∀ v ∈ [VertexRef.mk (.int 7) (.int 0)], v.IsInt ∧ v ≠ VertexRef.goal := by
    intro v hv
    rw [List.mem_singleton] at hv
    subst hv
    exact ⟨⟨7, 0, rfl⟩, by simp [VertexRef.goal]⟩
  exact ⟨pairView_exact, hstarts, exact_search_shortest_route pairView_exact hstarts _ _⟩

/-- A graph of one vertex, of id `-1`, at the origin. -/
def sentinelGraph : SkeletonGraph ℝ := { vertices := [{ id := .int (-1), point := ⟨0, 0, 0⟩ }] }

/-- The federation of copies of `sentinelGraph`, one for each submap id, unposed, with no
bridges: the vertex `-1` of the submap of id `-1` is the goal mark. -/
noncomputable def sentinelView : View ℝ (WithTop ℝ) where
  find sid := Submap.make sid sentinelGraph none
  few _ := .ok false
  bridgesAt _ _ := .ok []
  length p := (Vec3.euclid p : WithTop ℝ)

/-- **A vertex that is the goal mark ends the search at once.** From the vertex `-1` of the
submap `-1`, at the start, towards a goal at distance `1`, the search succeeds in one round with
the path of that vertex alone, placed at the goal: the distance from the start to the vertex's
position plus the length of the path through the waypoints is `0`, below the distance `1` from
the start to the goal that every route covers. -/
theorem sentinel_route_below_goal_distance :
    ∃ st s w, (sentinelView.entries ⟨1, 0, 0⟩ ⟨0, 0, 0⟩ [VertexRef.goal]).run (fun _ => .ok false)
        (sentinelView.steps ⟨1, 0, 0⟩ [VertexRef.goal]) 1 = .ok (.found st VertexRef.goal) ∧
      st.pathTo VertexRef.goal st.iterations = [VertexRef.goal] ∧
      sentinelView.find (.int (-1)) = .ok s ∧ s.vertexWorld (.int (-1)) = .ok w ∧
      Vec3.euclid (w - ⟨0, 0, 0⟩) +
        Vec3.polyline ([VertexRef.goal].map (placeOf sentinelView.find ⟨1, 0, 0⟩)) = 0 ∧
      Vec3.euclid (⟨1, 0, 0⟩ - ⟨0, 0, 0⟩) = 1 := by
  -- the vertex is queued at the goal's distance from the start, and closed first as the goal mark
  have hentries : sentinelView.entries ⟨1, 0, 0⟩ ⟨0, 0, 0⟩ [VertexRef.goal] =
      { cost := [(VertexRef.goal, ((Vec3.euclid (⟨1, 0, 0⟩ - ⟨0, 0, 0⟩) : ℝ) : WithTop ℝ))],
        tickets := 1,
        queue := [(((Vec3.euclid (⟨1, 0, 0⟩ - ⟨0, 0, 0⟩) : ℝ) : WithTop ℝ) +
          ((Vec3.euclid (⟨1, 0, 0⟩ - ⟨1, 0, 0⟩) : ℝ) : WithTop ℝ), 1, VertexRef.goal)] } := by
    simp [View.entries, SearchState.offer, SearchState.costOf, sentinelView, Unreached.unreached,
      OpenQueue.insert]
  have hworld : (Transform.identity : Transform ℝ).apply ⟨0, 0, 0⟩ = ⟨0, 0, 0⟩ := by
    apply Vec3.toFun_injective
    rw [Transform.toFun_apply]
    simp [Transform.identity, Mat3.toMatrix_identity]
  refine ⟨_, _, ⟨0, 0, 0⟩, by rw [hentries]; rfl, rfl,
    Submap.make_ok (.int (-1)) sentinelGraph none, ?_, ?_, ?_⟩
  · simp [Submap.vertexWorld, sentinelGraph, SkeletonGraph.vertex, Value.toKey, Value.isKey, bind,
      Except.bind, hworld]
  · rw [Vec3.euclid_sub_self, List.map_singleton, Vec3.polyline_singleton, add_zero]
  · simp [Vec3.euclid, Vec3.toFun_sub, dotProduct, Fin.sum_univ_three]

end Samples

end Federation

end Exploration
