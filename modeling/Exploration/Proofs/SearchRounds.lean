import Mathlib
import Exploration.Proofs.BestFirst
import Exploration.Proofs.GraphCalls
import Exploration.Proofs.NearestKeys

/-!
# Rounds enough for the federation search

The search over the federation of submaps is given `roundBound` rounds, and when they run out it
answers as when no vertex is left open (`Federation.rounds`). The bound is enough: over a
federation as the planner builds it (`Federation.WellFormed`), the rounds run out only when
nothing is left queued (`Federation.run_roundBound_exhausted`), so the search reports the open set
exhausted only when it is (`Federation.search_exhausted_empty`).

The argument is the one of `SearchState.run_exhausted_empty`. Every vertex the search can close is
a vertex of the federation (`Federation.vertexRefs`), closed once, and leaves by at most
`stepBound` steps: a vertex lists each edge of its graph at most once
(`SkeletonGraph.Sound.length_edges_le`), reaches over bridges at most the vertices of the other
submaps at its position (`Federation.length_bridges_le`), and an exit vertex leads to the goal mark
alone. The rounds then never exceed the entries queued at the start plus `stepBound` for each
vertex, which is what `roundBound` counts.
-/

namespace Exploration

/-- A list of distinct items keeps its results distinct under a partial map that never gives one
result for two of its items. -/
theorem nodup_filterMap_of_injOn {α β : Type} {f : α → Option β} :
    ∀ {l : List α}, l.Nodup → (∀ a ∈ l, ∀ a' ∈ l, ∀ b ∈ f a, b ∈ f a' → a = a') →
      (l.filterMap f).Nodup
  | [], _, _ => List.nodup_nil
  | a :: l, hnd, hinj => by
    obtain ⟨ha, hl⟩ := List.nodup_cons.1 hnd
    have hrest := nodup_filterMap_of_injOn hl fun x hx y hy =>
      hinj x (List.mem_cons_of_mem _ hx) y (List.mem_cons_of_mem _ hy)
    rw [List.filterMap_cons]
    cases hfa : f a with
    | none => exact hrest
    | some b =>
      refine List.nodup_cons.2 ⟨fun hb => ?_, hrest⟩
      -- a later item giving `b` would be `a` itself
      obtain ⟨a', ha', hfa'⟩ := List.mem_filterMap.1 hb
      have heq := hinj a (List.mem_cons_self ..) a' (List.mem_cons_of_mem _ ha') b hfa hfa'
      exact ha (heq ▸ ha')

namespace Submap

/-- **What a nearest-vertices query answers**: the vertex ids at some distinct positions of the
submap's points, the ones the scan keeps. -/
theorem closest_ok_positions {s : Submap} {point : Except Error Vec3} {n : Value}
    {vs : List Value} (h : s.closest point n = .ok vs) :
    ∃ positions : List Nat, positions.Subperm (List.range s.localPoints.length) ∧
      vs.map some = positions.map fun i => s.vertexIds[i]? := by
  unfold closest at h
  split at h
  · rw [pure_eq_ok] at h
    exact ⟨[], List.nil_subperm, by rw [← h]; rfl⟩
  · obtain ⟨low, -, h⟩ := bind_eq_ok.1 h
    split at h
    · rw [pure_eq_ok] at h
      exact ⟨[], List.nil_subperm, by rw [← h]; rfl⟩
    · obtain ⟨more, -, h⟩ := bind_eq_ok.1 h
      obtain ⟨p, -, h⟩ := bind_eq_ok.1 h
      obtain ⟨count, -, h⟩ := bind_eq_ok.1 h
      split at h
      · obtain ⟨u, hu, -⟩ := bind_eq_ok.1 h
        cases hu
      · -- the answers are read one by one at the positions the scan keeps
        have hscan := Nearest.scan_positions
          (s.localPoints.map fun q => Nearest.blockDistance q.toList p.toList) count
        rw [List.length_map] at hscan
        refine ⟨_, hscan, ?_⟩
        rw [List.map_map]
        refine mapM_ok_map (fun x y hxy => ?_) h
        obtain ⟨d, i⟩ := x
        dsimp only at hxy ⊢
        cases hget : s.vertexIds[i]? with
        | none => rw [hget] at hxy; cases hxy
        | some v => rw [hget] at hxy; cases hxy; simp [hget]

/-- A submap answers no more nearest vertices than it has points. -/
theorem length_closest_le {s : Submap} {point : Except Error Vec3} {n : Value} {vs : List Value}
    (h : s.closest point n = .ok vs) : vs.length ≤ s.localPoints.length := by
  obtain ⟨positions, hsub, hmap⟩ := closest_ok_positions h
  calc vs.length = positions.length := by simpa using congrArg List.length hmap
    _ ≤ s.localPoints.length := by simpa using hsub.length_le

/-- A submap made from a graph keeps the graph, its vertex ids and one point for each vertex. -/
theorem made_of_make {id : Value} {g : SkeletonGraph} {pose : Option Transform} {s : Submap}
    (h : make id g pose = .ok s) :
    s.graph = g ∧ s.vertexIds = s.graph.vertexIds ∧ s.localPoints.length = s.graph.vertexCount := by
  dsimp only [make] at h
  split at h
  · cases h
  · cases h
    simp [SkeletonGraph.vertexCount]

end Submap

namespace Federation

variable {c : SubmapCollection} {m : VoxelMap}

/-- The number of vertices the submap of an id lists; none when the collection has no such
submap. -/
def listedCount (c : SubmapCollection) (sid : Value) : Nat :=
  match c.find sid with
  | .ok s => s.vertexIds.length
  | .error _ => 0

/-- The vertices a search over the federation can close: the vertices the submap of each frozen
region's id lists, under that id. -/
def vertexRefs (c : SubmapCollection) (m : VoxelMap) : List VertexRef :=
  m.frozenIds.flatMap fun sid =>
    match c.find sid with
    | .ok s => s.vertexIds.map (VertexRef.mk sid)
    | .error _ => []

/-- The number of steps that may leave one vertex: twice the number of edges, as `roundBound`
counts them, and the number of vertices, with two to spare. -/
def stepBound (c : SubmapCollection) : Nat :=
  2 * (c.submaps.map (·.graph.edgeCount)).foldr (· + ·) 0 + c.totalVertices + 2

/-- The rounds a search is given: the entries, and `stepBound` for each vertex and one more. -/
theorem roundBound_eq (c : SubmapCollection) (n : Nat) :
    roundBound c n = n + (c.totalVertices + 1) * stepBound c + 1 := rfl

theorem listedCount_of_find {sid : Value} {s : Submap} (h : c.find sid = .ok s) :
    listedCount c sid = s.vertexIds.length := by
  simp [listedCount, h]

/-- A federation as the planner builds it: frozen regions of distinct integer ids, submaps of
integer ids whose graphs are sound (`SkeletonGraph.Sound`, which every graph built by calls is)
and that were made from their graphs, with the graphs' vertex ids and one point for each
vertex. -/
structure WellFormed (c : SubmapCollection) (m : VoxelMap) : Prop where
  regionIds : ∀ r ∈ m.regions, ∃ n : Int, r.id = .int n
  regions_nodup : m.frozenIds.Nodup
  submapIds : ∀ s ∈ c.submaps, ∃ n : Int, s.id = .int n
  graphs : ∀ s ∈ c.submaps, s.graph.Sound
  made : ∀ s ∈ c.submaps, s.vertexIds = s.graph.vertexIds ∧ s.localPoints.length = s.graph.vertexCount

/-- The federation of one submap of two vertices joined by an edge, in one frozen region, is well
formed. -/
theorem pair_wellFormed : WellFormed (pairCollection 0 0 1) (pairMap 0) where
  regionIds := by simp [pairMap]
  regions_nodup := by simp [pairMap, VoxelMap.frozenIds]
  submapIds := by simp [pairCollection]
  graphs s hs := by
    simp only [pairCollection, List.mem_singleton] at hs
    subst hs
    exact {
      below_next := ⟨2, rfl, by simp⟩
      vertexIds_nodup := by simp [SkeletonGraph.vertexIds]
      edgeIds_nodup := by simp
      edge_lt_next := by simp
      ends := by simp [SkeletonGraph.vertexIds]
      listed_once := by simp
      incident := by simp }
  made s hs := by
    simp only [pairCollection, List.mem_singleton] at hs
    subst hs
    simp [SkeletonGraph.vertexIds, SkeletonGraph.vertexCount]

namespace WellFormed

variable (hwf : WellFormed c m)
include hwf

theorem integerIds : IntegerIds c m where
  regions := hwf.regionIds
  vertexIds s hs v hv := (hwf.graphs s hs).int_of_mem_vertexIds ((hwf.made s hs).1 ▸ hv)
  edgeEnds s hs e he := by
    obtain ⟨-, hstart, hstop⟩ := (hwf.graphs s hs).ends e he
    exact ⟨(hwf.graphs s hs).int_of_mem_vertexIds hstart,
      (hwf.graphs s hs).int_of_mem_vertexIds hstop⟩

theorem length_localPoints {s : Submap} (hs : s ∈ c.submaps) :
    s.localPoints.length = s.vertexIds.length := by
  rw [(hwf.made s hs).2, (hwf.made s hs).1, SkeletonGraph.vertexIds, List.length_map]
  rfl

theorem frozenId_int {sid : Value} (hsid : sid ∈ m.frozenIds) : ∃ n : Int, sid = .int n := by
  obtain ⟨r, hr, rfl⟩ := List.mem_map.1 hsid
  exact hwf.regionIds r hr

/-- **The frozen regions' submaps list no more vertices than the collection has**: distinct
integer ids find distinct submaps. -/
theorem sum_listedCount_le : (m.frozenIds.map (listedCount c)).sum ≤ c.totalVertices := by
  set found := m.frozenIds.filterMap fun sid => (c.find sid).toOption with hfound
  have hsum : (m.frozenIds.map (listedCount c)).sum = (found.map (·.vertexIds.length)).sum := by
    rw [hfound]
    induction m.frozenIds with
    | nil => rfl
    | cons sid ids ih =>
      rw [List.map_cons, List.sum_cons, ih, List.filterMap_cons]
      unfold listedCount
      cases c.find sid <;> simp [Except.toOption]
  have hmem : ∀ s ∈ found, s ∈ c.submaps := by
    intro s hs
    obtain ⟨sid, -, hsid⟩ := List.mem_filterMap.1 hs
    exact (SubmapCollection.mem_of_find_ok (eq_ok_of_toOption hsid)).1
  -- the submap found for an integer id has that id
  have hnd : found.Nodup := nodup_filterMap_of_injOn hwf.regions_nodup fun a ha a' ha' s hs hs' => by
    obtain ⟨ka, rfl⟩ := hwf.frozenId_int ha
    obtain ⟨ka', rfl⟩ := hwf.frozenId_int ha'
    obtain ⟨hsmem, hsame⟩ := SubmapCollection.mem_of_find_ok (eq_ok_of_toOption hs)
    obtain ⟨-, hsame'⟩ := SubmapCollection.mem_of_find_ok (eq_ok_of_toOption hs')
    obtain ⟨n, hn⟩ := hwf.submapIds s hsmem
    rw [← (Value.same_int_iff hn ka).1 hsame, ← (Value.same_int_iff hn ka').1 hsame']
  obtain ⟨l, hperm, hsub⟩ := hnd.subperm hmem
  have htotal : (c.submaps.map (·.vertexIds.length)).sum = c.totalVertices := by
    rw [List.map_congr_left fun s hs => by
      rw [(hwf.made s hs).1, SkeletonGraph.vertexIds, List.length_map]]
    rfl
  calc (m.frozenIds.map (listedCount c)).sum = (found.map (·.vertexIds.length)).sum := hsum
    _ = (l.map (·.vertexIds.length)).sum := ((hperm.map _).sum_eq).symm
    _ ≤ (c.submaps.map (·.vertexIds.length)).sum :=
      (hsub.map _).sum_le_sum fun _ _ => Nat.zero_le _
    _ = c.totalVertices := htotal

end WellFormed

theorem length_vertexRefs : (vertexRefs c m).length = (m.frozenIds.map (listedCount c)).sum := by
  rw [vertexRefs, List.length_flatMap]
  congr 1
  refine List.map_congr_left fun sid _ => ?_
  unfold listedCount
  cases c.find sid <;> simp

theorem mem_vertexRefs {sid v : Value} {s : Submap} (hsid : sid ∈ m.frozenIds)
    (hs : c.find sid = .ok s) (hv : v ∈ s.vertexIds) : VertexRef.mk sid v ∈ vertexRefs c m := by
  refine List.mem_flatMap.2 ⟨sid, hsid, ?_⟩
  simp only [hs]
  exact List.mem_map_of_mem hv

theorem exists_of_mem_vertexRefs {u : VertexRef} (hu : u ∈ vertexRefs c m) :
    u.submap ∈ m.frozenIds ∧ ∃ s, c.find u.submap = .ok s ∧ u.vertex ∈ s.vertexIds := by
  obtain ⟨sid, hsid, hu⟩ := List.mem_flatMap.1 hu
  cases hs : c.find sid with
  | error e =>
    rw [hs] at hu
    exact absurd hu List.not_mem_nil
  | ok s =>
    rw [hs] at hu
    obtain ⟨v, hv, rfl⟩ := List.mem_map.1 hu
    exact ⟨hsid, s, hs, hv⟩

/-- A vertex listed at a point is a vertex of the federation. -/
theorem ListedAt.mem_vertexRefs {p : Vec3} {v : VertexRef} (hv : ListedAt c m p v) :
    v ∈ vertexRefs c m := by
  obtain ⟨r, hr, hrid⟩ := mem_regions_of_mem_regionIdsAt hv.region
  obtain ⟨s, hs, hvs⟩ := hv.listed
  exact Federation.mem_vertexRefs (hrid ▸ List.mem_map_of_mem hr) hs hvs

/-- The submaps at a point are some of the frozen regions', in their order. -/
theorem sublist_of_submapsAt {p : Vec3} {ids : List Value} (h : submapsAt c m p = .ok ids) :
    ids.Sublist m.frozenIds :=
  (sublist_of_filterM_ok h).trans (List.filter_sublist.map _)

/-- **A vertex reaches over bridges at most the vertices of the submaps at its position**: for
each such submap, at most one bridge to each of its nearest vertices. -/
theorem length_bridges_le (hmade : ∀ s ∈ c.submaps, s.localPoints.length = s.vertexIds.length)
    {cfg : SearchSettings} {home : Value} {p : Vec3} {bs : List (VertexRef × Vec3 × Float)}
    (h : bridges c m cfg home p = .ok bs) :
    ∃ ids, submapsAt c m p = .ok ids ∧ bs.length ≤ (ids.map (listedCount c)).sum := by
  unfold bridges at h
  obtain ⟨ids, hids, h⟩ := bind_eq_ok.1 h
  obtain ⟨found, hfound, h⟩ := bind_eq_ok.1 h
  rw [pure_eq_ok] at h
  subst h
  refine ⟨ids, hids, ?_⟩
  rw [Array.length_toList]
  refine (forIn_ok_measure_le (fun a : Array (VertexRef × Vec3 × Float) => a.size) (listedCount c)
    ?_ hfound).trans (by simp)
  intro sid _ acc r hr
  split at hr
  · rw [pure_eq_ok] at hr
    subst hr
    exact Nat.le_add_right _ _
  · obtain ⟨other, hfind, hr⟩ := bind_eq_ok.1 hr
    obtain ⟨vs, hvs, hr⟩ := bind_eq_ok.1 hr
    obtain ⟨acc', hacc', hr⟩ := bind_eq_ok.1 hr
    rw [pure_eq_ok] at hr
    subst hr
    -- each nearest vertex adds at most one bridge
    have hinner : acc'.size ≤ acc.size + (vs.map fun _ => 1).sum :=
      forIn_ok_measure_le (fun a : Array (VertexRef × Vec3 × Float) => a.size) (fun _ => 1)
        (fun v _ b r hr => by
          obtain ⟨far, -, hr⟩ := bind_eq_ok.1 hr
          split at hr
          · rw [pure_eq_ok] at hr
            subst hr
            exact Nat.le_add_right _ _
          · obtain ⟨pass, -, hr⟩ := bind_eq_ok.1 hr
            split at hr
            · rw [pure_eq_ok] at hr
              subst hr
              exact Nat.le_add_right _ _
            · rw [pure_eq_ok] at hr
              subst hr
              simp) hacc'
    have hvs_len : vs.length ≤ listedCount c sid := by
      rw [listedCount_of_find hfind, ← hmade other (SubmapCollection.mem_of_find_ok hfind).1]
      exact Submap.length_closest_le hvs
    simp only [List.map_const', List.sum_replicate, smul_eq_mul, mul_one] at hinner
    exact hinner.trans (Nat.add_le_add_left hvs_len _)

/-- A submap's edges are at most the edges of the whole collection. -/
theorem edgeCount_le_sum {s : Submap} (hs : s ∈ c.submaps) :
    s.graph.edgeCount ≤ (c.submaps.map (·.graph.edgeCount)).foldr (· + ·) 0 :=
  List.le_sum_of_mem (List.mem_map_of_mem hs)

variable (hwf : WellFormed c m)
include hwf

/-- The bridges from a point reach no more vertices than the collection has. -/
theorem WellFormed.length_bridges_le {cfg : SearchSettings} {home : Value} {p : Vec3}
    {bs : List (VertexRef × Vec3 × Float)} (h : bridges c m cfg home p = .ok bs) :
    bs.length ≤ c.totalVertices := by
  obtain ⟨ids, hids, hlen⟩ := Federation.length_bridges_le
    (fun s hs => hwf.length_localPoints hs) h
  calc bs.length ≤ (ids.map (listedCount c)).sum := hlen
    _ ≤ (m.frozenIds.map (listedCount c)).sum :=
      ((sublist_of_submapsAt hids).map _).sum_le_sum fun _ _ => Nat.zero_le _
    _ ≤ c.totalVertices := hwf.sum_listedCount_le

/-- The other end of an edge of a vertex of the federation is a vertex of the federation. -/
theorem WellFormed.edge_target {sid : Value} {s : Submap} {id w : Value} {e : SkeletonEdge}
    (hsid : sid ∈ m.frozenIds) (hs : c.find sid = .ok s) (he : s.graph.edge id = .ok e) :
    (VertexRef.mk sid (e.other w)).IsInt ∧ VertexRef.mk sid (e.other w) ∈ vertexRefs c m := by
  have hmem := (SubmapCollection.mem_of_find_ok hs).1
  obtain ⟨-, hstart, hstop⟩ := (hwf.graphs s hmem).ends e (SkeletonGraph.mem_of_edge_ok he)
  have hend : e.other w ∈ s.vertexIds := by
    rw [(hwf.made s hmem).1]
    rcases SkeletonEdge.other_eq e w with h | h
    · exact h ▸ hstart
    · exact h ▸ hstop
  obtain ⟨i, rfl⟩ := hwf.frozenId_int hsid
  obtain ⟨j, hj⟩ := (hwf.graphs s hmem).int_of_mem_vertexIds ((hwf.made s hmem).1 ▸ hend)
  exact ⟨⟨i, j, by rw [hj]⟩, mem_vertexRefs hsid hs hend⟩

/-- **The steps out of a vertex of the federation** are at most `stepBound`, each to a vertex of
integer ids of the federation or to the goal mark. -/
theorem WellFormed.steps_within {cfg : SearchSettings} {goal : Vec3} {exits : List VertexRef}
    {u : VertexRef} (hu : u ∈ vertexRefs c m) {L : List (VertexRef × Float × Float)}
    (h : (view c m cfg).steps goal exits u = .ok L) :
    L.length ≤ stepBound c ∧
      ∀ s ∈ L, s.1.IsInt ∧ (s.1 ∈ vertexRefs c m ∨ s.1 = VertexRef.goal) := by
  obtain ⟨hsid, s, hs, -⟩ := exists_of_mem_vertexRefs hu
  rcases View.steps_cases h with ⟨-, rfl⟩ | ⟨-, s', vx, edges, hs', hvx, hedges, hrest⟩
  · -- an exit vertex leads to the goal mark only
    refine ⟨by simp [stepBound], fun x hx => ?_⟩
    rw [List.mem_singleton] at hx
    subst hx
    exact ⟨VertexRef.goal_isInt, .inr rfl⟩
  · obtain rfl : s = s' := Except.ok.inj (hs.symm.trans hs')
    have hmem := (SubmapCollection.mem_of_find_ok hs).1
    -- one step an edge of the vertex, at most as many as the graph has edges
    have hElen : edges.length ≤ (c.submaps.map (·.graph.edgeCount)).foldr (· + ·) 0 := by
      rw [length_of_mapM_ok hedges]
      exact ((hwf.graphs s hmem).length_edges_le (SkeletonGraph.mem_of_vertex_ok hvx).1).trans
        (edgeCount_le_sum hmem)
    have hE : ∀ x ∈ edges, x.1.IsInt ∧ (x.1 ∈ vertexRefs c m ∨ x.1 = VertexRef.goal) := by
      intro x hx
      obtain ⟨eid, -, hx⟩ := exists_of_mapM_ok hedges x hx
      obtain ⟨e, nv, he, -, rfl⟩ := View.edgeStep_ok hx
      obtain ⟨hint, hin⟩ := hwf.edge_target hsid hs he
      exact ⟨hint, .inl hin⟩
    rcases hrest with ⟨-, bs, hbs, rfl⟩ | ⟨-, rfl⟩
    · -- and one a bridge, at most as many as the collection has vertices
      have hBlen := hwf.length_bridges_le hbs
      refine ⟨by rw [List.length_append, List.length_map, stepBound]; omega, fun x hx => ?_⟩
      rcases List.mem_append.1 hx with hx | hx
      · exact hE x hx
      · obtain ⟨b, hb, rfl⟩ := List.mem_map.1 hx
        have hlisted := (isBridge_of_mem_bridges hbs b hb).listed
        exact ⟨hlisted.isInt hwf.integerIds, .inl hlisted.mem_vertexRefs⟩
    · exact ⟨by rw [stepBound]; omega, hE⟩

/-- **The search has rounds enough.** Over a well-formed federation, from entry vertices listed
at the start, the rounds the search is given (`roundBound`) run out only when nothing is left
queued. -/
theorem run_roundBound_exhausted {cfg : SearchSettings} {start goal : Vec3}
    {starts exits : List VertexRef} (hstarts : ∀ v ∈ starts, ListedAt c m start v)
    {atLimit : Nat → Except Error Bool} {st : SearchState}
    (h : ((view c m cfg).entries goal start starts).run atLimit ((view c m cfg).steps goal exits)
      (roundBound c starts.length) = .ok (.exhausted st)) :
    st.queue = [] := by
  -- the entries close nothing and queue at most one entry each, for an entry vertex
  obtain ⟨hclosed, hlen, hmem⟩ := SearchState.offer_foldl_queue
    (fun v => (v, (view c m cfg).length (placeOf (view c m cfg).find goal v - start),
      (view c m cfg).length (goal - placeOf (view c m cfg).find goal v)))
    starts {} ((view c m cfg).entries goal start starts) rfl
  have hV := hwf.sum_listedCount_le
  rw [← length_vertexRefs] at hV
  refine SearchState.run_exhausted_empty (vertexRefs c m) (stepBound c)
    (fun u hu _ _ L hL => hwf.steps_within hu hL) _ _ st (by rw [hclosed]; exact List.nodup_nil)
    (by rw [hclosed]; simp) (fun e he => ?_) ?_ h
  · obtain ⟨v, hv, hev⟩ := (hmem e he).resolve_left List.not_mem_nil
    rw [hev]
    exact ⟨(hstarts v hv).isInt hwf.integerIds, .inl (hstarts v hv).mem_vertexRefs⟩
  · -- the entries, and `stepBound` for each vertex, are fewer than the rounds
    rw [hclosed, List.length_nil, Nat.sub_zero, roundBound_eq]
    have hq : ((view c m cfg).entries goal start starts).queue.length ≤ starts.length := by
      simpa using hlen
    have hmul : stepBound c * (vertexRefs c m).length ≤ (c.totalVertices + 1) * stepBound c := by
      rw [Nat.mul_comm]
      exact Nat.mul_le_mul_right _ (Nat.le_succ_of_le hV)
    omega

/-- **The search reports the open set exhausted only when it is.** Over a well-formed federation,
a search that answers `openSetExhausted` ran its rounds from the entry vertices at the start to
the exit vertices at the goal and stopped with nothing queued. -/
theorem search_exhausted_empty {robot : Option Vec3} {cfg : SearchSettings} {start goal : Vec3}
    {r : PlanResult} (h : search c m robot cfg start goal = .ok r)
    (hr : r.failure = some .openSetExhausted) :
    ∃ starts exits st,
      reachableVertices c m start cfg.startCount (m.segmentActive robot) = .ok starts ∧
      reachableVertices c m goal cfg.goalCount m.segmentGlobal = .ok exits ∧
      ((view c m cfg).entries goal start starts).run (fun n => Value.atMost cfg.maxIterations (.int n))
        ((view c m cfg).steps goal exits) (roundBound c starts.length) = .ok (.exhausted st) ∧
      st.queue = [] := by
  unfold search at h
  obtain ⟨starts, hstarts, h⟩ := bind_eq_ok.1 h
  split at h
  · rw [pure_eq_ok] at h
    subst h
    cases hr
  · obtain ⟨exits, hexits, h⟩ := bind_eq_ok.1 h
    split at h
    · rw [pure_eq_ok] at h
      subst h
      cases hr
    · -- the rounds answered, and only their exhausted end reports the open set exhausted
      unfold rounds at h
      obtain ⟨e, he, h⟩ := bind_eq_ok.1 h
      cases e with
      | found st u =>
        cases h
        cases hr
      | limit st =>
        cases h
        cases hr
      | exhausted st =>
        exact ⟨starts, exits, st, hstarts, hexits, he,
          run_roundBound_exhausted hwf (listedAt_of_reachableVertices hstarts) he⟩

end Federation

end Exploration
