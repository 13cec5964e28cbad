import Mathlib
import Exploration.Global.Search
import Exploration.Proofs.Ids
import Exploration.Proofs.Loops
import Exploration.Proofs.Sorting

/-!
# The vertices a search finds around a point

Around a point the search looks only at submaps of the collection whose frozen regions the map
reports there, and only at vertices those submaps list (`ListedAt`). This module proves that of
the vertices it enters by (`listedAt_of_reachableVertices`, for the entry and the exit vertices)
and of its bridges (`isBridge_of_mem_bridges`), with what a bridge must pass: another submap, the
linking distance, a traversable segment.

When the ids are integers, as the source annotates them (`IntegerIds`), and no submap of id `-1`
has a vertex of id `-1` (`GoalMarkFree`), every such vertex is a reference of integer ids other
than the goal mark (`ListedAt.isInt`, `ListedAt.ne_goal`).
-/

namespace Exploration

namespace SubmapCollection

/-- The submap found for an id is one of the collection's, of an id equal to it. -/
theorem mem_of_find_ok {c : SubmapCollection} {id : Value} {s : Submap} (h : c.find id = .ok s) :
    s ∈ c.submaps ∧ s.id.same id = true := by
  rw [find] at h
  obtain ⟨found, hget, h⟩ := bind_eq_ok.1 h
  rw [get?] at hget
  obtain ⟨key, hkey, hget⟩ := bind_eq_ok.1 hget
  have hid : key = id := by
    rw [Value.toKey] at hkey
    split at hkey
    · exact (Except.ok.inj hkey).symm
    · cases hkey
  cases found with
  | none => cases h
  | some t =>
    have hts : t = s := Except.ok.inj h
    have hfind : c.submaps.find? (fun x => x.id.same key) = some t := Except.ok.inj hget
    subst hts hid
    have hsame : t.id.same key = true := List.find?_some (p := fun x : Submap => x.id.same key) hfind
    exact ⟨List.mem_of_find?_eq_some hfind, hsame⟩

end SubmapCollection

namespace Submap

/-- The nearest vertices of a submap are vertices it lists. -/
theorem mem_vertexIds_of_closest {s : Submap} {point : Except Error Vec3} {n : Value}
    {vs : List Value} (h : s.closest point n = .ok vs) : ∀ v ∈ vs, v ∈ s.vertexIds := by
  unfold closest at h
  split at h
  · rw [pure_eq_ok] at h
    simp [← h]
  · obtain ⟨low, -, h⟩ := bind_eq_ok.1 h
    split at h
    · rw [pure_eq_ok] at h
      simp [← h]
    · obtain ⟨more, -, h⟩ := bind_eq_ok.1 h
      obtain ⟨p, -, h⟩ := bind_eq_ok.1 h
      obtain ⟨count, -, h⟩ := bind_eq_ok.1 h
      split at h
      · obtain ⟨u, hu, -⟩ := bind_eq_ok.1 h
        cases hu
      · intro v hv
        obtain ⟨⟨_, i⟩, -, hi⟩ := exists_of_mapM_ok h v hv
        cases hget : s.vertexIds[i]? with
        | none => simp [hget] at hi
        | some w =>
          simp only [hget, Except.ok.injEq] at hi
          exact hi ▸ List.mem_of_getElem? hget

end Submap

namespace Federation

/-- A vertex listed at a point: of a submap of the collection whose frozen region the map reports
at the point, and listed by that submap. -/
structure ListedAt (c : SubmapCollection) (m : VoxelMap) (p : Vec3) (v : VertexRef) : Prop where
  region : v.submap ∈ m.regionIdsAt p
  listed : ∃ s, c.find v.submap = .ok s ∧ v.vertex ∈ s.vertexIds

/-- The ids a search reads are integers, as the source annotates them: the ids of the map's frozen
regions, the vertex ids each submap lists and the ends of its edges. -/
structure IntegerIds (c : SubmapCollection) (m : VoxelMap) : Prop where
  regions : ∀ r ∈ m.regions, ∃ n : Int, r.id = .int n
  vertexIds : ∀ s ∈ c.submaps, ∀ v ∈ s.vertexIds, ∃ n : Int, v = .int n
  edgeEnds : ∀ s ∈ c.submaps, ∀ e ∈ s.graph.edges,
    (∃ n : Int, e.start = .int n) ∧ ∃ n : Int, e.stop = .int n

/-- No submap of id `-1` has a vertex of id `-1`, listed or at the end of an edge, so no vertex of
the collection is the goal mark `(-1, -1)`. -/
def GoalMarkFree (c : SubmapCollection) : Prop :=
  ∀ s ∈ c.submaps, s.id.same (.int (-1)) = true →
    .int (-1) ∉ s.vertexIds ∧ ∀ e ∈ s.graph.edges, e.start ≠ .int (-1) ∧ e.stop ≠ .int (-1)

variable {c : SubmapCollection} {m : VoxelMap} {p : Vec3}

theorem mem_regionIdsAt_of_submapsAt {ids : List Value} (h : submapsAt c m p = .ok ids) :
    ∀ sid ∈ ids, sid ∈ m.regionIdsAt p :=
  fun sid hsid => (mem_of_filterM_ok h sid hsid).1

/-- Every candidate around a point is a vertex listed there. -/
theorem listedAt_of_candidates {n : Value} {cs : List Candidate} (h : candidates c m p n = .ok cs) :
    ∀ x ∈ cs, ListedAt c m p ⟨x.2.1, x.2.2.1⟩ := by
  unfold candidates at h
  obtain ⟨ids, hids, h⟩ := bind_eq_ok.1 h
  obtain ⟨all, hall, h⟩ := bind_eq_ok.1 h
  -- the outer loop over the submaps at the point and the inner one over their nearest vertices
  -- only push vertices listed at the point
  have hinv : ∀ y ∈ all.toList, ListedAt c m p ⟨y.2.1, y.2.2.1⟩ := by
    refine forIn_ok_of_preserves (fun all : Array Candidate =>
      ∀ y ∈ all.toList, ListedAt c m p ⟨y.2.1, y.2.2.1⟩) ?_ (by simp) hall
    intro sid hsid acc r hacc hr
    obtain ⟨s, hs, hr⟩ := bind_eq_ok.1 hr
    obtain ⟨vs, hvs, hr⟩ := bind_eq_ok.1 hr
    obtain ⟨acc', hacc', hr⟩ := bind_eq_ok.1 hr
    rw [pure_eq_ok] at hr
    subst hr
    refine forIn_ok_of_preserves (fun all : Array Candidate =>
      ∀ y ∈ all.toList, ListedAt c m p ⟨y.2.1, y.2.2.1⟩) ?_ hacc hacc'
    intro v hv b r hb hr
    rw [pure_eq_ok] at hr
    subst hr
    intro y hy
    simp only [ForInStep.value, Array.toList_push, List.mem_append, List.mem_singleton] at hy
    rcases hy with hy | rfl
    · exact hb y hy
    · exact ⟨mem_regionIdsAt_of_submapsAt hids sid hsid,
        s, hs, Submap.mem_vertexIds_of_closest hvs v hv⟩
  exact fun x hx => hinv x ((Sorting.sortByM_ok_perm _ h).subset hx)

/-- **The entry and exit vertices** of a search are vertices listed at their point. -/
theorem listedAt_of_reachableVertices {n : Value} {clear : SegmentTest} {vs : List VertexRef}
    (h : reachableVertices c m p n clear = .ok vs) : ∀ v ∈ vs, ListedAt c m p v := by
  unfold reachableVertices at h
  obtain ⟨cs, hcs, h⟩ := bind_eq_ok.1 h
  obtain ⟨kept, hkept, h⟩ := bind_eq_ok.1 h
  rw [pure_eq_ok] at h
  subst h
  refine forIn_ok_of_preserves (fun kept : Array VertexRef =>
    ∀ v ∈ kept.toList, ListedAt c m p v) ?_ (by simp) hkept
  rintro ⟨d, sid, v, w⟩ hx acc r hacc hr
  obtain ⟨full, -, hr⟩ := bind_eq_ok.1 hr
  split at hr
  · rw [pure_eq_ok] at hr
    subst hr
    exact hacc
  · obtain ⟨pass, -, hr⟩ := bind_eq_ok.1 hr
    split at hr
    · rw [pure_eq_ok] at hr
      subst hr
      intro y hy
      simp only [ForInStep.value, Array.toList_push, List.mem_append, List.mem_singleton] at hy
      rcases hy with hy | rfl
      · exact hacc y hy
      · exact listedAt_of_candidates hcs _ hx
    · rw [pure_eq_ok] at hr
      subst hr
      exact hacc

/-- A bridge from a vertex at `p` of submap `home` to the vertex `v` at `w`, of length `d`: `v` is
listed at `p` in another submap, no farther than the linking distance, and the segment to it is
traversable in the global map. -/
structure IsBridge (c : SubmapCollection) (m : VoxelMap) (cfg : SearchSettings) (home : Value)
    (p : Vec3) (v : VertexRef) (w : Vec3) (d : Float) : Prop where
  listed : ListedAt c m p v
  other : v.submap.same home = false
  position : ∃ s, c.find v.submap = .ok s ∧ w = position s v.vertex
  length : d = (w - p).norm
  near : cfg.linkingDistance.lessThan (.num d) = .ok false
  clear : m.segmentGlobal p w = .ok true

/-- **Every bridge the search finds** passes the tests of a bridge. -/
theorem isBridge_of_mem_bridges {cfg : SearchSettings} {home : Value}
    {bs : List (VertexRef × Vec3 × Float)} (h : bridges c m cfg home p = .ok bs) :
    ∀ b ∈ bs, IsBridge c m cfg home p b.1 b.2.1 b.2.2 := by
  unfold bridges at h
  obtain ⟨ids, hids, h⟩ := bind_eq_ok.1 h
  obtain ⟨found, hfound, h⟩ := bind_eq_ok.1 h
  rw [pure_eq_ok] at h
  subst h
  refine forIn_ok_of_preserves (fun found : Array (VertexRef × Vec3 × Float) =>
    ∀ b ∈ found.toList, IsBridge c m cfg home p b.1 b.2.1 b.2.2) ?_ (by simp) hfound
  intro sid hsid acc r hacc hr
  split at hr
  · rw [pure_eq_ok] at hr
    subst hr
    exact hacc
  · rename_i hother
    obtain ⟨other, hfind, hr⟩ := bind_eq_ok.1 hr
    obtain ⟨vs, hvs, hr⟩ := bind_eq_ok.1 hr
    obtain ⟨acc', hacc', hr⟩ := bind_eq_ok.1 hr
    rw [pure_eq_ok] at hr
    subst hr
    refine forIn_ok_of_preserves (fun found : Array (VertexRef × Vec3 × Float) =>
      ∀ b ∈ found.toList, IsBridge c m cfg home p b.1 b.2.1 b.2.2) ?_ hacc hacc'
    intro v hv b r hb hr
    obtain ⟨far, hfar, hr⟩ := bind_eq_ok.1 hr
    split at hr
    · rw [pure_eq_ok] at hr
      subst hr
      exact hb
    · rename_i hnear
      obtain ⟨pass, hpass, hr⟩ := bind_eq_ok.1 hr
      split at hr
      · rw [pure_eq_ok] at hr
        subst hr
        exact hb
      · rename_i hclear
        rw [pure_eq_ok] at hr
        subst hr
        intro y hy
        simp only [ForInStep.value, Array.toList_push, List.mem_append, List.mem_singleton] at hy
        rcases hy with hy | rfl
        · exact hb y hy
        · simp only [Bool.not_eq_true] at hother hnear
          simp only [Bool.not_eq_true', Bool.not_eq_false] at hclear
          exact ⟨⟨mem_regionIdsAt_of_submapsAt hids sid hsid,
            other, hfind, Submap.mem_vertexIds_of_closest hvs v hv⟩,
            hother, ⟨other, hfind, rfl⟩, rfl, hnear ▸ hfar, hclear ▸ hpass⟩


theorem mem_regions_of_mem_regionIdsAt {sid : Value} (h : sid ∈ m.regionIdsAt p) :
    ∃ r ∈ m.regions, r.id = sid := by
  obtain ⟨r, hr, rfl⟩ := List.mem_map.1 h
  exact ⟨r, List.mem_of_mem_filter hr, rfl⟩

/-- A vertex listed at a point has integer ids when the collection and the map do. -/
theorem ListedAt.isInt {v : VertexRef} (hv : ListedAt c m p v) (hids : IntegerIds c m) :
    v.IsInt := by
  obtain ⟨r, hr, hrid⟩ := mem_regions_of_mem_regionIdsAt hv.region
  obtain ⟨a, ha⟩ := hids.regions r hr
  obtain ⟨s, hs, hvs⟩ := hv.listed
  obtain ⟨b, hb⟩ := hids.vertexIds s (SubmapCollection.mem_of_find_ok hs).1 _ hvs
  exact ⟨a, b, by rw [← hb, ← ha, hrid]⟩

/-- A vertex listed at a point is not the goal mark when the collection has none. -/
theorem ListedAt.ne_goal {v : VertexRef} (hv : ListedAt c m p v) (hfree : GoalMarkFree c) :
    v ≠ VertexRef.goal := by
  rintro rfl
  obtain ⟨s, hs, hvs⟩ := hv.listed
  obtain ⟨hmem, hsame⟩ := SubmapCollection.mem_of_find_ok hs
  exact (hfree s hmem hsame).1 hvs

end Federation

end Exploration
