import Mathlib
import Exploration.Proofs.SearchPath
import Exploration.Proofs.MapHistory
import Exploration.Proofs.SearchRounds

/-!
# The vertices kept around a point

`Federation.reachableVertices` walks the candidates around a point in their order
(`Federation.candidates`: for each submap at the point, its `n` vertices nearest the point) and
keeps those whose segment from the point passes a test, until `n` are kept. In closed form
(`reachableVertices_eq_take_filter`): for an integer count and a test that answers on every
candidate, the result is the first `n` candidates that pass.

The candidates are cut to the `n` nearest vertices of each submap before any segment is tested.
So the result is not the first `n` of all the vertices at the point that pass: when the nearest
vertex of a submap is blocked, the next one is never a candidate, and nothing is kept although a
vertex with a clear segment is there (`nearest_blocked_vertex_hides_next`).

Whatever the count and the test, the vertices kept are those of some of the candidates, in their
order (`reachableVertices_sublist`). The candidates are sorted by distance, then submap id, then
vertex id (`candidateKey`), when the ids are integers and no distance is NaN
(`candidates_sorted`), and over a well-formed federation they are distinct vertices: the submaps
at the point are distinct and each answers distinct nearest vertices
(`WellFormed.candidates_nodup`). So are the vertices kept (`reachableVertices_sorted`,
`WellFormed.reachableVertices_nodup`).
-/

namespace Exploration

namespace Submap

/-- A submap's nearest vertices are distinct when its vertex ids are: the scan answers each point
once. -/
theorem closest_nodup {s : Submap} {point : Except Error Vec3} {n : Value} {vs : List Value}
    (hnd : s.vertexIds.Nodup) (h : s.closest point n = .ok vs) : vs.Nodup := by
  obtain ⟨positions, ⟨l, hperm, hsub⟩, hmap⟩ := closest_ok_positions h
  have hpos : positions.Nodup := hperm.nodup_iff.1 (hsub.nodup List.nodup_range)
  refine List.Nodup.of_map some (hmap ▸ List.Nodup.map_on (fun i hi j _ hij => ?_) hpos)
  -- every position read is within the vertex ids, since the traversal succeeded
  obtain ⟨v, -, hv⟩ := List.mem_map.1 (hmap ▸ List.mem_map_of_mem hi :
    s.vertexIds[i]? ∈ vs.map some)
  exact (List.getElem?_inj (List.getElem?_eq_some_iff.1 hv.symm).1 hnd).1 hij

end Submap

namespace Federation

/-- A loop that keeps, in order, the items passing a test until `k` are kept: from a kept list
of at most `k` items it ends with the first `k - size` passing items appended. -/
theorem forIn_keep_first {α γ ε : Type} (k : Nat) (pass : α → Bool) (ref : α → γ)
    {f : α → Array γ → Except ε (ForInStep (Array γ))} :
    ∀ (xs : List α), (∀ x ∈ xs, ∀ kept : Array γ, f x kept =
        if k ≤ kept.size then .ok (.done kept)
        else .ok (.yield (if pass x then kept.push (ref x) else kept))) →
      ∀ kept : Array γ, kept.size ≤ k →
        forIn xs kept f = .ok (kept ++ (((xs.filter pass).take (k - kept.size)).map ref).toArray)
  | [], _, kept, _ => by simp [pure, Except.pure]
  | x :: xs, hf, kept, hsize => by
    have hrest : ∀ y ∈ xs, ∀ kept : Array γ, f y kept = _ :=
      fun y hy => hf y (List.mem_cons_of_mem _ hy)
    rw [List.forIn_cons, hf x (List.mem_cons_self ..)]
    by_cases hfull : k ≤ kept.size
    · -- the count is reached: the loop stops, and nothing more is taken
      have hzero : k - kept.size = 0 := by omega
      simp [hfull, hzero, bind, Except.bind, pure, Except.pure]
    · simp only [hfull, if_false, bind, Except.bind]
      cases hx : pass x with
      | true =>
        have hnext := forIn_keep_first k pass ref xs hrest (kept.push (ref x)) (by simp; omega)
        have htake : k - kept.size = (k - (kept.size + 1)) + 1 := by omega
        simp only [if_true, hnext, List.filter_cons_of_pos hx, htake, List.take_succ_cons,
          List.map_cons, Array.size_push]
        simp
      | false =>
        have hskip : (x :: xs).filter pass = xs.filter pass := List.filter_cons_of_neg (by simp [hx])
        simp only [Bool.false_eq_true, if_false, hskip]
        exact forIn_keep_first k pass ref xs hrest kept hsize

variable {c : SubmapCollection} {m : VoxelMap} {p : Vec3}

/-- **The candidates around a point are distinct vertices** over a well-formed federation: the
submaps at the point are distinct, and each answers distinct nearest vertices. -/
theorem WellFormed.candidates_nodup (hwf : WellFormed c m) {n : Value} {cs : List Candidate}
    (h : candidates c m p n = .ok cs) : (cs.map fun x => (⟨x.2.1, x.2.2.1⟩ : VertexRef)).Nodup := by
  unfold candidates at h
  obtain ⟨ids, hids, h⟩ := bind_eq_ok.1 h
  obtain ⟨all, hall, h⟩ := bind_eq_ok.1 h
  -- the loop over the submaps at the point appends the vertices of each, under an id that the
  -- vertices gathered so far do not have
  obtain ⟨rest, -, hnd, -⟩ := forIn_ok_of_rest (fun rest (acc : Array Candidate) =>
      rest.Nodup ∧ (acc.toList.map fun x => (⟨x.2.1, x.2.2.1⟩ : VertexRef)).Nodup ∧
        ∀ y ∈ acc.toList, y.2.1 ∉ rest)
    (fun sid rest acc r ⟨hrest, hacc, hnew⟩ hr => by
      obtain ⟨s, hs, hr⟩ := bind_eq_ok.1 hr
      obtain ⟨vs, hvs, hr⟩ := bind_eq_ok.1 hr
      obtain ⟨acc', hacc', hr⟩ := bind_eq_ok.1 hr
      rw [pure_eq_ok] at hr
      subst hr
      obtain rfl := Except.ok.inj (hacc'.symm.trans (forIn_push_ok
        (fun v => ((position s v - p).norm, sid, v, position s v)) (fun _ _ => by rfl) vs acc))
      obtain ⟨hsid, hrest'⟩ := List.nodup_cons.1 hrest
      have hmem := (SubmapCollection.mem_of_find_ok hs).1
      have hvs' : vs.Nodup := Submap.closest_nodup
        (by rw [(hwf.made s hmem).1]; exact (hwf.graphs s hmem).vertexIds_nodup) hvs
      simp only [ForInStep.value, Array.toList_append, List.map_append, List.map_map]
      refine ⟨hrest', List.nodup_append.2 ⟨hacc, ?_, ?_⟩, fun y hy => ?_⟩
      · -- the new vertices are under one submap id, with distinct vertex ids
        exact hvs'.map fun a b hab => by simpa using hab
      · -- and that id is not an id of the vertices gathered before
        intro a ha b hb hab
        obtain ⟨x, hx, rfl⟩ := List.mem_map.1 ha
        obtain ⟨v, -, rfl⟩ := List.mem_map.1 hb
        exact hnew x hx (by simp at hab; simp [hab.1])
      · rcases List.mem_append.1 hy with hy | hy
        · exact fun h => hnew y hy (List.mem_cons_of_mem _ h)
        · obtain ⟨v, -, rfl⟩ := List.mem_map.1 hy
          exact hsid)
    ⟨(sublist_of_submapsAt hids).nodup hwf.regions_nodup, by simp, by simp⟩ hall
  exact ((Sorting.sortByM_ok_perm _ h).map _).nodup_iff.2 hnd

/-- The integer of an integer id; an id of another kind counts as zero. -/
def idKey : Value → Int
  | .int n => n
  | _ => 0

/-- The place of a candidate in the order of candidates: its distance's place among doubles, then
its submap id, then its vertex id. -/
def candidateKey (x : Candidate) : (ℕ ×ₗ ℤ ×ₗ ℤ) ×ₗ ℤ ×ₗ ℤ :=
  toLex (Float.rank x.1, toLex (idKey x.2.1, idKey x.2.2.1))

/-- On candidates of integer ids whose distances are not NaN, a candidate comes before another
exactly when its key is smaller. -/
theorem candidateBefore_eq_key {a b : Candidate} (ha : a.1.isNaN = false) (hb : b.1.isNaN = false)
    (hia : (⟨a.2.1, a.2.2.1⟩ : VertexRef).IsInt) (hib : (⟨b.2.1, b.2.2.1⟩ : VertexRef).IsInt) :
    candidateBefore a b = .ok (decide (candidateKey a < candidateKey b)) := by
  obtain ⟨i, j, hij⟩ := hia
  obtain ⟨k, l, hkl⟩ := hib
  simp only [VertexRef.mk.injEq] at hij hkl
  simp only [candidateBefore, candidateKey, hij.1, hij.2, hkl.1, hkl.2, idKey, Value.same_int,
    Value.lessThan_int, Prod.Lex.toLex_lt_toLex]
  by_cases h : Float.rank a.1 = Float.rank b.1
  · rw [if_pos ((Float.beq_iff_rank_eq ha hb).2 h)]
    by_cases hik : i = k <;> by_cases hjl : j = l <;> simp [h, hik, hjl]
  · rw [if_neg (by rwa [Float.beq_iff_rank_eq ha hb])]
    simp [Float.lt_iff_rank_lt ha hb, h]

/-- **The candidates around a point are in order**: by distance, then submap id, then vertex id,
when the ids are integers and no distance is NaN. -/
theorem candidates_sorted (hids : IntegerIds c m) {n : Value} {cs : List Candidate}
    (h : candidates c m p n = .ok cs) (hnan : ∀ x ∈ cs, x.1.isNaN = false) :
    cs.Pairwise fun a b => candidateKey a ≤ candidateKey b := by
  have hlisted := listedAt_of_candidates h
  unfold candidates at h
  obtain ⟨ids, -, h⟩ := bind_eq_ok.1 h
  obtain ⟨all, -, h⟩ := bind_eq_ok.1 h
  -- the sort compares only the gathered candidates, which are the ones it answers
  have hmem : ∀ x ∈ all.toList, x ∈ cs := fun x hx => (Sorting.sortByM_ok_perm _ h).mem_iff.2 hx
  obtain ⟨ys, hys, -, hsorted⟩ := Sorting.sortByM_of_agree candidateKey candidateBefore all.toList
    fun a ha b hb => candidateBefore_eq_key (hnan a (hmem a ha)) (hnan b (hmem b hb))
      ((hlisted a (hmem a ha)).isInt hids) ((hlisted b (hmem b hb)).isInt hids)
  rw [h] at hys
  cases hys
  exact hsorted

/-- The vertices kept around a point are those of some of the candidates, in their order. -/
theorem reachableVertices_sublist {n : Value} {clear : SegmentTest} {vs : List VertexRef}
    (h : reachableVertices c m p n clear = .ok vs) :
    ∃ (cs kept : List Candidate), candidates c m p n = .ok cs ∧ kept.Sublist cs ∧
      vs = kept.map fun x => ⟨x.2.1, x.2.2.1⟩ := by
  unfold reachableVertices at h
  obtain ⟨cs, hcs, h⟩ := bind_eq_ok.1 h
  obtain ⟨kept, hkept, h⟩ := bind_eq_ok.1 h
  rw [pure_eq_ok] at h
  subst h
  -- the candidates tried so far and those still to come make up the list; what is kept are the
  -- vertices of some of the tried ones
  obtain ⟨rest, tried, ks, hsplit, hks, hkeptks⟩ := forIn_ok_of_rest
    (fun rest (acc : Array VertexRef) => ∃ tried ks, tried ++ rest = cs ∧ ks.Sublist tried ∧
      acc.toList = ks.map fun x => (⟨x.2.1, x.2.2.1⟩ : VertexRef))
    (fun x rest acc r ⟨tried, ks, hsplit, hsub, hacc⟩ hr => by
      obtain ⟨d, sid, v, w⟩ := x
      have hsplit' : (tried ++ [(d, sid, v, w)]) ++ rest = cs := by simpa using hsplit
      have hsub' := hsub.trans (List.sublist_append_left tried [(d, sid, v, w)])
      obtain ⟨full, -, hr⟩ := bind_eq_ok.1 hr
      split at hr
      · rw [pure_eq_ok] at hr
        subst hr
        exact ⟨_, ks, hsplit', hsub', hacc⟩
      · obtain ⟨pass, -, hr⟩ := bind_eq_ok.1 hr
        split at hr
        · rw [pure_eq_ok] at hr
          subst hr
          exact ⟨_, ks ++ [(d, sid, v, w)], hsplit', hsub.append (List.Sublist.refl _),
            by simp [hacc]⟩
        · rw [pure_eq_ok] at hr
          subst hr
          exact ⟨_, ks, hsplit', hsub', hacc⟩)
    ⟨[], [], rfl, List.Sublist.slnil, rfl⟩ hkept
  exact ⟨cs, ks, hcs, hks.trans (hsplit ▸ List.sublist_append_left tried rest), hkeptks⟩

/-- **The vertices kept around a point are distinct** over a well-formed federation. -/
theorem WellFormed.reachableVertices_nodup (hwf : WellFormed c m) {n : Value} {clear : SegmentTest}
    {vs : List VertexRef} (h : reachableVertices c m p n clear = .ok vs) : vs.Nodup := by
  obtain ⟨cs, kept, hcs, hsub, rfl⟩ := reachableVertices_sublist h
  exact (hsub.map _).nodup (hwf.candidates_nodup hcs)

/-- **The vertices kept around a point are in order**: by distance, then submap id, then vertex
id, when the ids are integers and no candidate's distance is NaN. -/
theorem reachableVertices_sorted (hids : IntegerIds c m) {n : Value} {clear : SegmentTest}
    {cs : List Candidate} (hcs : candidates c m p n = .ok cs) (hnan : ∀ x ∈ cs, x.1.isNaN = false)
    {vs : List VertexRef} (h : reachableVertices c m p n clear = .ok vs) :
    ∃ kept : List Candidate, kept.Sublist cs ∧ (vs = kept.map fun x => ⟨x.2.1, x.2.2.1⟩) ∧
      kept.Pairwise fun a b => candidateKey a ≤ candidateKey b := by
  obtain ⟨cs', kept, hcs', hsub, rfl⟩ := reachableVertices_sublist h
  rw [hcs] at hcs'
  cases hcs'
  exact ⟨kept, hsub, rfl, (candidates_sorted hids hcs hnan).sublist hsub⟩

/-- **The vertices kept around a point** are the first `n` candidates whose segment passes the
test, in the candidates' order, for an integer count `n` and a test that answers on every
candidate. -/
theorem reachableVertices_eq_take_filter {n : Int} {clear : SegmentTest} {pass : Vec3 → Bool}
    {cs : List Candidate} (hcs : candidates c m p (.int n) = .ok cs)
    (hclear : ∀ x ∈ cs, clear p x.2.2.2 = .ok (pass x.2.2.2)) :
    reachableVertices c m p (.int n) clear =
      .ok (((cs.filter fun x => pass x.2.2.2).take n.toNat).map fun x => ⟨x.2.1, x.2.2.1⟩) := by
  unfold reachableVertices
  rw [hcs]
  -- one round: the count is compared with the number kept, then the segment is tested
  have hstep : ∀ x ∈ cs, ∀ kept : Array VertexRef,
      ((Value.int n).atMost (.int kept.size) >>= fun full =>
        if full = true then pure (ForInStep.done kept)
        else clear p x.2.2.2 >>= fun ok =>
          if ok = true then pure (ForInStep.yield (kept.push ⟨x.2.1, x.2.2.1⟩))
          else pure (ForInStep.yield kept)) =
      if n.toNat ≤ kept.size then .ok (.done kept)
      else .ok (.yield (if pass x.2.2.2 then kept.push ⟨x.2.1, x.2.2.1⟩ else kept)) := by
    intro x hx kept
    have hle : (n ≤ (kept.size : Int)) ↔ n.toNat ≤ kept.size := by omega
    rw [Value.atMost_int, hclear x hx]
    by_cases hfull : n.toNat ≤ kept.size
    · simp [hle, hfull, bind, Except.bind, pure, Except.pure]
    · cases pass x.2.2.2 <;> simp [hle, hfull, bind, Except.bind, pure, Except.pure]
  have hloop := forIn_keep_first n.toNat (fun x : Candidate => pass x.2.2.2)
    (fun x : Candidate => (⟨x.2.1, x.2.2.1⟩ : VertexRef)) cs hstep #[] (by simp)
  simp only [bind, Except.bind] at hloop ⊢
  rw [hloop]
  simp [pure, Except.pure]

/-- A test of segments that answers from the far end's first coordinate: the two vertices of
the pair collection, at `x = ¼` and `x = ¾`, are told apart by it. -/
theorem keeps_first_passing_on_pair :
    ∃ cs, candidates (pairCollection 0 0 1) (pairMap 0) ⟨0.4, 0.5, 0.5⟩ (.int 2) = .ok cs ∧
      reachableVertices (pairCollection 0 0 1) (pairMap 0) ⟨0.4, 0.5, 0.5⟩ (.int 2)
          (fun _ w => .ok (decide (0.5 < w.x))) =
        .ok (((cs.filter fun x => decide (0.5 < x.2.2.2.x)).take (2 : Int).toNat).map
          fun x => ⟨x.2.1, x.2.2.1⟩) := by
  obtain ⟨cs, hcs, -⟩ := exists_ok_of_toOption_map (f := fun _ => ())
    (x := candidates (pairCollection 0 0 1) (pairMap 0) ⟨0.4, 0.5, 0.5⟩ (.int 2)) (b := ())
    (by decide +kernel)
  refine ⟨cs, hcs, @reachableVertices_eq_take_filter _ _ _ _ _ (fun w => decide (0.5 < w.x)) _ hcs ?_⟩
  intro x _
  rfl

/-- The row of eight cells of edge `⅛` (`VoxelMap.unseenRow`) seen free but for the third
(`¼ ≤ x < ⅜`), which is occupied, and frozen whole as the region of id `0`. -/
def blockedRow : Except Error VoxelMap :=
  (((VoxelMap.unseenRow.fill .free).setBox ⟨0.25, 0.45, 0.45⟩ ⟨0.375, 0.55, 0.55⟩ .occupied).1).freeze
    (.int 0) ⟨0, 0.4375, 0.4375⟩ ⟨1, 0.5625, 0.5625⟩

/-- **The cut to the nearest vertices comes before the segment test.** From `(0.45, ½, ½)`, vertex
`0` of the pair (at `x = ¼`) is nearer than vertex `1` (at `x = ¾`), but behind the occupied
cell; the segment to vertex `1` is traversable in the active region. Asked for one vertex, the
search keeps none, since the only candidate of the submap is vertex `0`; asked for two, it keeps
one. -/
theorem nearest_blocked_vertex_hides_next :
    ∃ m, blockedRow = .ok m ∧
      m.segmentActive none ⟨0.45, 0.5, 0.5⟩ ⟨0.75, 0.5, 0.5⟩ = .ok true ∧
      reachableVertices (pairCollection 0 0 1) m ⟨0.45, 0.5, 0.5⟩ (.int 1) (m.segmentActive none) =
        .ok [] ∧
      (reachableVertices (pairCollection 0 0 1) m ⟨0.45, 0.5, 0.5⟩ (.int 2)
        (m.segmentActive none)).map List.length = .ok 1 := by
  obtain ⟨m, hm, hfacts⟩ := exists_ok_of_toOption_map
    (f := fun m : VoxelMap =>
      ((m.segmentActive none ⟨0.45, 0.5, 0.5⟩ ⟨0.75, 0.5, 0.5⟩).toOption,
       ((reachableVertices (pairCollection 0 0 1) m ⟨0.45, 0.5, 0.5⟩ (.int 1)
          (m.segmentActive none)).map List.length).toOption,
       ((reachableVertices (pairCollection 0 0 1) m ⟨0.45, 0.5, 0.5⟩ (.int 2)
          (m.segmentActive none)).map List.length).toOption))
    (x := blockedRow) (b := (some true, some 0, some 1)) (by decide +kernel)
  simp only [Prod.mk.injEq] at hfacts
  obtain ⟨hclear, hnone, hone⟩ := hfacts
  refine ⟨m, hm, eq_ok_of_toOption hclear, ?_, eq_ok_of_toOption hone⟩
  -- no vertex kept: the run succeeds with a list of length zero
  rcases hr : reachableVertices (pairCollection 0 0 1) m ⟨0.45, 0.5, 0.5⟩ (.int 1)
    (m.segmentActive none) with e | vs
  · rw [hr] at hnone
    cases hnone
  · rw [hr] at hnone
    have hlen : vs.length = 0 := by simpa [Except.map, Except.toOption] using hnone
    rw [List.length_eq_zero_iff.1 hlen]

end Federation

end Exploration
