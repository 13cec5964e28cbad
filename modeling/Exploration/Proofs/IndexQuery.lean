import Mathlib
import Exploration.Proofs.Distance
import Exploration.Proofs.Ids
import Exploration.Proofs.IndexLive
import Exploration.Proofs.Selection
import Exploration.Proofs.Sorting

/-!
# A query on the index answers as brute force

`SpatialIndex.nearestWith` searches the built part for its `min k n` nearest rows, adds every
tail entry, sorts the candidates by distance and position and keeps `k`. This module proves
that it answers what brute force answers over the live entries (`bruteNearest`: every live
entry by distance and then position, the first `k`), after any run of insertions, rebuilds and
clears (`nearestWith_eq_bruteNearest_of_run`), provided

* the search of the built part is sound (`SoundSearch`: it answers the `count` nearest rows by
  the distance of the built part, `Nearest.treeDistance`); `bruteSearch` is one such search;
* the `k` nearest are well defined (`Separated`): the `k`-th smallest distance is strictly below
  the `(k+1)`-th, or there are at most `k` entries, so no tie at the boundary leaves the choice
  to the search;
* the built part's distance and the tail's (`Nearest.euclidean`, by the pairwise sum) agree on
  the live points. They add the same squares in different orders, four lanes against eight, and
  from eight coordinates on they can differ in the last bit: the same point then sorts
  differently in the built part than in the tail.

The proof reads the query step by step (`tailCandidates_eq`, `treeCandidatesWith_spec`), shows
that the built part's candidates are its `k` nearest (`nearestOf_filterMap`), and concludes by
`Selection.take_sorted_selection`. Doubles are compared through their places among doubles
(`candidateKey`), which is exact since no distance is NaN.
-/

open Exploration.Float

namespace Exploration

namespace SpatialIndex

variable {α : Type}

/-! ## The brute-force answer -/

/-- The candidate of a live entry at its position: its distance to the query by the pairwise
    sum, its position and its key. -/
def liveCandidate (q : List Float) (e : (α × List Float) × Nat) : Candidate α :=
  (Nearest.euclidean e.1.2 q, e.2, e.1.1)

/-- The candidates of entries placed from position `start` on. -/
def candidatesFrom (start : Nat) (entries : List (α × List Float)) (q : List Float) :
    List (Candidate α) :=
  (entries.zipIdx start).map (liveCandidate q)

/-- Whether a candidate comes no later than another: by distance, at equal distance by
    position. -/
def candidateLE (a b : Candidate α) : Bool := a.1 < b.1 || (a.1 == b.1 && a.2.1 ≤ b.2.1)

/-- The `k` nearest live entries by brute force: every live entry by distance and then
    position, the first `k`, each key with its distance. -/
def bruteNearest (live : List (α × List Float)) (q : List Float) (k : Nat) : List (α × Float) :=
  (((candidatesFrom 0 live q).mergeSort candidateLE).take k).map fun c => (c.2.2, c.1)

/-- The distances of the live entries to the query, in increasing order. -/
def sortedDistances (live : List (α × List Float)) (q : List Float) : List Float :=
  (live.map fun e => Nearest.euclidean e.2 q).mergeSort fun a b => decide (a ≤ b)

/-- The `k` nearest live entries are well defined: there are at most `k`, or the `k`-th
    smallest distance is strictly below the `(k+1)`-th. -/
def Separated (live : List (α × List Float)) (q : List Float) (k : Nat) : Prop :=
  live.length ≤ k ∨
    (sortedDistances live q).getD (k - 1) 0.0 < (sortedDistances live q).getD k 0.0

/-! ## What a search of the built part answers -/

/-- `found` answers the `count` nearest rows of `data` by `dist`: that many distinct rows, each
    with its distance, and no row left out strictly nearer than a row answered. -/
structure KNearest (dist : List Float → Float) (data : List (List Float)) (count : Nat)
    (found : List (Float × Nat)) : Prop where
  length_eq : found.length = count
  nodup : (found.map (·.2)).Nodup
  row_lt : ∀ f ∈ found, f.2 < data.length
  dist_eq : ∀ f ∈ found, f.1 = dist (data.getD f.2 [])
  nearest : ∀ f ∈ found, ∀ i (hi : i < data.length), i ∉ found.map (·.2) → ¬ dist data[i] < f.1

/-- A search answers the `count` nearest rows by the distance of the built part, for points of
    one length with finite coordinates and a count within the rows. -/
def SoundSearch (search : TreeSearch) : Prop :=
  ∀ (data : List (List Float)) (q : List Float) (count : Nat), count ≤ data.length → (∀ p ∈ data, p.length = q.length ∧ finitePoint p) →
    finitePoint q → KNearest (Nearest.treeDistance · q) data count (search data q count)

/-! ## The order of candidates -/

/-- The place of a candidate in the order of candidates: its distance's place among doubles,
    then its position. -/
def candidateKey (c : Candidate α) : (ℕ ×ₗ ℤ ×ₗ ℤ) ×ₗ ℕ := toLex (rank c.1, c.2.1)

theorem candidateBefore_eq {a b : Candidate α} (ha : NonNeg a.1) (hb : NonNeg b.1) :
    candidateBefore a b = decide (candidateKey a < candidateKey b) := by
  have hna := ha.isNaN_eq_false
  have hnb := hb.isNaN_eq_false
  simp only [candidateBefore, candidateKey, Prod.Lex.toLex_lt_toLex]
  by_cases h : rank a.1 = rank b.1
  · rw [if_pos ((beq_iff_rank_eq hna hnb).2 h)]
    simp [h]
  · rw [if_neg (by rwa [beq_iff_rank_eq hna hnb])]
    simp [lt_iff_rank_lt hna hnb, h]

theorem candidateLE_eq {a b : Candidate α} (ha : NonNeg a.1) (hb : NonNeg b.1) :
    candidateLE a b = decide (candidateKey a ≤ candidateKey b) := by
  have hna := ha.isNaN_eq_false
  have hnb := hb.isNaN_eq_false
  simp only [candidateLE, candidateKey, Prod.Lex.toLex_le_toLex, lt_iff_rank_lt hna hnb]
  by_cases h : rank a.1 = rank b.1
  · simp [(beq_iff_rank_eq hna hnb).2 h, h]
  · have : (a.1 == b.1) = false := by
      rw [Bool.eq_false_iff, ne_eq, beq_iff_rank_eq hna hnb]
      exact h
    simp [this, h]

/-- A later candidate is no nearer. -/
theorem rank_le_of_candidateKey_le {a b : Candidate α} (h : candidateKey a ≤ candidateKey b) :
    rank a.1 ≤ rank b.1 := by
  rcases Prod.Lex.toLex_le_toLex.1 h with h | ⟨h, _⟩
  · exact le_of_lt h
  · exact le_of_eq h

/-! ## Candidates of live entries -/

theorem candidatesFrom_append (start : Nat) (l₁ l₂ : List (α × List Float)) (q : List Float) :
    candidatesFrom start (l₁ ++ l₂) q =
      candidatesFrom start l₁ q ++ candidatesFrom (start + l₁.length) l₂ q := by
  simp [candidatesFrom, List.zipIdx_append]

theorem getElem?_candidatesFrom (start : Nat) (l : List (α × List Float)) (q : List Float)
    (i : Nat) :
    (candidatesFrom start l q)[i]? = l[i]?.map fun e => liveCandidate q (e, start + i) := by
  simp [candidatesFrom, List.getElem?_zipIdx, Option.map_map, Function.comp_def]

theorem map_position_candidatesFrom (start : Nat) (l : List (α × List Float)) (q : List Float) :
    (candidatesFrom start l q).map (·.2.1) = List.range' start l.length := by
  rw [candidatesFrom, List.map_map]
  exact List.zipIdx_map_snd start l

theorem map_distance_candidatesFrom (start : Nat) (l : List (α × List Float)) (q : List Float) :
    (candidatesFrom start l q).map (·.1) = l.map fun e => Nearest.euclidean e.2 q := by
  have h := congrArg (List.map fun e => Nearest.euclidean e.2 q) (List.zipIdx_map_fst start l)
  rw [List.map_map] at h
  rw [← h, candidatesFrom, List.map_map]
  rfl

/-- Candidates are told apart by their positions. -/
theorem nodup_map_candidateKey (start : Nat) (l : List (α × List Float)) (q : List Float) :
    ((candidatesFrom start l q).map candidateKey).Nodup := by
  have h : ((candidatesFrom start l q).map candidateKey).map (fun k => (ofLex k).2) =
      List.range' start l.length := by
    rw [List.map_map, ← map_position_candidatesFrom]
    rfl
  exact List.Nodup.of_map _ (h ▸ List.nodup_range')

/-- Every candidate of points with finite coordinates has a distance that is not NaN. -/
theorem nonNeg_of_mem_candidatesFrom {start : Nat} {l : List (α × List Float)} {q : List Float}
    (hpoints : ∀ e ∈ l, finitePoint e.2) (hq : finitePoint q) :
    ∀ c ∈ candidatesFrom start l q, NonNeg c.1 := by
  intro c hc
  obtain ⟨⟨e, i⟩, he, rfl⟩ := List.mem_map.1 hc
  have hfin : ∀ {p : List Float}, finitePoint p → ∀ x ∈ p, x.isFinite = true := by
    intro p hp
    simpa [finitePoint, List.all_eq_true] using hp
  have he' : e ∈ l := by simpa using List.mem_map_of_mem (f := Prod.fst) he
  exact Nearest.euclidean_nonNeg (hfin (hpoints e he')) (hfin hq)

/-! ## The brute-force order -/

section Brute

variable {live : List (α × List Float)} {q : List Float}
  (hpoints : ∀ e ∈ live, finitePoint e.2) (hq : finitePoint q)
include hpoints hq

/-- The brute-force list is in strict order of candidates. -/
theorem bruteSorted_sorted :
    ((candidatesFrom 0 live q).mergeSort candidateLE).Pairwise
      (fun a b => candidateKey a < candidateKey b) := by
  have hnn : ∀ c ∈ candidatesFrom 0 live q, NonNeg c.1 := nonNeg_of_mem_candidatesFrom hpoints hq
  have hle := Sorting.mergeSort_of_agree candidateKey candidateLE _
    fun a ha b hb => candidateLE_eq (hnn a ha) (hnn b hb)
  refine Selection.sorted_lt_of_sorted_le candidateKey hle ?_
  exact ((List.mergeSort_perm _ _).map candidateKey).nodup_iff.2 (nodup_map_candidateKey 0 live q)

/-- The places among doubles of the sorted distances are those of the brute-force list's
    distances: both lists are in order and hold the same distances. -/
theorem map_rank_sortedDistances :
    (sortedDistances live q).map rank =
      ((candidatesFrom 0 live q).mergeSort candidateLE).map fun c => rank c.1 := by
  have hnn : ∀ c ∈ candidatesFrom 0 live q, NonNeg c.1 := nonNeg_of_mem_candidatesFrom hpoints hq
  have hds : ∀ x ∈ live.map (fun e => Nearest.euclidean e.2 q), NonNeg x := by
    intro x hx
    rw [← map_distance_candidatesFrom 0 live q] at hx
    obtain ⟨c, hc, rfl⟩ := List.mem_map.1 hx
    exact hnn c hc
  have hmap : (sortedDistances live q).map rank =
      ((live.map fun e => Nearest.euclidean e.2 q).map rank).mergeSort (fun x y => decide (x ≤ y)) :=
    List.map_mergeSort fun a ha b hb =>
      decide_eq_decide.2 (le_iff_rank_le (hds a ha).isNaN_eq_false (hds b hb).isNaN_eq_false)
  refine List.Perm.eq_of_pairwise (fun x y _ _ (hxy : x ≤ y) hyx => le_antisymm hxy hyx) ?_ ?_ ?_
  · rw [hmap]
    exact List.pairwise_mergeSort' (· ≤ ·) _
  · exact List.pairwise_map.2 ((bruteSorted_sorted hpoints hq).imp fun h =>
      rank_le_of_candidateKey_le (le_of_lt h))
  · rw [hmap, ← map_distance_candidatesFrom 0 live q, List.map_map]
    exact (List.mergeSort_perm _ _).trans ((List.mergeSort_perm _ _).map _).symm

/-- **Separation read on the brute-force list**: its `k`-th candidate is strictly nearer than
    the next one, when there is a next one. -/
theorem rank_lt_of_separated {k : Nat} (hsep : Separated live q k) :
    ∀ a b, ((candidatesFrom 0 live q).mergeSort candidateLE)[k - 1]? = some a →
      ((candidatesFrom 0 live q).mergeSort candidateLE)[k]? = some b → rank a.1 < rank b.1 := by
  intro a b ha hb
  have hlen : ((candidatesFrom 0 live q).mergeSort candidateLE).length = live.length := by
    simp [candidatesFrom]
  obtain ⟨hkS, rfl⟩ := List.getElem?_eq_some_iff.1 hb
  obtain ⟨hk1, rfl⟩ := List.getElem?_eq_some_iff.1 ha
  rcases hsep with hle | hlt
  · omega
  · have hdlen : (sortedDistances live q).length = live.length := by simp [sortedDistances]
    rw [List.getD_eq_getElem _ _ (by omega), List.getD_eq_getElem _ _ (by omega)] at hlt
    have hranks := map_rank_sortedDistances hpoints hq
    have hnn : ∀ x ∈ sortedDistances live q, NonNeg x := by
      intro x hx
      rw [sortedDistances, List.mem_mergeSort, ← map_distance_candidatesFrom 0 live q] at hx
      obtain ⟨c, hc, rfl⟩ := List.mem_map.1 hx
      exact nonNeg_of_mem_candidatesFrom hpoints hq c hc
    rw [lt_iff_rank_lt (hnn _ (List.getElem_mem _)).isNaN_eq_false
      (hnn _ (List.getElem_mem _)).isNaN_eq_false] at hlt
    have h1 := List.getElem_of_eq hranks (i := k - 1) (by simp; omega)
    have h2 := List.getElem_of_eq hranks (i := k) (by simp; omega)
    simp only [List.getElem_map] at h1 h2
    rwa [← h1, ← h2]

end Brute

/-! ## The query, step by step -/

theorem answersNothing_pos (s : SpatialIndex α) {k : Nat} (hk : 0 < k) :
    s.answersNothing (.int k) = .ok (s.size == 0) := by
  have hlow : decide ((k : Int) ≤ 0) = false := by simp; omega
  rw [answersNothing, Value.atMost_int, hlow]
  rfl

/-- A step that succeeds on every item of a list succeeds on the list. -/
theorem mapM_eq_ok_filterMap {β γ : Type} (g : β → Except Error γ) (h : β → Option γ) :
    ∀ (l : List β), (∀ x ∈ l, ∃ y, h x = some y ∧ g x = .ok y) → l.mapM g = .ok (l.filterMap h)
  | [], _ => rfl
  | x :: l, hl => by
    obtain ⟨y, hy, hgy⟩ := hl x (List.mem_cons_self ..)
    rw [List.mapM_cons, hgy, List.filterMap_cons, hy,
      mapM_eq_ok_filterMap g h l fun z hz => hl z (List.mem_cons_of_mem _ hz)]
    rfl

theorem mapM_eq_ok_map {β γ : Type} (g : β → Except Error γ) (f : β → γ) (l : List β)
    (hl : ∀ x ∈ l, g x = .ok (f x)) : l.mapM g = .ok (l.map f) := by
  rw [mapM_eq_ok_filterMap g (some ∘ f) l fun x hx => ⟨f x, rfl, hl x hx⟩, List.filterMap_eq_map]

/-- The tail's candidates are the live candidates placed after the built part's keys, when every
    tail point has the query's length. -/
theorem tailCandidates_eq (s : SpatialIndex α) {q : List Float}
    (hlen : ∀ e ∈ s.tail, e.2.length = q.length) :
    s.tailCandidates q = .ok (candidatesFrom s.treeKeys.length s.tail q) := by
  unfold tailCandidates
  split
  · rename_i h
    simp only [h, candidatesFrom, List.zipIdx_nil, List.map_nil]
    rfl
  · rename_i key first rest h
    have hall : (rest.all fun e => e.2.length == first.length) = true := by
      have hfirst := hlen (key, first) (by simp [h])
      simp only [List.all_eq_true, beq_iff_eq]
      intro e he
      rw [hlen e (by simp [h, he]), hfirst]
    simp only [hall, Bool.not_true, Bool.false_eq_true, if_false]
    rw [mapM_eq_ok_map _ (fun x => liveCandidate q (x.1, s.treeKeys.length + x.2))]
    · simp [candidatesFrom, List.zipIdx_eq_map_add (i := s.treeKeys.length), Function.comp_def]
    · rintro ⟨⟨key', p⟩, j⟩ hx
      have hp : p.length = q.length := hlen (key', p) (by simpa using List.mem_map_of_mem (f := Prod.fst) hx)
      have hoff : offsetFrom p q = .ok (List.zipWith (· - ·) p q) := by simp [offsetFrom, hp]
      simp only [hoff, liveCandidate, Nearest.euclidean, Nearest.squares, bind, Except.bind,
        List.map_zipWith]

/-- **The rows a search answers, read as candidates,** are the `k` nearest candidates of a list
    whose candidate at each position carries that position: distinct, `min k` many, and none
    farther than a candidate left out. -/
theorem nearestOf_filterMap {A : List (Candidate α)} {found : List (Float × Nat)} {k : Nat}
    (hpos : ∀ (i : Nat) (c : Candidate α), A[i]? = some c → c.2.1 = i) (hnn : ∀ c ∈ A, NonNeg c.1)
    (hfound : ∀ f ∈ found, ∃ c, A[f.2]? = some c ∧ c.1 = f.1)
    (hnodup : (found.map (·.2)).Nodup) (hlen : found.length = min k A.length)
    (hnear : ∀ f ∈ found, ∀ i (hi : i < A.length), i ∉ found.map (·.2) → ¬ A[i].1 < f.1) :
    Selection.NearestOf (fun c => rank c.1) A k (found.filterMap fun f => A[f.2]?) := by
  have hposC : (found.filterMap fun f => A[f.2]?).map (·.2.1) = found.map (·.2) := by
    rw [List.map_filterMap, ← List.filterMap_eq_map']
    refine List.filterMap_congr fun f hf => ?_
    obtain ⟨c, hc, -⟩ := hfound f hf
    rw [hc, Option.map_some, hpos _ _ hc]
  refine ⟨List.Nodup.of_map (·.2.1) (hposC ▸ hnodup), ?_, ?_, ?_⟩
  · intro c hc
    obtain ⟨f, -, hfc⟩ := List.mem_filterMap.1 hc
    exact List.mem_of_getElem? hfc
  · rw [← List.length_map (f := fun c : Candidate α => c.2.1), hposC, List.length_map, hlen]
  · intro c hc a ha haC
    obtain ⟨f, hf, hfc⟩ := List.mem_filterMap.1 hc
    obtain ⟨i, hi, rfl⟩ := List.getElem_of_mem ha
    -- the row of `a` is not answered, or `a` would be among the candidates
    have hi_not : i ∉ found.map (·.2) := by
      intro hmem
      obtain ⟨f', hf', hf'i⟩ := List.mem_map.1 hmem
      exact haC (List.mem_filterMap.2 ⟨f', hf', by rw [hf'i]; exact List.getElem?_eq_getElem hi⟩)
    obtain ⟨c', hc', hc'1⟩ := hfound f hf
    have hcf : c.1 = f.1 := by
      rw [hfc, Option.some_inj] at hc'
      rw [hc', hc'1]
    have hac := hnear f hf i hi hi_not
    rw [← hcf, lt_iff_rank_lt (hnn _ ha).isNaN_eq_false (hnn c (List.mem_of_getElem? hfc)).isNaN_eq_false]
      at hac
    exact not_lt.1 hac

section Tree

variable {search : TreeSearch} {s : SpatialIndex α} {q : List Float}

/-- A row of the built part: its key and point, and the live candidate at its position. -/
theorem exists_treeRow (hwf : s.Wf) (hbuilt : s.built = true) {i : Nat}
    (hi : i < s.treeKeys.length) :
    ∃ key row, s.treeKeys[i]? = some key ∧ s.treeData[i]? = some row ∧
      (candidatesFrom 0 (s.treeKeys.zip s.treeData) q)[i]? =
        some (Nearest.euclidean row q, i, key) ∧ (key, row) ∈ s.entries := by
  have hi' : i < s.treeData.length := hwf.length_treeData hbuilt ▸ hi
  have hz : (s.treeKeys.zip s.treeData)[i]? = some (s.treeKeys[i], s.treeData[i]) :=
    List.getElem?_zip_eq_some.2 ⟨List.getElem?_eq_getElem hi, List.getElem?_eq_getElem hi'⟩
  refine ⟨s.treeKeys[i], s.treeData[i], List.getElem?_eq_getElem hi,
    List.getElem?_eq_getElem hi', ?_, List.mem_append_left _ (List.mem_of_getElem? hz)⟩
  rw [getElem?_candidatesFrom, hz]
  simp [liveCandidate]

variable (hsearch : SoundSearch search) (hwf : s.Wf) (hq : finitePoint q)
  (hpoints : ∀ e ∈ s.entries, e.2.length = q.length ∧ finitePoint e.2)
  (hagree : ∀ e ∈ s.entries, Nearest.treeDistance e.2 q = Nearest.euclidean e.2 q)
include hsearch hwf hq hpoints hagree

theorem treeCandidatesWith_spec (k : Nat) :
    ∃ C, s.treeCandidatesWith search q (.int k) = .ok C ∧
      Selection.NearestOf (fun c => rank c.1) (candidatesFrom 0 (s.treeKeys.zip s.treeData) q) k C := by
  cases hb : s.built
  · -- no built part, and no keys
    have hkeys := hwf.treeKeys_eq_nil hb
    refine ⟨[], by simp [treeCandidatesWith, hb]; rfl, ?_⟩
    exact ⟨List.nodup_nil, by simp, by simp [hkeys, candidatesFrom], by simp⟩
  · have hdata : s.treeData.length = s.treeKeys.length := (hwf.length_treeData hb).symm
    have hrows : ∀ p ∈ s.treeData, p.length = q.length ∧ finitePoint p := by
      intro p hp
      obtain ⟨i, hi, rfl⟩ := List.getElem_of_mem hp
      obtain ⟨key, row, -, hrow, -, hmem⟩ := exists_treeRow (q := q) hwf hb (hdata ▸ hi)
      rw [List.getElem?_eq_getElem hi, Option.some_inj] at hrow
      exact hrow ▸ hpoints _ hmem
    have hK := hsearch s.treeData q (min k s.treeKeys.length) (by omega) hrows hq
    have hcount : searchCount (if decide ((s.treeKeys.length : Int) < k) = true
        then Value.int s.treeKeys.length else Value.int k) = .ok (min k s.treeKeys.length) := by
      by_cases h : s.treeKeys.length < k
      · simp [h, searchCount]; omega
      · simp [h, searchCount]; omega
    have hcheck : ((s.treeData.any fun x => x.length != q.length) || !finitePoint q) = false := by
      simp only [hq, Bool.not_true, Bool.or_false, List.any_eq_false, bne_iff_ne, ne_eq,
        Decidable.not_not]
      exact fun p hp => (hrows p hp).1
    unfold treeCandidatesWith
    simp only [hb, Value.lessThan_int, Bool.not_true, Bool.false_eq_true, if_false, bind, Except.bind,
      hcount, hcheck, hK.length_eq, Nat.sub_self, List.range_zero, List.map_nil, List.append_nil]
    -- every row answered is the live candidate at its position
    have hcand : ∀ f ∈ search s.treeData q (min k s.treeKeys.length), ∃ key,
        s.treeKeys[f.2]? = some key ∧
          (candidatesFrom 0 (s.treeKeys.zip s.treeData) q)[f.2]? = some (f.1, f.2, key) := by
      intro f hf
      obtain ⟨key, row, hkey, hrow, hA, hmem⟩ :=
        exists_treeRow (q := q) hwf hb (hdata ▸ hK.row_lt f hf)
      have hdist : f.1 = Nearest.euclidean row q := by
        have h := hagree (key, row) hmem
        dsimp only at h
        rw [hK.dist_eq f hf, List.getD_eq_getElem?_getD, hrow, Option.getD_some, ← h]
      refine ⟨key, hkey, ?_⟩
      rw [hdist]
      exact hA
    have hnn : ∀ c ∈ candidatesFrom 0 (s.treeKeys.zip s.treeData) q, NonNeg c.1 :=
      nonNeg_of_mem_candidatesFrom (fun e he => (hpoints e (List.mem_append_left _ he)).2) hq
    refine ⟨_, mapM_eq_ok_filterMap _
      (fun f => (candidatesFrom 0 (s.treeKeys.zip s.treeData) q)[f.2]?) _ fun f hf => ?_, ?_⟩
    · obtain ⟨key, hkey, hA⟩ := hcand f hf
      exact ⟨_, hA, by simp [hkey]⟩
    · have hAlen : (candidatesFrom 0 (s.treeKeys.zip s.treeData) q).length = s.treeKeys.length := by
        simp [candidatesFrom, hwf.length_zip]
      refine nearestOf_filterMap ?_ hnn ?_ hK.nodup (by rw [hK.length_eq, hAlen]) ?_
      · intro i c hc
        rw [getElem?_candidatesFrom] at hc
        obtain ⟨e, -, rfl⟩ := Option.map_eq_some_iff.1 hc
        simp [liveCandidate]
      · intro f hf
        obtain ⟨key, -, hA⟩ := hcand f hf
        exact ⟨_, hA, rfl⟩
      · intro f hf i hi hnot
        obtain ⟨key, row, -, hrow, hA, hmem⟩ := exists_treeRow (q := q) hwf hb (hAlen ▸ hi)
        have h := hK.nearest f hf i (hdata ▸ hAlen ▸ hi) hnot
        have hdist := hagree (key, row) hmem
        dsimp only at h hdist
        rw [List.getElem?_eq_getElem hi, Option.some_inj] at hA
        rw [List.getElem?_eq_getElem (hdata ▸ hAlen ▸ hi), Option.some_inj] at hrow
        rw [hA]
        rw [hrow, hdist] at h
        exact h

/-- **A query on an index answers the brute-force `k` nearest live entries**, the built part
    searched by a sound search, when both distances agree on the live points and the `k`
    nearest are well defined. -/
theorem nearestWith_eq_bruteNearest {k : Nat} (hk : 0 < k) (hsep : Separated s.entries q k) :
    s.nearestWith search q (.int k) = .ok (bruteNearest s.entries q k) := by
  have hfin : ∀ e ∈ s.entries, finitePoint e.2 := fun e he => (hpoints e he).2
  obtain ⟨C, hC, hnear⟩ := treeCandidatesWith_spec hsearch hwf hq hpoints hagree k
  have htail := tailCandidates_eq s fun e he => (hpoints e (List.mem_append_right _ he)).1
  -- the live candidates: those of the built part, then those of the tail
  have hsplit : candidatesFrom 0 s.entries q = candidatesFrom 0 (s.treeKeys.zip s.treeData) q ++
      candidatesFrom s.treeKeys.length s.tail q := by
    rw [entries, candidatesFrom_append, Nat.zero_add, hwf.length_zip]
  unfold nearestWith
  rw [answersNothing_pos s hk]
  by_cases hsize : s.size = 0
  · -- an empty index answers nothing
    have hempty : s.entries = [] :=
      List.eq_nil_of_length_eq_zero (by rw [← size_eq_length_entries hwf]; exact hsize)
    simp [hsize, bruteNearest, hempty, candidatesFrom]
    rfl
  · have hsz : (s.size == 0) = false := by simpa using hsize
    have hkeep : keepCount (.int (k : Int)) = .ok k := by simp [keepCount]
    simp only [hsz, hC, htail, hkeep, bind, Except.bind, Bool.false_eq_true, if_false, pure,
      Except.pure, bruteNearest]
    congr 2
    -- the candidates found are live candidates, so their distances are not NaN
    have hnnL : ∀ c ∈ candidatesFrom 0 s.entries q, NonNeg c.1 :=
      nonNeg_of_mem_candidatesFrom hfin hq
    have hnn : ∀ c ∈ C ++ candidatesFrom s.treeKeys.length s.tail q, NonNeg c.1 := by
      intro c hc
      refine hnnL c ?_
      rw [hsplit]
      rcases List.mem_append.1 hc with h | h
      · exact List.mem_append_left _ (hnear.subset c h)
      · exact List.mem_append_right _ h
    obtain ⟨hperm, hsorted⟩ := Sorting.sortBy_of_agree candidateKey candidateBefore _
      fun a ha b hb => candidateBefore_eq (hnn a ha) (hnn b hb)
    -- and no two of them share a position
    have hkeys : ((C ++ candidatesFrom s.treeKeys.length s.tail q).map candidateKey).Nodup := by
      obtain ⟨l, hlC, hlA⟩ := List.subperm_of_subset hnear.nodup hnear.subset
      have hAT := nodup_map_candidateKey 0 s.entries q
      rw [hsplit] at hAT
      exact ((hlC.append_right _).map _).nodup_iff.1 (hAT.sublist ((hlA.append_right _).map _))
    exact Selection.take_sorted_selection candidateKey (fun c => rank c.1)
      (fun a b => rank_le_of_candidateKey_le) (bruteSorted_sorted hfin hq)
      (hsplit ▸ List.mergeSort_perm _ _) hnear (rank_lt_of_separated hfin hq hsep)
      (Selection.sorted_lt_of_sorted_le candidateKey hsorted ((hperm.map _).nodup_iff.2 hkeys))
      hperm

end Tree

/-! ## A sound search -/

/-- The rows of a built part as candidates: distance by the built part's sum, row, no key. -/
def rowCandidates (data : List (List Float)) (q : List Float) : List (Candidate Unit) :=
  data.zipIdx.map fun e => (Nearest.treeDistance e.1 q, e.2, ())

/-- A search by brute force: every row by distance and then row, the first `count`. -/
def bruteSearch : TreeSearch := fun data q count =>
  (((rowCandidates data q).mergeSort candidateLE).take count).map fun c => (c.1, c.2.1)

theorem mem_rowCandidates {data : List (List Float)} {q : List Float} {c : Candidate Unit} :
    c ∈ rowCandidates data q ↔
      ∃ i, ∃ hi : i < data.length, c = (Nearest.treeDistance data[i] q, i, ()) := by
  constructor
  · intro hc
    obtain ⟨⟨p, i⟩, he, rfl⟩ := List.mem_map.1 hc
    obtain ⟨hi, hp⟩ := List.mem_zipIdx' he
    exact ⟨i, hi, by rw [hp]⟩
  · rintro ⟨i, hi, rfl⟩
    exact List.mem_map.2 ⟨(data[i], i), List.mem_zipIdx_iff_getElem?.2 (by simp [hi]), rfl⟩

theorem map_position_rowCandidates (data : List (List Float)) (q : List Float) :
    (rowCandidates data q).map (·.2.1) = List.range data.length := by
  rw [rowCandidates, List.map_map]
  exact (List.zipIdx_map_snd 0 data).trans List.range_eq_range'.symm

/-- **The brute-force search is sound.** -/
theorem bruteSearch_sound : SoundSearch bruteSearch := by
  intro data q count hcount hrows hq
  have hfin : ∀ {p : List Float}, finitePoint p → ∀ x ∈ p, x.isFinite = true := by
    intro p hp
    simpa [finitePoint, List.all_eq_true] using hp
  have hnn : ∀ c ∈ rowCandidates data q, NonNeg c.1 := by
    intro c hc
    obtain ⟨i, hi, rfl⟩ := mem_rowCandidates.1 hc
    exact Nearest.treeDistance_nonNeg (hfin (hrows _ (List.getElem_mem hi)).2) (hfin hq)
  have hperm := List.mergeSort_perm (rowCandidates data q) candidateLE
  have hpos : ((rowCandidates data q).mergeSort candidateLE).map (·.2.1) |>.Nodup :=
    (hperm.map _).nodup_iff.2 (map_position_rowCandidates data q ▸ List.nodup_range)
  have hsorted := Selection.sorted_lt_of_sorted_le candidateKey
    (Sorting.mergeSort_of_agree candidateKey candidateLE _
      fun a ha b hb => candidateLE_eq (hnn a ha) (hnn b hb))
    (List.Nodup.of_map (fun k => (ofLex k).2) (by rw [List.map_map]; exact hpos))
  have hlen : ((rowCandidates data q).mergeSort candidateLE).length = data.length := by
    simp [rowCandidates]
  refine ⟨?_, ?_, ?_, ?_, ?_⟩
  · simp [bruteSearch, hlen, hcount]
  · rw [bruteSearch, List.map_map, List.map_take]
    exact (List.take_sublist _ _).nodup hpos
  · intro f hf
    obtain ⟨c, hc, rfl⟩ := List.mem_map.1 hf
    obtain ⟨i, hi, rfl⟩ := mem_rowCandidates.1 (hperm.mem_iff.1 (List.mem_of_mem_take hc))
    exact hi
  · intro f hf
    obtain ⟨c, hc, rfl⟩ := List.mem_map.1 hf
    obtain ⟨i, hi, rfl⟩ := mem_rowCandidates.1 (hperm.mem_iff.1 (List.mem_of_mem_take hc))
    simp [List.getD_eq_getElem?_getD, hi]
  · intro f hf i hi hnot
    simp only [bruteSearch] at hf hnot
    obtain ⟨c, hc, rfl⟩ := List.mem_map.1 hf
    obtain ⟨j, hj, rfl⟩ := List.mem_take_iff_getElem.1 hc
    have he : ((Nearest.treeDistance data[i] q, i, ()) : Candidate Unit) ∈
        (rowCandidates data q).mergeSort candidateLE :=
      hperm.mem_iff.2 (mem_rowCandidates.2 ⟨i, hi, rfl⟩)
    obtain ⟨m, hm, hme⟩ := List.getElem_of_mem he
    -- the row left out comes after every row answered
    have hcm : count ≤ m := by
      by_contra h
      refine hnot (List.mem_map.2 ⟨_, List.mem_map.2 ⟨_, List.mem_take_iff_getElem.2
        ⟨m, by omega, hme⟩, rfl⟩, rfl⟩)
    have hrank := rank_le_of_candidateKey_le
      (le_of_lt (List.pairwise_iff_getElem.1 hsorted j m (by omega) hm (by omega)))
    rw [hme] at hrank
    have hnnj := hnn _ (hperm.mem_iff.1 (List.getElem_mem (show j < _ by omega)))
    have hnni := hnn _ (hperm.mem_iff.1 he)
    dsimp only at hrank hnni ⊢
    rw [lt_iff_rank_lt hnni.isNaN_eq_false hnnj.isNaN_eq_false]
    exact not_lt.2 hrank

/-! ## Runs of operations -/

/-- **After any run of insertions, rebuilds and clears, an index answers as brute force**: its
    size is the number of live entries, and a query for the `k` nearest of a finite point
    answers the first `k` live entries by distance and then position, each key with its
    distance, however the tail was buffered and merged. The built part is searched by a sound
    search (one answering the `k` nearest rows by its own distance), and the two ways of
    summing a squared distance must agree on the live points. -/
theorem nearestWith_eq_bruteNearest_of_run {search : TreeSearch} (hsearch : SoundSearch search)
    {ops : List (IndexOp α)} {dim threshold : Value} {s : SpatialIndex α}
    (hrun : runOps ops (empty dim threshold) = some s) {q : List Float} (hq : finitePoint q)
    (hpoints : ∀ e ∈ liveOf ops, e.2.length = q.length ∧ finitePoint e.2)
    (hagree : ∀ e ∈ liveOf ops, Nearest.treeDistance e.2 q = Nearest.euclidean e.2 q)
    {k : Nat} (hk : 0 < k) (hsep : Separated (liveOf ops) q k) :
    s.size = (liveOf ops).length ∧
      s.nearestWith search q (.int k) = .ok (bruteNearest (liveOf ops) q k) := by
  obtain ⟨hwf, hentries⟩ := runOps_empty hrun
  rw [← hentries] at hpoints hagree hsep ⊢
  exact ⟨size_eq_length_entries hwf,
    nearestWith_eq_bruteNearest hsearch hwf hq hpoints hagree hk hsep⟩

/-- Three insertions with a threshold of one (the second merges the tail into the built part, the
    third stays in the tail): the two nearest of the origin, by the brute-force search. -/
theorem nearestWith_three_points :
    ∃ s : SpatialIndex Nat,
      runOps [.insert 0 [1.0, 0.0, 0.0], .insert 1 [0.0, 2.0, 0.0], .insert 2 [0.0, 0.0, 3.0]]
        (empty (.int 3) (.int 1)) = some s ∧
      s.size = 3 ∧ s.nearestWith bruteSearch [0.0, 0.0, 0.0] (.int 2) = .ok [(0, 1.0), (1, 2.0)] := by
  obtain ⟨s, hs⟩ := Option.isSome_iff_exists.1 (show (runOps
    ([.insert 0 [1.0, 0.0, 0.0], .insert 1 [0.0, 2.0, 0.0], .insert 2 [0.0, 0.0, 3.0]] :
      List (IndexOp Nat)) (empty (.int 3) (.int 1))).isSome by decide +kernel)
  -- the distances 1, 2, 3 are sorted already, so no merge sort has to run
  have hsep : Separated (liveOf ([.insert 0 [1.0, 0.0, 0.0], .insert 1 [0.0, 2.0, 0.0],
      .insert 2 [0.0, 0.0, 3.0]] : List (IndexOp Nat))) [0.0, 0.0, 0.0] 2 := by
    refine Or.inr ?_
    rw [sortedDistances, List.mergeSort_of_pairwise (by decide +kernel)]
    decide +kernel
  obtain ⟨hsize, hnear⟩ := nearestWith_eq_bruteNearest_of_run bruteSearch_sound hs
    (by decide) (by decide +kernel) (by decide +kernel) (by decide) hsep
  refine ⟨s, hs, hsize.trans (by decide +kernel), hnear.trans (congrArg Except.ok ?_)⟩
  rw [bruteNearest, List.mergeSort_of_pairwise (by decide +kernel)]
  decide +kernel

/-- With eight coordinates the two sums part: a point in the built part and the same point in
    the tail get distances a last bit apart, so the tail's copy, inserted later, is answered
    first, where brute force answers the earlier entry first (with the search of the index, and
    the `k` nearest well defined since there are only two entries). -/
theorem nearest_eight_coordinates_out_of_order :
    ∃ s : SpatialIndex Nat,
      runOps [.rebuild [(0, [0.2, 2.9, 0.0, 0.2, 0.7, 2.9, 2.9, 0.3])],
        .insert 1 [0.2, 2.9, 0.0, 0.2, 0.7, 2.9, 2.9, 0.3]] (empty (.int 8) (.int 32)) = some s ∧
      Separated (liveOf [.rebuild [(0, [0.2, 2.9, 0.0, 0.2, 0.7, 2.9, 2.9, 0.3])],
        .insert 1 [0.2, 2.9, 0.0, 0.2, 0.7, 2.9, 2.9, 0.3]]) [0.0, 0.0, 0.0, 0.0, 0.0, 0.0, 0.0, 0.0] 2 ∧
      (s.nearest [0.0, 0.0, 0.0, 0.0, 0.0, 0.0, 0.0, 0.0] (.int 2)).toOption =
        some [(1, 5.08822169328342), (0, 5.088221693283421)] ∧
      bruteNearest (liveOf [.rebuild [(0, [0.2, 2.9, 0.0, 0.2, 0.7, 2.9, 2.9, 0.3])],
        .insert 1 [0.2, 2.9, 0.0, 0.2, 0.7, 2.9, 2.9, 0.3]]) [0.0, 0.0, 0.0, 0.0, 0.0, 0.0, 0.0, 0.0] 2 =
        [(0, 5.08822169328342), (1, 5.08822169328342)] := by
  obtain ⟨s, hs⟩ := Option.isSome_iff_exists.1 (show (runOps
    ([.rebuild [(0, [0.2, 2.9, 0.0, 0.2, 0.7, 2.9, 2.9, 0.3])],
        .insert 1 [0.2, 2.9, 0.0, 0.2, 0.7, 2.9, 2.9, 0.3]] : List (IndexOp Nat))
        (empty (.int 8) (.int 32))).isSome by decide +kernel)
  -- the query is run on the index the operations leave, read through `Option.map`
  have hnear : (runOps ([.rebuild [(0, [0.2, 2.9, 0.0, 0.2, 0.7, 2.9, 2.9, 0.3])],
        .insert 1 [0.2, 2.9, 0.0, 0.2, 0.7, 2.9, 2.9, 0.3]] : List (IndexOp Nat))
        (empty (.int 8) (.int 32))).map
      (fun s => (s.nearest [0.0, 0.0, 0.0, 0.0, 0.0, 0.0, 0.0, 0.0] (.int 2)).toOption) =
      some (some [(1, 5.08822169328342), (0, 5.088221693283421)]) := by decide +kernel
  rw [hs, Option.map_some, Option.some_inj] at hnear
  refine ⟨s, hs, Or.inl (by decide +kernel), hnear, ?_⟩
  rw [bruteNearest, List.mergeSort_of_pairwise (by decide +kernel)]
  decide +kernel

end SpatialIndex

end Exploration
