import Mathlib
import Exploration.Proofs.IndexQuery
import Exploration.Proofs.Sorting

/-!
# Each key answered once

A search of the index answers entries, never one twice. The bounded heap of the built part's
search only moves, pushes and drops items, so the rows it answers are distinct rows of the built
part (`Nearest.scan_positions`). The tail's candidates stand at the rows after it, and sorting the
candidates loses and adds none (`Sorting.sortBy_perm`). On an index whose keys are distinct, the
entries a search answers therefore have distinct keys, each a key of the index
(`SpatialIndex.nearest_keys`). The viewpoint tree reads its neighbours this way, and it is why a
new viewpoint is never connected twice to one node.
-/

namespace Exploration.Nearest

theorem siftUp_perm (h : Array HeapItem) (i : Nat) : (siftUp h i).toList.Perm h.toList := by
  fun_induction siftUp h i with
  | case1 h => exact List.Perm.refl _
  | case2 h i hi p hlt ih => exact ih.trans (by simp)
  | case3 h i hi p hge => exact List.Perm.refl _

theorem siftDown_perm (h : Array HeapItem) (i : Nat) : (siftDown h i).toList.Perm h.toList := by
  fun_induction siftDown h i with
  | case1 h i j k hl hc ih => exact ih.trans (by simp)
  | case2 => exact List.Perm.refl _
  | case3 => exact List.Perm.refl _

/-- Pushing an item adds it and keeps the others. -/
theorem push_perm (h : Array HeapItem) (x : HeapItem) : (push h x).toList.Perm (x :: h.toList) :=
  (siftUp_perm _ _).trans (by simp)

/-- The last item put first in place of the first leaves the other items. -/
theorem dropLast_set_getLast_perm : ∀ (l : List HeapItem) (hl : l ≠ []),
    (l.dropLast.set 0 (l.getLast hl)).Perm l.tail
  | [a], _ => by simp
  | a :: b :: t, _ => by
    rw [List.dropLast_cons_cons, List.set_cons_zero, List.getLast_cons (List.cons_ne_nil b t),
      List.tail_cons]
    -- the last item moves from the end to the front
    exact (List.perm_append_singleton _ _).symm.trans (by rw [List.dropLast_append_getLast])

/-- Removing the root leaves the items after the first. -/
theorem removeRoot_perm (h : Array HeapItem) : (removeRoot h).toList.Perm h.toList.tail := by
  unfold removeRoot
  cases hb : h.back? with
  | none =>
    rw [Array.back?_eq_none_iff] at hb
    simp [hb]
  | some last =>
    have hne : h.toList ≠ [] := by
      intro hnil
      rw [← Array.getLast?_toList, hnil] at hb
      cases hb
    have hlast : last = h.toList.getLast hne := by
      rw [← Array.getLast?_toList, List.getLast?_eq_some_getLast hne] at hb
      exact (Option.some.inj hb).symm
    refine (siftDown_perm _ _).trans ?_
    rw [Array.toList_setIfInBounds, Array.toList_pop, hlast]
    exact dropLast_set_getLast_perm _ hne

/-- Draining takes items of the heap, each once. -/
theorem drain_subperm (h : Array HeapItem) (fuel : Nat) (out : List HeapItem) :
    (drain h fuel out).Subperm (h.toList ++ out) := by
  induction fuel generalizing h out with
  | zero => exact (List.sublist_append_right _ _).subperm
  | succ fuel ih =>
    unfold drain
    cases htop : h[0]? with
    | none => exact (List.sublist_append_right _ _).subperm
    | some top =>
      -- the root is the first item of the heap, and the rest is what removing it leaves
      have hcons : h.toList = top :: h.toList.tail := by
        rw [← Array.getElem?_toList] at htop
        cases hl : h.toList with
        | nil => rw [hl] at htop; cases htop
        | cons a t => rw [hl] at htop; cases htop; rfl
      refine (ih _ _).trans ?_
      rw [hcons]
      exact (((removeRoot_perm h).append_right _).trans List.perm_middle).subperm

/-- A step of a scan that keeps its heap or puts the item in, the negated distance first,
with some of the items it had. -/
def KeepsOrPushes (step : Array HeapItem × Float → Float × Nat → Array HeapItem × Float) :
    Prop :=
  ∀ st item, (step st item).1.toList.Subperm ((-item.1, item.2) :: st.1.toList)

/-- Over items at distinct positions, a scan whose steps keep or push holds items at positions
it started with or was given, each once. -/
theorem foldl_positions {step : Array HeapItem × Float → Float × Nat → Array HeapItem × Float}
    (hstep : KeepsOrPushes step) :
    ∀ (items : List (Float × Nat)) (st : Array HeapItem × Float),
      (st.1.toList.map (·.2) ++ items.map (·.2)).Nodup →
      ((items.foldl step st).1.toList.map (·.2)).Subperm
        (st.1.toList.map (·.2) ++ items.map (·.2))
  | [], st, _ => by
    rw [List.foldl_nil, List.map_nil, List.append_nil]
  | item :: items, st, hnd => by
    have hone : ((step st item).1.toList.map (·.2)).Subperm (item.2 :: st.1.toList.map (·.2)) := by
      obtain ⟨l, hp, hs⟩ := hstep st item
      exact ⟨l.map (·.2), hp.map _, by simpa using hs.map (fun x : HeapItem => x.2)⟩
    -- the item's position moves to the front of the positions still to come
    have hmid : ((step st item).1.toList.map (·.2) ++ items.map (·.2)).Subperm
        (st.1.toList.map (·.2) ++ (item :: items).map (·.2)) :=
      ((List.subperm_append_right _).2 hone).trans (by simpa using List.perm_middle.symm.subperm)
    have hnd' : ((step st item).1.toList.map (·.2) ++ items.map (·.2)).Nodup := by
      obtain ⟨l, hp, hs⟩ := hmid
      exact hp.nodup_iff.1 (hs.nodup hnd)
    exact (foldl_positions hstep items _ hnd').trans hmid

/-- The scan's step keeps its heap or puts the item in, the root leaving first when full. -/
theorem scanStep_keepsOrPushes (k : Nat) : KeepsOrPushes (scanStep k) := by
  rintro ⟨h, bound⟩ ⟨d, i⟩
  have hfst : (scanStep k (h, bound) (d, i)).1 =
      if d < bound then push (if h.size = k then removeRoot h else h) (-d, i) else h := by
    simp only [scanStep]
    split_ifs <;> rfl
  rw [hfst]
  split_ifs with hlt hfull
  · -- a full heap loses its root before the item enters
    exact ((push_perm _ _).trans ((removeRoot_perm h).cons _)).subperm.trans
      ((List.tail_sublist _).cons_cons _).subperm
  · exact (push_perm _ _).subperm
  · exact (List.sublist_cons_self _ _).subperm

/-- **The scan keeps each point once**: the positions it answers are distinct positions of the
list. -/
theorem scan_positions (squared : List Float) (k : Nat) :
    ((scan squared k).map (·.2)).Subperm (List.range squared.length) := by
  unfold scan
  split
  · exact List.nil_subperm
  · split
    rename_i h bound hfold
    have hpos : (squared.zipIdx.map (·.2)) = List.range squared.length := by
      rw [List.zipIdx_map_snd, List.range_eq_range']
    have hheap := foldl_positions (scanStep_keepsOrPushes k) squared.zipIdx (#[], (1.0 : Float) / 0.0)
      (by simpa [hpos] using List.nodup_range)
    rw [hfold] at hheap
    simp only [List.map_map, Function.comp_def]
    obtain ⟨l, hp, hs⟩ := drain_subperm h h.size []
    refine List.Subperm.trans ⟨l.map (·.2), ?_, ?_⟩ (by simpa [hpos] using hheap)
    · simpa [Function.comp_def] using hp.map (fun x : HeapItem => x.2)
    · simpa using hs.map (fun x : HeapItem => x.2)

end Exploration.Nearest

namespace Exploration

namespace SpatialIndex

variable {α : Type} {s : SpatialIndex α} {q : List Float}

/-- The keys of an index: those of the built part, then those of the tail. -/
theorem entries_keys (hwf : s.Wf) : s.entries.map (·.1) = s.treeKeys ++ s.tail.map (·.1) := by
  rw [entries, List.map_append]
  congr 1
  cases hb : s.built
  · rw [hwf.treeKeys_eq_nil hb]
    rfl
  · exact List.map_fst_zip (le_of_eq (hwf.length_treeData hb))

/-- The rows the tree search answers are distinct rows of the built part. -/
theorem treeSearch_positions (data : List (List Float)) (count : Nat) :
    ((treeSearch data q count).map (·.2)).Subperm (List.range data.length) := by
  unfold treeSearch
  simpa [List.map_map, Function.comp_def] using
    Nearest.scan_positions (data.map (Nearest.blockDistance · q)) count

/-- The candidates of the built part stand at distinct rows, each with the key of its row. -/
theorem treeCandidatesWith_keys {search : TreeSearch}
    (hsearch : ∀ data q count, ((search data q count).map (·.2)).Subperm (List.range data.length))
    (hwf : s.Wf) {k : Value} {cs : List (Candidate α)} (h : s.treeCandidatesWith search q k = .ok cs) :
    (cs.map (·.2.1)).Subperm (List.range s.treeKeys.length) ∧
      ∀ c ∈ cs, s.treeKeys[c.2.1]? = some c.2.2 := by
  unfold treeCandidatesWith at h
  cases hb : s.built
  · simp only [hb, Bool.not_false, if_true, pure, Except.pure, Except.ok.injEq] at h
    subst h
    simp
  · simp only [hb, Bool.not_true, Bool.false_eq_true, if_false] at h
    obtain ⟨lt, -, h⟩ := bind_eq_ok.1 h
    obtain ⟨count, -, h⟩ := bind_eq_ok.1 h
    split at h
    · cases h
    · -- each candidate's row is looked up among the keys
      have hkey : ∀ c ∈ cs, s.treeKeys[c.2.1]? = some c.2.2 := by
        intro c hc
        obtain ⟨⟨d, i⟩, -, hf⟩ := exists_of_mapM_ok h c hc
        simp only at hf
        split at hf
        · rename_i key hk
          cases hf
          exact hk
        · cases hf
      have hrows : cs.map (·.2.1) = (search s.treeData q count ++ (List.range
          (count - (search s.treeData q count).length)).map fun _ =>
            ((1.0 : Float) / 0.0, s.treeData.length)).map (·.2) :=
        mapM_ok_map (fun x y hxy => by
          obtain ⟨d, i⟩ := x
          simp only at hxy
          split at hxy
          · cases hxy
            rfl
          · cases hxy) h
      have hlt : ∀ p ∈ cs.map (·.2.1), p < s.treeKeys.length := by
        intro p hp
        obtain ⟨c, hc, rfl⟩ := List.mem_map.1 hp
        exact (List.getElem?_eq_some_iff.1 (hkey c hc)).1
      -- no row is missing: a missing row stands past the keys, where no key is found
      have hmiss : count - (search s.treeData q count).length = 0 := by
        by_contra hne
        have hmem : s.treeData.length ∈ cs.map (·.2.1) := by
          rw [hrows]
          simp only [List.map_append, List.map_map, List.mem_append, List.mem_map, List.mem_range,
            Function.comp_def]
          exact .inr ⟨0, by omega, trivial⟩
        have := hlt _ hmem
        rw [hwf.length_treeData hb] at this
        omega
      refine ⟨?_, hkey⟩
      rw [hrows, hmiss, List.range_zero, List.map_nil, List.append_nil, hwf.length_treeData hb]
      exact hsearch _ _ _

/-- The tail's candidates stand at the rows after the built part, in order, each with the key of
its entry. -/
theorem tailCandidates_keys {cs : List (Candidate α)} (h : s.tailCandidates q = .ok cs) :
    cs.map (·.2) = s.tail.zipIdx.map fun e => (s.treeKeys.length + e.2, e.1.1) := by
  unfold tailCandidates at h
  split at h
  · rename_i htail
    rw [pure_eq_ok] at h
    simp [← h, htail]
  · split at h
    · cases h
    · refine mapM_ok_map (fun x y hxy => ?_) h
      obtain ⟨⟨key, p⟩, j⟩ := x
      obtain ⟨diff, -, hxy⟩ := bind_eq_ok.1 hxy
      cases hxy
      rfl

/-- **A search answers each key once**: on an index whose keys are distinct, the entries a search
answers have distinct keys, each a key of the index. -/
theorem nearestWith_keys {search : TreeSearch}
    (hsearch : ∀ data q count, ((search data q count).map (·.2)).Subperm (List.range data.length))
    (hwf : s.Wf) (hkeys : (s.entries.map (·.1)).Nodup) {k : Value} {found : List (α × Float)}
    (h : s.nearestWith search q k = .ok found) :
    (found.map (·.1)).Nodup ∧ ∀ x ∈ found, x.1 ∈ s.entries.map (·.1) := by
  unfold nearestWith at h
  obtain ⟨nothing, -, h⟩ := bind_eq_ok.1 h
  cases nothing with
  | true =>
    rw [if_pos rfl, pure_eq_ok] at h
    subst h
    simp
  | false =>
    rw [if_neg Bool.false_ne_true] at h
    obtain ⟨fromTree, htree, h⟩ := bind_eq_ok.1 h
    obtain ⟨fromTail, htail, h⟩ := bind_eq_ok.1 h
    obtain ⟨keep, -, h⟩ := bind_eq_ok.1 h
    rw [pure_eq_ok] at h
    subst h
    have hK : s.entries.map (·.1) = s.treeKeys ++ s.tail.map (·.1) := entries_keys hwf
    rw [hK] at hkeys ⊢
    obtain ⟨hrowsT, hkeyT⟩ := treeCandidatesWith_keys hsearch hwf htree
    have hrowsL := tailCandidates_keys htail
    -- every candidate stands at the place of its key among the keys
    have hat : ∀ c ∈ fromTree ++ fromTail,
        (s.treeKeys ++ s.tail.map (·.1))[c.2.1]? = some c.2.2 := by
      intro c hc
      rcases List.mem_append.1 hc with hc | hc
      · have hlt := (List.getElem?_eq_some_iff.1 (hkeyT c hc)).1
        rw [List.getElem?_append_left hlt]
        exact hkeyT c hc
      · have hc' : c.2 ∈ fromTail.map (·.2) := List.mem_map_of_mem hc
        rw [hrowsL] at hc'
        obtain ⟨⟨⟨key, p⟩, j⟩, he, hcj⟩ := List.mem_map.1 hc'
        obtain ⟨hj, hget⟩ := List.mem_zipIdx' he
        rw [← hcj, List.getElem?_append_right (by omega), Nat.add_sub_cancel_left,
          List.getElem?_map, List.getElem?_eq_getElem hj, ← hget]
        rfl
    -- the candidates stand at distinct places: the built part's rows, then the tail's
    have hrows : ((fromTree ++ fromTail).map (·.2.1)).Nodup := by
      have hT : (fromTree.map (·.2.1)).Nodup := by
        obtain ⟨l, hp, hs⟩ := hrowsT
        exact hp.nodup_iff.1 (hs.nodup List.nodup_range)
      have hL : fromTail.map (·.2.1) = (List.range s.tail.length).map (s.treeKeys.length + ·) := by
        have := congrArg (List.map (·.1)) hrowsL
        simp only [List.map_map, Function.comp_def] at this
        rw [this, show (fun x : (α × List Float) × Nat => s.treeKeys.length + x.2) =
          (s.treeKeys.length + ·) ∘ Prod.snd from rfl, ← List.map_map, List.zipIdx_map_snd,
          ← List.range_eq_range']
      rw [List.map_append, List.nodup_append, hL]
      refine ⟨hT, (List.nodup_range).map fun a b h => by omega, ?_⟩
      intro a ha b hb hab
      obtain ⟨j, -, rfl⟩ := List.mem_map.1 hb
      have := (List.Subperm.subset hrowsT) ha
      simp only [List.mem_range] at this
      omega
    -- so their keys are distinct
    have hkeysC : ((fromTree ++ fromTail).map (·.2.2)).Nodup := by
      refine List.Nodup.map_on (fun c hc c' hc' heq => ?_) (List.Nodup.of_map _ hrows)
      have h₁ := hat c hc
      have h₂ := hat c' hc'
      rw [heq] at h₁
      obtain ⟨hi, hci⟩ := List.getElem?_eq_some_iff.1 h₁
      obtain ⟨hj, hcj⟩ := List.getElem?_eq_some_iff.1 h₂
      exact List.inj_on_of_nodup_map hrows hc hc' ((hkeys.getElem_inj_iff).1 (hci.trans hcj.symm))
    have hperm := (Sorting.sortBy_perm candidateBefore (fromTree ++ fromTail)).map (·.2.2)
    -- the answer is the first `keep` sorted candidates, each read as its key and distance
    rw [List.map_map]
    refine ⟨?_, fun x hx => ?_⟩
    · show ((Sorting.sortBy candidateBefore (fromTree ++ fromTail)).take keep |>.map (·.2.2)).Nodup
      rw [List.map_take]
      exact (List.take_sublist _ _).nodup (hperm.nodup_iff.2 hkeysC)
    · -- a key answered is a candidate's key, and a candidate's key stands among the keys
      obtain ⟨c, hc, rfl⟩ := List.mem_map.1 hx
      show c.2.2 ∈ _
      obtain ⟨c', hc', hcc⟩ :=
        List.mem_map.1 (hperm.subset (List.mem_map_of_mem (List.mem_of_mem_take hc)))
      rw [← hcc]
      exact List.mem_of_getElem? (hat c' hc')

/-- **The index answers each key once**: on an index whose keys are distinct, the entries a
nearest-neighbour query answers have distinct keys, each a key of the index. -/
theorem nearest_keys (hwf : s.Wf) (hkeys : (s.entries.map (·.1)).Nodup) {k : Value}
    {found : List (α × Float)} (h : s.nearest q k = .ok found) :
    (found.map (·.1)).Nodup ∧ ∀ x ∈ found, x.1 ∈ s.entries.map (·.1) :=
  nearestWith_keys (fun data q count => treeSearch_positions (q := q) data count) hwf hkeys h

end SpatialIndex

end Exploration
