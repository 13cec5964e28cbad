import Mathlib
import Exploration.Sorting
import Exploration.Proofs.Loops

/-!
# Sorting by a key order

`Sorting.sortBy lt` takes a run from the front of the list and inserts every later item by
binary search. When `lt` compares keys of a linear order, it sorts:

* `sortBy_key`: the result is a permutation of the list, in order of keys;
* `sortBy_of_agree`: the same holds when `lt` is the key order only on the list's own items,
  as a comparison of doubles is on doubles that are not NaN;
* `sortBy_map`: sorting commutes with maps, which carries the first to the second;
* `sortBy_perm`: whatever the comparison, the result is a permutation of the list.

`mergeSort_of_agree` is the second for the library's merge sort, which the specifications use.
A comparison that may fail, as one of ids of any kind does, gives a permutation of the list when
the sort succeeds (`sortByM_ok_perm`). When it answers as a pure comparison on the list's items, it
sorts as that one does (`sortByM_agree`), and so sorts by a key order that it is on the list's
items (`sortByM_of_agree`).

The proofs follow the procedure: the front run is in order (`frontRun_spec`), the binary search
keeps its two invariants (`insertPosition_spec`), and each insertion keeps the sorted part
sorted (`insertSorted_spec`).
-/

namespace Exploration.Sorting

/-- A comparison `lt` in the identity monad, as `sortBy` passes it. -/
abbrev idLt {δ : Type} (lt : δ → δ → Bool) : δ → δ → Id Bool := fun a b => pure (lt a b)

/-! ## Sorting by a key -/

section Key
variable {α β : Type} [LinearOrder β] (key : α → β)

/-- The comparison `lt` of keys, in the identity monad. -/
abbrev keyLt : α → α → Id Bool := idLt fun a b => decide (key a < key b)

theorem descendingLength_cons (prev x : α) (xs : List α) :
    (descendingLength (keyLt key) prev (x :: xs)).run =
      if key x < key prev then 1 + (descendingLength (keyLt key) x xs).run else 0 := by
  simp [descendingLength, keyLt]
  split <;> rfl

theorem ascendingLength_cons (prev x : α) (xs : List α) :
    (ascendingLength (keyLt key) prev (x :: xs)).run =
      if key x < key prev then 0 else 1 + (ascendingLength (keyLt key) x xs).run := by
  simp [ascendingLength, keyLt]
  split <;> rfl

/-- The items a descending run takes after `prev` are strictly descending from `prev`. -/
theorem descendingLength_spec (prev : α) (xs : List α) :
    (descendingLength (keyLt key) prev xs).run ≤ xs.length ∧
      (prev :: xs.take (descendingLength (keyLt key) prev xs).run).Pairwise
        (fun a b => key b < key a) := by
  induction xs generalizing prev with
  | nil => simp [descendingLength]
  | cons x xs ih =>
    rw [descendingLength_cons]
    split
    · rename_i h
      obtain ⟨h1, h2⟩ := ih x
      refine ⟨by simp; omega, ?_⟩
      rw [Nat.add_comm, List.take_succ_cons, List.pairwise_cons]
      refine ⟨fun y hy => ?_, h2⟩
      rcases List.mem_cons.1 hy with rfl | hy
      · exact h
      · exact lt_trans (List.rel_of_pairwise_cons h2 hy) h
    · simp

/-- The items an ascending run takes after `prev` never descend from `prev`. -/
theorem ascendingLength_spec (prev : α) (xs : List α) :
    (ascendingLength (keyLt key) prev xs).run ≤ xs.length ∧
      (prev :: xs.take (ascendingLength (keyLt key) prev xs).run).Pairwise
        (fun a b => key a ≤ key b) := by
  induction xs generalizing prev with
  | nil => simp [ascendingLength]
  | cons x xs ih =>
    rw [ascendingLength_cons]
    split
    · simp
    · rename_i h
      obtain ⟨h1, h2⟩ := ih x
      refine ⟨by simp; omega, ?_⟩
      rw [Nat.add_comm, List.take_succ_cons, List.pairwise_cons]
      refine ⟨fun y hy => ?_, h2⟩
      rcases List.mem_cons.1 hy with rfl | hy
      · exact not_lt.1 h
      · exact le_trans (not_lt.1 h) (List.rel_of_pairwise_cons h2 hy)

/-- The front run of a list: the two parts together are the list, and the run is in order. -/
theorem frontRun_spec (xs : List α) :
    ((frontRun (keyLt key) xs).run.1 ++ (frontRun (keyLt key) xs).run.2).Perm xs ∧
      (frontRun (keyLt key) xs).run.1.Pairwise (fun a b => key a ≤ key b) := by
  match xs with
  | [] => simp [frontRun]
  | [a] => simp [frontRun]
  | a :: b :: rest =>
    by_cases hba : key b < key a
    · -- a strictly descending run, reversed
      have hrun : (frontRun (keyLt key) (a :: b :: rest)).run =
          (((a :: b :: rest).take (2 + (descendingLength (keyLt key) b rest).run)).reverse,
            (a :: b :: rest).drop (2 + (descendingLength (keyLt key) b rest).run)) := by
        simp [frontRun, keyLt, hba]
      rw [hrun]
      obtain ⟨-, hd⟩ := descendingLength_spec key b rest
      have hdesc : ((a :: b :: rest).take (2 + (descendingLength (keyLt key) b rest).run)).Pairwise
          (fun x y => key y < key x) := by
        rw [Nat.add_comm, List.take_succ_cons, List.take_succ_cons, List.pairwise_cons]
        refine ⟨fun y hy => ?_, hd⟩
        rcases List.mem_cons.1 hy with rfl | hy
        · exact hba
        · exact lt_trans (List.rel_of_pairwise_cons hd hy) hba
      refine ⟨?_, List.pairwise_reverse.2 (hdesc.imp le_of_lt)⟩
      exact ((List.reverse_perm _).append_right _).trans (by rw [List.take_append_drop])
    · -- a run that never descends, kept as it is
      have hrun : (frontRun (keyLt key) (a :: b :: rest)).run =
          ((a :: b :: rest).take (2 + (ascendingLength (keyLt key) b rest).run),
            (a :: b :: rest).drop (2 + (ascendingLength (keyLt key) b rest).run)) := by
        simp [frontRun, keyLt, hba]
      rw [hrun]
      obtain ⟨-, hd⟩ := ascendingLength_spec key b rest
      refine ⟨by rw [List.take_append_drop], ?_⟩
      rw [Nat.add_comm, List.take_succ_cons, List.take_succ_cons, List.pairwise_cons]
      refine ⟨fun y hy => ?_, hd⟩
      rcases List.mem_cons.1 hy with rfl | hy
      · exact not_lt.1 hba
      · exact le_trans (not_lt.1 hba) (List.rel_of_pairwise_cons hd hy)

/-- One halving step of the binary search, with the comparison read as keys. -/
theorem insertPosition_step (s : Array α) (pivot : α) (lo hi : Nat) :
    (insertPosition (keyLt key) s pivot lo hi).run =
      if lo < hi then
        if key pivot < key (s.getD ((lo + hi) / 2) pivot) then
          (insertPosition (keyLt key) s pivot lo ((lo + hi) / 2)).run
        else (insertPosition (keyLt key) s pivot ((lo + hi) / 2 + 1) hi).run
      else lo := by
  rw [insertPosition]
  by_cases hlt : lo < hi
  · simp only [hlt, if_true, keyLt]
    split <;> rename_i h <;> simp only [Array.getD_eq_getD_getElem?] at h <;> simp [h]
  · simp [hlt]

/-- **Binary search for the place of an item** in a sorted array: every item before the place
    does not come after the pivot, every item from the place on comes after it. The two facts
    are the loop's invariants, kept as the window `[lo, hi)` halves. -/
theorem insertPosition_spec (s : Array α) (hs : s.toList.Pairwise (fun a b => key a ≤ key b))
    (pivot : α) (lo hi : Nat) (hlh : lo ≤ hi) (hhi : hi ≤ s.size)
    (hbelow : ∀ j (hj : j < s.size), j < lo → key s[j] ≤ key pivot)
    (habove : ∀ j (hj : j < s.size), hi ≤ j → key pivot < key s[j]) :
    (insertPosition (keyLt key) s pivot lo hi).run ≤ s.size ∧
      (∀ j (hj : j < s.size), j < (insertPosition (keyLt key) s pivot lo hi).run →
        key s[j] ≤ key pivot) ∧
      (∀ j (hj : j < s.size), (insertPosition (keyLt key) s pivot lo hi).run ≤ j →
        key pivot < key s[j]) := by
  have hsorted : ∀ i j (hi : i < s.size) (hj : j < s.size), i ≤ j → key s[i] ≤ key s[j] := by
    intro i j hi hj hij
    rcases Nat.lt_or_eq_of_le hij with h | rfl
    · have := List.pairwise_iff_getElem.1 hs i j (by simpa using hi) (by simpa using hj) h
      simpa using this
    · exact le_refl _
  obtain ⟨n, hn⟩ : ∃ n, hi - lo = n := ⟨_, rfl⟩
  induction n using Nat.strongRecOn generalizing lo hi with
  | _ n ih =>
  rw [insertPosition_step]
  split_ifs with hlt hpiv
  · -- the pivot comes before the middle item: keep the lower half
    have hmid : (lo + hi) / 2 < s.size := by omega
    have hget : s.getD ((lo + hi) / 2) pivot = s[(lo + hi) / 2] := by simp [Array.getD, hmid]
    rw [hget] at hpiv
    refine ih ((lo + hi) / 2 - lo) (by omega) lo ((lo + hi) / 2) (by omega) (by omega) hbelow
      ?_ rfl
    intro j hj hmj
    exact lt_of_lt_of_le hpiv (hsorted _ _ hmid hj hmj)
  · -- the pivot does not come before the middle item: keep the upper half
    have hmid : (lo + hi) / 2 < s.size := by omega
    have hget : s.getD ((lo + hi) / 2) pivot = s[(lo + hi) / 2] := by simp [Array.getD, hmid]
    rw [hget] at hpiv
    refine ih (hi - ((lo + hi) / 2 + 1)) (by omega) ((lo + hi) / 2 + 1) hi (by omega) hhi ?_
      habove rfl
    intro j hj hjm
    exact le_trans (hsorted _ _ hj hmid (by omega)) (not_lt.1 hpiv)
  · -- an empty window: its place is the answer
    refine ⟨by omega, hbelow, fun j hj hlj => habove j hj (by omega)⟩

/-- Inserting at a place within the list puts the item between the two parts there. -/
theorem insertIdx_eq_take_append_drop (l : List α) (x : α) :
    ∀ i, i ≤ l.length → l.insertIdx i x = l.take i ++ x :: l.drop i := by
  induction l with
  | nil => intro i hi; simp at hi; subst hi; rfl
  | cons y l ih =>
    intro i hi
    cases i with
    | zero => rfl
    | succ i =>
      rw [List.insertIdx_succ_cons, ih i (by simpa using hi)]
      rfl

/-- Inserting at a place within an array adds exactly the item. -/
theorem insertIdxIfInBounds_perm (s : Array α) (x : α) {p : Nat} (hp : p ≤ s.size) :
    (s.insertIdxIfInBounds p x).toList.Perm (x :: s.toList) := by
  rw [Array.insertIdxIfInBounds, dif_pos hp, Array.toList_insertIdx,
    insertIdx_eq_take_append_drop _ _ _ (by simpa using hp)]
  exact List.perm_middle.trans (by rw [List.take_append_drop])

/-- **Inserting one item into a sorted array** at its binary-search place keeps it sorted and
    adds exactly that item. -/
theorem insertSorted_spec (s : Array α) (hs : s.toList.Pairwise (fun a b => key a ≤ key b))
    (pivot : α) :
    (insertSorted (keyLt key) s pivot).run.toList.Perm (pivot :: s.toList) ∧
      (insertSorted (keyLt key) s pivot).run.toList.Pairwise (fun a b => key a ≤ key b) := by
  obtain ⟨hle, hbelow, habove⟩ := insertPosition_spec key s hs pivot 0 s.size (by omega) (Nat.le_refl _)
    (fun j _ hj => absurd hj (by omega)) (fun j hj hsj => absurd hj (by omega))
  have hrun : (insertSorted (keyLt key) s pivot).run =
      s.insertIdxIfInBounds (insertPosition (keyLt key) s pivot 0 s.size).run pivot := rfl
  generalize (insertPosition (keyLt key) s pivot 0 s.size).run = p at hle hbelow habove hrun
  have hlist : (insertSorted (keyLt key) s pivot).run.toList =
      s.toList.take p ++ pivot :: s.toList.drop p := by
    rw [hrun, Array.insertIdxIfInBounds, dif_pos hle, Array.toList_insertIdx,
      insertIdx_eq_take_append_drop _ _ _ (by simpa using hle)]
  rw [hlist]
  refine ⟨List.perm_middle.trans (by rw [List.take_append_drop]), ?_⟩
  rw [List.pairwise_append, List.pairwise_cons]
  refine ⟨hs.sublist (List.take_sublist _ _), ⟨fun y hy => ?_, hs.sublist (List.drop_sublist _ _)⟩,
    fun a ha b hb => ?_⟩
  · obtain ⟨j, hj, rfl⟩ := List.mem_drop_iff_getElem.1 hy
    exact le_of_lt (habove (p + j) (by simp at hj; omega) (by omega))
  · obtain ⟨i, hi, rfl⟩ := List.mem_take_iff_getElem.1 ha
    have hia : key s.toList[i] ≤ key pivot := by
      simpa using hbelow i (by simp at hi; omega) (by omega)
    rcases List.mem_cons.1 hb with rfl | hb
    · exact hia
    · obtain ⟨j, hj, rfl⟩ := List.mem_drop_iff_getElem.1 hb
      exact le_trans hia (le_of_lt (by simpa using habove (p + j) (by simp at hj; omega) (by omega)))

/-- Inserting the later items one by one keeps the sorted part sorted and loses none. -/
theorem foldlM_insertSorted_spec (rest : List α) (s : Array α)
    (hs : s.toList.Pairwise (fun a b => key a ≤ key b)) :
    (rest.foldlM (insertSorted (keyLt key)) s).run.toList.Perm (s.toList ++ rest) ∧
      (rest.foldlM (insertSorted (keyLt key)) s).run.toList.Pairwise
        (fun a b => key a ≤ key b) := by
  induction rest generalizing s with
  | nil => exact ⟨by simp, hs⟩
  | cons x rest ih =>
    simp only [List.foldlM_cons, Id.run_bind]
    obtain ⟨hperm, hsorted⟩ := insertSorted_spec key s hs x
    obtain ⟨hperm', hsorted'⟩ := ih _ hsorted
    refine ⟨hperm'.trans ?_, hsorted'⟩
    exact (hperm.append_right rest).trans List.perm_middle.symm

/-- **Sorting by a key order**: the result is a permutation of the list, in order of keys. -/
theorem sortBy_key (xs : List α) :
    (sortBy (fun a b => decide (key a < key b)) xs).Perm xs ∧
      (sortBy (fun a b => decide (key a < key b)) xs).Pairwise (fun a b => key a ≤ key b) := by
  show (sortByM (keyLt key) xs).run.Perm xs ∧ (sortByM (keyLt key) xs).run.Pairwise _
  simp only [sortByM, Id.run_bind, Id.run_pure]
  obtain ⟨hperm, hsorted⟩ := frontRun_spec key xs
  generalize (frontRun (keyLt key) xs).run = r at hperm hsorted
  obtain ⟨run, rest⟩ := r
  obtain ⟨hperm', hsorted'⟩ := foldlM_insertSorted_spec key rest run.toArray (by simpa using hsorted)
  exact ⟨hperm'.trans (by simpa using hperm), hsorted'⟩

end Key

/-! ## Sorting by any comparison -/

section Any
variable {α : Type} (lt : α → α → Bool)

/-- The binary search answers a place of its window. -/
theorem insertPosition_le (s : Array α) (pivot : α) (lo hi : Nat) (h : lo ≤ hi) :
    (insertPosition (idLt lt) s pivot lo hi).run ≤ hi := by
  fun_induction insertPosition (idLt lt) s pivot lo hi with
  | case1 lo hi hlt mid ih₁ ih₂ =>
    cases hp : lt pivot (s.getD mid pivot)
    · simp only [idLt, hp, pure_bind, Bool.false_eq_true, if_false]
      exact ih₂ (by omega)
    · have := ih₁ (by omega)
      simp only [idLt, hp, pure_bind, if_true]
      omega
  | case2 lo hi hge => exact h

/-- Inserting one item by binary search adds exactly that item. -/
theorem insertSorted_perm (s : Array α) (pivot : α) :
    (insertSorted (idLt lt) s pivot).run.toList.Perm (pivot :: s.toList) :=
  insertIdxIfInBounds_perm s pivot (insertPosition_le lt s pivot 0 s.size (Nat.zero_le _))

/-- Inserting the later items one by one loses none and adds none. -/
theorem foldlM_insertSorted_perm (rest : List α) (s : Array α) :
    (rest.foldlM (insertSorted (idLt lt)) s).run.toList.Perm (s.toList ++ rest) := by
  induction rest generalizing s with
  | nil => simp
  | cons x rest ih =>
    simp only [List.foldlM_cons, Id.run_bind]
    exact (ih _).trans (((insertSorted_perm lt s x).append_right rest).trans
      List.perm_middle.symm)

/-- The front run and the items after it are the list's items. -/
theorem frontRun_perm (xs : List α) :
    ((frontRun (idLt lt) xs).run.1 ++ (frontRun (idLt lt) xs).run.2).Perm xs := by
  match xs with
  | [] => simp [frontRun]
  | [a] => simp [frontRun]
  | a :: b :: rest =>
    cases hba : lt b a
    · -- a run that never descends, kept as it is
      simp only [frontRun, idLt, hba, pure_bind, Bool.false_eq_true, if_false, Id.run_bind,
        Id.run_pure, List.take_append_drop]
      exact List.Perm.refl _
    · -- a descending run, reversed
      simp only [frontRun, idLt, hba, pure_bind, if_true, Id.run_bind, Id.run_pure]
      exact ((List.reverse_perm _).append_right _).trans (by rw [List.take_append_drop])

/-- **Sorting by any comparison** puts the list's items in some order: it loses and adds
none, whatever the comparison. -/
theorem sortBy_perm (xs : List α) : (sortBy lt xs).Perm xs := by
  show (sortByM (idLt lt) xs).run.Perm xs
  simp only [sortByM, Id.run_bind, Id.run_pure]
  have hperm := frontRun_perm lt xs
  generalize (frontRun (idLt lt) xs).run = r at hperm
  obtain ⟨run, rest⟩ := r
  exact (foldlM_insertSorted_perm lt rest run.toArray).trans (by simpa using hperm)

end Any

/-! ## Sorting commutes with maps -/

section Map
variable {α γ : Type} (f : α → γ) (lt : γ → γ → Bool)

/-- The comparison `lt` of images under `f`. -/
abbrev pullLt : α → α → Id Bool := idLt fun a b => lt (f a) (f b)

theorem descendingLength_map (prev : α) (xs : List α) :
    descendingLength (pullLt f lt) prev xs =
      descendingLength (idLt lt) (f prev) (xs.map f) := by
  induction xs generalizing prev with
  | nil => rfl
  | cons x xs ih => simp [descendingLength, ih]

theorem ascendingLength_map (prev : α) (xs : List α) :
    ascendingLength (pullLt f lt) prev xs =
      ascendingLength (idLt lt) (f prev) (xs.map f) := by
  induction xs generalizing prev with
  | nil => rfl
  | cons x xs ih => simp [ascendingLength, ih]

theorem frontRun_map (xs : List α) :
    Prod.map (List.map f) (List.map f) (frontRun (pullLt f lt) xs).run =
      (frontRun (idLt lt) (xs.map f)).run := by
  match xs with
  | [] => rfl
  | [a] => rfl
  | a :: b :: rest =>
    simp only [frontRun, List.map_cons]
    rw [descendingLength_map, ascendingLength_map]
    simp only [idLt, pure_bind]
    split <;> simp [List.map_take, List.map_drop, List.map_reverse]

theorem insertPosition_map (s : Array α) (pivot : α) (lo hi : Nat) :
    insertPosition (pullLt f lt) s pivot lo hi =
      insertPosition (idLt lt) (s.map f) (f pivot) lo hi := by
  fun_induction insertPosition (pullLt f lt) s pivot lo hi with
  | case1 lo hi hlt mid ih1 ih2 =>
    conv_rhs => rw [insertPosition, if_pos hlt]
    have hget : ∀ i, (s.map f).getD i (f pivot) = f (s.getD i pivot) := by
      simp [Array.getD_eq_getD_getElem?]
    simp only [idLt, pure_bind, hget, mid] at ih1 ih2 ⊢
    split <;> assumption
  | case2 lo hi hlt =>
    conv_rhs => rw [insertPosition, if_neg hlt]

theorem insertSorted_map (s : Array α) (pivot : α) :
    (insertSorted (pullLt f lt) s pivot).run.map f =
      (insertSorted (idLt lt) (s.map f) (f pivot)).run := by
  simp only [insertSorted, Id.run_bind, Id.run_pure]
  rw [insertPosition_map, Array.size_map]
  generalize (insertPosition (idLt lt) (s.map f) (f pivot) 0 s.size).run = p
  apply Array.ext'
  by_cases hp : p ≤ s.size
  · simp [Array.insertIdxIfInBounds, hp, List.map_insertIdx]
  · simp [Array.insertIdxIfInBounds, hp]

theorem foldlM_insertSorted_map (rest : List α) (s : Array α) :
    (rest.foldlM (insertSorted (pullLt f lt)) s).run.map f =
      ((rest.map f).foldlM (insertSorted (idLt lt)) (s.map f)).run := by
  induction rest generalizing s with
  | nil => rfl
  | cons x rest ih =>
    simp only [List.foldlM_cons, List.map_cons, Id.run_bind]
    rw [← insertSorted_map]
    exact ih _

/-- **Sorting commutes with maps**: sorting by a comparison of images and then mapping gives
    the sort of the mapped list. -/
theorem sortBy_map (xs : List α) :
    (sortBy (fun a b => lt (f a) (f b)) xs).map f = sortBy lt (xs.map f) := by
  simp only [sortBy, sortByM, Id.run_bind, Id.run_pure]
  rw [← frontRun_map f lt xs]
  generalize (frontRun (pullLt f lt) xs).run = r
  obtain ⟨run, rest⟩ := r
  simp only [Prod.map]
  rw [← List.map_toArray, ← foldlM_insertSorted_map, Array.toList_map]

end Map

/-- **Sorting by a comparison that is a key order on the list's items**: the result is a
    permutation of the list, in order of keys. The comparison may be anything elsewhere (the
    list is sorted as its members, where the two comparisons agree). -/
theorem sortBy_of_agree {α β : Type} [LinearOrder β] (key : α → β) (lt : α → α → Bool)
    (xs : List α) (hlt : ∀ a ∈ xs, ∀ b ∈ xs, lt a b = decide (key a < key b)) :
    (sortBy lt xs).Perm xs ∧ (sortBy lt xs).Pairwise (fun a b => key a ≤ key b) := by
  have hfun : (fun a b : {x // x ∈ xs} => lt a.1 b.1) = fun a b => decide (key a.1 < key b.1) := by
    funext a b
    exact hlt _ a.2 _ b.2
  have hmap := sortBy_map Subtype.val lt xs.attach
  rw [List.attach_map_subtype_val, hfun] at hmap
  obtain ⟨hperm, hsorted⟩ := sortBy_key (fun a : {x // x ∈ xs} => key a.1) xs.attach
  rw [← hmap]
  exact ⟨(hperm.map _).trans (by simp), List.pairwise_map.2 hsorted⟩

/-- **Merge sort by a comparison that is a key order on the list's items** puts the list in
    order of keys (the library's lemma asks for a comparison that is an order everywhere; the
    list is sorted as its members, where it is one). -/
theorem mergeSort_of_agree {α β : Type} [LinearOrder β] (key : α → β) (le : α → α → Bool)
    (xs : List α) (hle : ∀ a ∈ xs, ∀ b ∈ xs, le a b = decide (key a ≤ key b)) :
    (xs.mergeSort le).Pairwise (fun a b => key a ≤ key b) := by
  have hmap : (xs.attach.mergeSort fun a b => le a.1 b.1).map Subtype.val = xs.mergeSort le := by
    rw [List.map_mergeSort (s := le) (fun a _ b _ => rfl), List.attach_map_subtype_val]
  have hsorted : (xs.attach.mergeSort fun a b => le a.1 b.1).Pairwise
      (fun a b => le a.1 b.1 = true) := List.pairwise_mergeSort
    (fun a b c hab hbc => by
      rw [hle _ a.2 _ b.2, decide_eq_true_iff] at hab
      rw [hle _ b.2 _ c.2, decide_eq_true_iff] at hbc
      rw [hle _ a.2 _ c.2, decide_eq_true_iff]
      exact hab.trans hbc)
    (fun a b => by
      rw [hle _ a.2 _ b.2, hle _ b.2 _ a.2]
      rcases le_total (key a.1) (key b.1) with h | h <;> simp [h])
    xs.attach
  rw [← hmap, List.pairwise_map]
  exact hsorted.imp fun h => by rwa [hle _ (Subtype.property _) _ (Subtype.property _),
    decide_eq_true_iff] at h

/-! ## A sort by a comparison that may fail -/

section Failing

variable {α ε : Type} (lt : α → α → Except ε Bool)

/-- The front run and the items after it are the list's items, when the comparisons succeed. -/
theorem frontRun_ok_perm : ∀ {xs run rest : List α}, frontRun lt xs = .ok (run, rest) →
    (run ++ rest).Perm xs
  | [], run, rest, h => by
    rw [frontRun, pure_eq_ok, Prod.mk.injEq] at h
    rw [← h.1, ← h.2]
    exact List.Perm.refl _
  | [a], run, rest, h => by
    rw [frontRun, pure_eq_ok, Prod.mk.injEq] at h
    rw [← h.1, ← h.2]
    exact List.Perm.refl _
  | a :: b :: xs, run, rest, h => by
    rw [frontRun] at h
    obtain ⟨desc, -, h⟩ := bind_eq_ok.1 h
    cases desc with
    | true =>
      obtain ⟨n, -, h⟩ := bind_eq_ok.1 h
      rw [pure_eq_ok, Prod.mk.injEq] at h
      rw [← h.1, ← h.2]
      exact ((List.reverse_perm _).append_right _).trans (by rw [List.take_append_drop])
    | false =>
      obtain ⟨n, -, h⟩ := bind_eq_ok.1 h
      rw [pure_eq_ok, Prod.mk.injEq] at h
      rw [← h.1, ← h.2, List.take_append_drop]

/-- The binary search answers a place of its window, when its comparisons succeed. -/
theorem insertPosition_ok_le (s : Array α) (pivot : α) (lo hi : Nat) {p : Nat} (hle : lo ≤ hi)
    (h : insertPosition lt s pivot lo hi = .ok p) : p ≤ hi := by
  fun_induction insertPosition lt s pivot lo hi with
  | case1 lo hi hlt mid ih₁ ih₂ =>
    obtain ⟨b, -, h⟩ := bind_eq_ok.1 h
    cases b with
    | true => exact (ih₁ (by omega) h).trans (by omega)
    | false => exact ih₂ (by omega) h
  | case2 lo hi hge =>
    rw [pure_eq_ok] at h
    omega

/-- An insertion that succeeds adds exactly the pivot. -/
theorem insertSorted_ok_perm {s r : Array α} {pivot : α} (h : insertSorted lt s pivot = .ok r) :
    r.toList.Perm (pivot :: s.toList) := by
  rw [insertSorted] at h
  obtain ⟨p, hp, h⟩ := bind_eq_ok.1 h
  rw [pure_eq_ok] at h
  rw [← h]
  exact insertIdxIfInBounds_perm s pivot
    (insertPosition_ok_le lt s pivot 0 s.size (Nat.zero_le _) hp)

/-- Inserting the later items one by one, when every insertion succeeds, loses none and adds
none. -/
theorem foldlM_insertSorted_ok_perm : ∀ {rest : List α} {s r : Array α},
    rest.foldlM (insertSorted lt) s = .ok r → r.toList.Perm (s.toList ++ rest)
  | [], s, r, h => by
    rw [List.foldlM_nil, pure_eq_ok] at h
    rw [h, List.append_nil]
  | x :: rest, s, r, h => by
    rw [List.foldlM_cons] at h
    obtain ⟨s', hs', h⟩ := bind_eq_ok.1 h
    exact (foldlM_insertSorted_ok_perm h).trans
      (((insertSorted_ok_perm lt hs').append_right rest).trans List.perm_middle.symm)

/-- **A sort that succeeds** puts the list's items in some order: it loses and adds none,
whatever the comparison. -/
theorem sortByM_ok_perm {xs ys : List α} (h : sortByM lt xs = .ok ys) : ys.Perm xs := by
  rw [sortByM] at h
  obtain ⟨⟨run, rest⟩, hrun, h⟩ := bind_eq_ok.1 h
  obtain ⟨r, hr, h⟩ := bind_eq_ok.1 h
  rw [pure_eq_ok] at h
  rw [← h]
  exact (foldlM_insertSorted_ok_perm lt hr).trans (by simpa using frontRun_ok_perm lt hrun)

end Failing

/-! ## A comparison that answers purely on the list's items

The comparisons a sort makes are between items of the list: the pivot, the items of the run and
those already inserted. A comparison in any monad that answers `pure (f a b)` on such items then
sorts as `f` does. -/

section Agree

variable {α : Type} {m : Type → Type} [Monad m] [LawfulMonad m] (lt : α → α → m Bool)
  (f : α → α → Bool) (P : α → Prop) (hlt : ∀ a, P a → ∀ b, P b → lt a b = pure (f a b))
include hlt

theorem descendingLength_agree (prev : α) (xs : List α) (hxs : ∀ x ∈ prev :: xs, P x) :
    descendingLength lt prev xs = pure (descendingLength (idLt f) prev xs).run := by
  induction xs generalizing prev with
  | nil => rfl
  | cons x xs ih =>
    have hx : P x := hxs x (by simp)
    rw [descendingLength, descendingLength, hlt x hx prev (hxs prev (by simp)),
      ih x fun y hy => hxs y (List.mem_cons_of_mem _ hy)]
    cases hc : f x prev <;> simp [idLt, hc]

theorem ascendingLength_agree (prev : α) (xs : List α) (hxs : ∀ x ∈ prev :: xs, P x) :
    ascendingLength lt prev xs = pure (ascendingLength (idLt f) prev xs).run := by
  induction xs generalizing prev with
  | nil => rfl
  | cons x xs ih =>
    have hx : P x := hxs x (by simp)
    rw [ascendingLength, ascendingLength, hlt x hx prev (hxs prev (by simp)),
      ih x fun y hy => hxs y (List.mem_cons_of_mem _ hy)]
    cases hc : f x prev <;> simp [idLt, hc]

theorem frontRun_agree (xs : List α) (hxs : ∀ x ∈ xs, P x) :
    frontRun lt xs = pure (frontRun (idLt f) xs).run := by
  match xs with
  | [] => rfl
  | [a] => rfl
  | a :: b :: rest =>
    have hrest : ∀ x ∈ b :: rest, P x := fun x hx => hxs x (List.mem_cons_of_mem _ hx)
    rw [frontRun, frontRun, hlt b (hxs b (by simp)) a (hxs a (by simp)),
      descendingLength_agree lt f P hlt b rest hrest, ascendingLength_agree lt f P hlt b rest hrest]
    cases hc : f b a <;> simp [idLt, hc]

theorem insertPosition_agree (s : Array α) (pivot : α) (hs : ∀ x ∈ s.toList, P x) (hp : P pivot)
    (lo hi : Nat) :
    insertPosition lt s pivot lo hi = pure (insertPosition (idLt f) s pivot lo hi).run := by
  fun_induction insertPosition lt s pivot lo hi with
  | case1 lo hi hlt' mid ih₁ ih₂ =>
    have hmid : P (s.getD mid pivot) := by
      rw [Array.getD_eq_getD_getElem?]
      cases hget : s[mid]? with
      | none => exact hp
      | some y => exact hs y (Array.mem_toList_iff.2 (Array.mem_of_getElem? hget))
    conv_rhs => rw [insertPosition, if_pos hlt']
    rw [hlt pivot hp _ hmid, pure_bind]
    simp only [idLt, pure_bind, mid] at ih₁ ih₂ ⊢
    cases f pivot (s.getD ((lo + hi) / 2) pivot)
    · exact ih₂
    · exact ih₁
  | case2 lo hi hge =>
    conv_rhs => rw [insertPosition, if_neg hge]
    rfl

theorem insertSorted_agree (s : Array α) (pivot : α) (hs : ∀ x ∈ s.toList, P x) (hp : P pivot) :
    insertSorted lt s pivot = pure (insertSorted (idLt f) s pivot).run := by
  rw [insertSorted, insertSorted, insertPosition_agree lt f P hlt s pivot hs hp, pure_bind]
  rfl

theorem foldlM_insertSorted_agree (rest : List α) (s : Array α) (hs : ∀ x ∈ s.toList, P x)
    (hrest : ∀ x ∈ rest, P x) :
    rest.foldlM (insertSorted lt) s = pure (rest.foldlM (insertSorted (idLt f)) s).run := by
  induction rest generalizing s with
  | nil => rfl
  | cons x rest ih =>
    have hx := hrest x (List.mem_cons_self ..)
    -- the items of the sorted part stay items with `P`
    have hs' : ∀ y ∈ (insertSorted (idLt f) s x).run.toList, P y := fun y hy => by
      rcases List.mem_cons.1 ((insertSorted_perm f s x).subset hy) with rfl | hy
      · exact hx
      · exact hs y hy
    rw [List.foldlM_cons, List.foldlM_cons, insertSorted_agree lt f P hlt s x hs hx, pure_bind,
      ih _ hs' fun y hy => hrest y (List.mem_cons_of_mem _ hy)]
    rfl

/-- **A comparison that answers as a pure one on the list's items** sorts as that one. -/
theorem sortByM_agree (xs : List α) (hxs : ∀ x ∈ xs, P x) :
    sortByM lt xs = pure (sortBy f xs) := by
  have hperm := frontRun_perm f xs
  rw [sortByM, frontRun_agree lt f P hlt xs hxs, pure_bind, sortBy, sortByM, Id.run_bind]
  generalize (frontRun (idLt f) xs).run = r at hperm
  obtain ⟨run, rest⟩ := r
  have hin : ∀ y ∈ run ++ rest, P y := fun y hy => hxs y (hperm.subset hy)
  dsimp only
  rw [foldlM_insertSorted_agree lt f P hlt rest run.toArray
    (fun y hy => hin y (List.mem_append_left _ (by simpa using hy)))
    (fun y hy => hin y (List.mem_append_right _ hy)), pure_bind]
  rfl

end Agree

/-- **A comparison that may fail, but is a key order on the list's items**, sorts: the sort
succeeds with a permutation of the list in order of keys. -/
theorem sortByM_of_agree {α β ε : Type} [LinearOrder β] (key : α → β) (lt : α → α → Except ε Bool)
    (xs : List α) (hlt : ∀ a ∈ xs, ∀ b ∈ xs, lt a b = .ok (decide (key a < key b))) :
    ∃ ys, sortByM lt xs = .ok ys ∧ ys.Perm xs ∧ ys.Pairwise (fun a b => key a ≤ key b) :=
  ⟨_, sortByM_agree lt (fun a b => decide (key a < key b)) (· ∈ xs) hlt xs fun _ h => h,
    sortBy_key key xs⟩

end Exploration.Sorting
