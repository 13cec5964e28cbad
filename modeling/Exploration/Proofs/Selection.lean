import Mathlib

/-!
# The first items of a sorted selection

A k-nearest query that searches two parts of a point set apart takes the `k` nearest of the
first part, all of the second, sorts what it has and keeps the first `k`. It answers the first
`k` of the whole set, sorted, as soon as the `k` nearest are well defined (the `k`-th distance
strictly below the next one, when there is a next one): `take_sorted_selection`.

The items are sorted strictly by a key (distance, then a position that tells items apart), and
the key's order refines the order of distances (`hmono`). The argument:

* a sorted list of some of the items is a sublist of the sorted list of all of them
  (`sublist_of_subset`), so the two agree on their first `k` items as soon as the selection
  holds the first `k` of the whole (`take_eq_take_of_sublist`);
* an item among the first `k` of the whole that the first part's search left out would make
  `k + 1` items no farther than the `k`-th, one more than there is room for before the
  `(k+1)`-th (`mem_selection_of_mem_take`).
-/

namespace Exploration

namespace Selection

variable {γ K D : Type} [LinearOrder K] [LinearOrder D]

/-- A sublist of a list without repeats starts as the list does, for as long as the list's
    first items are in it. -/
theorem take_eq_take_of_sublist {R S : List γ} (hsub : R.Sublist S) (hS : S.Nodup) :
    ∀ k, (∀ x ∈ S.take k, x ∈ R) → R.take k = S.take k := by
  induction hsub with
  | slnil => intro k _; rfl
  | cons x hsub ih =>
    -- `x` is left out of the sublist, so it cannot be among the first items
    intro k hk
    cases k with
    | zero => rfl
    | succ k => exact absurd (hsub.subset (hk x (by simp))) (List.nodup_cons.1 hS).1
  | cons_cons x hsub ih =>
    intro k hk
    cases k with
    | zero => rfl
    | succ k =>
      rw [List.take_succ_cons, List.take_succ_cons, ih (List.nodup_cons.1 hS).2 k ?_]
      intro y hy
      rcases List.mem_cons.1 (hk y (by simp [hy])) with rfl | h
      · exact absurd (List.mem_of_mem_take hy) (List.nodup_cons.1 hS).1
      · exact h

variable (key : γ → K)

theorem nodup_of_sorted {S : List γ} (hS : S.Pairwise (fun a b => key a < key b)) : S.Nodup :=
  hS.imp fun h heq => by subst heq; exact lt_irrefl _ h

theorem key_le_of_sorted {S : List γ} (hS : S.Pairwise (fun a b => key a < key b)) {i j : Nat}
    (hij : i ≤ j) (hi : i < S.length) (hj : j < S.length) : key S[i] ≤ key S[j] := by
  rcases Nat.lt_or_eq_of_le hij with h | rfl
  · exact le_of_lt (List.pairwise_iff_getElem.1 hS i j hi hj h)
  · exact le_refl _

/-- A list in order of keys, no two of them equal, is in strict order of keys. -/
theorem sorted_lt_of_sorted_le {S : List γ} (hS : S.Pairwise (fun a b => key a ≤ key b))
    (hkeys : (S.map key).Nodup) : S.Pairwise (fun a b => key a < key b) :=
  (hS.and (List.pairwise_map.1 hkeys)).imp fun h => lt_of_le_of_ne h.1 h.2

/-- A list sorted strictly by a key, whose items are distinct items of another such list, is a
    sublist of it. -/
theorem sublist_of_subset {R S : List γ} (hR : R.Pairwise (fun a b => key a < key b))
    (hS : S.Pairwise (fun a b => key a < key b)) (hRS : ∀ x ∈ R, x ∈ S) : R.Sublist S := by
  obtain ⟨l, hperm, hsub⟩ := List.subperm_of_subset (nodup_of_sorted key hR) hRS
  have hl : l = R := hperm.eq_of_pairwise (fun a b _ _ hab hba => absurd (hab.trans hba)
    (lt_irrefl _)) (hS.sublist hsub) hR
  exact hl ▸ hsub

variable (dist : γ → D)

/-- `C` is a choice of the `k` nearest items of `A` by `dist`: `min k |A|` distinct items of
    `A`, none farther than an item of `A` it leaves out. -/
structure NearestOf (A : List γ) (k : Nat) (C : List γ) : Prop where
  nodup : C.Nodup
  subset : ∀ c ∈ C, c ∈ A
  length_eq : C.length = min k A.length
  near : ∀ c ∈ C, ∀ a ∈ A, a ∉ C → dist c ≤ dist a

/-- **The search of the first part misses none of the `k` first of the whole.** `C` holds
    the `k` nearest items of `A`; when the `k`-th item of the whole is strictly nearer than
    the next one, every item of `A` among the first `k` of the whole is in `C`. -/
theorem mem_selection_of_mem_take {S A T C : List γ} {k : Nat}
    (hmono : ∀ a b, key a ≤ key b → dist a ≤ dist b)
    (hS : S.Pairwise (fun a b => key a < key b)) (hsplit : S.Perm (A ++ T))
    (hC : NearestOf dist A k C)
    (hsep : ∀ a b, S[k - 1]? = some a → S[k]? = some b → dist a < dist b)
    {x : γ} (hx : x ∈ S.take k) (hxA : x ∈ A) : x ∈ C := by
  by_contra hxC
  rcases Nat.lt_or_ge k A.length with hkA | hAk
  · -- `k` items of the first part, all no farther than `x`
    have hlenC : C.length = k := by rw [hC.length_eq]; omega
    have hkS : k < S.length := by rw [hsplit.length_eq, List.length_append]; omega
    obtain ⟨j, hj, rfl⟩ := List.mem_take_iff_getElem.1 hx
    have hjk : j < k := by omega
    have hsepk : dist S[k - 1] < dist S[k] :=
      hsep _ _ (List.getElem?_eq_getElem (by omega)) (List.getElem?_eq_getElem hkS)
    have hxle : dist S[j] ≤ dist S[k - 1] := hmono _ _ (key_le_of_sorted key hS (by omega) _ _)
    have hCtake : ∀ c ∈ C, c ∈ S.take k := by
      intro c hc
      obtain ⟨m, hm, rfl⟩ := List.getElem_of_mem
        (hsplit.mem_iff.2 (List.mem_append_left _ (hC.subset c hc)))
      refine List.mem_take_iff_getElem.2 ⟨m, ?_, rfl⟩
      by_contra hmk
      -- an item at or after the `(k+1)`-th is at least as far as it
      have hkm : dist S[k] ≤ dist S[m] := hmono _ _ (key_le_of_sorted key hS (by omega) hkS hm)
      have hmx : dist S[m] ≤ dist S[j] := hC.near _ hc _ hxA hxC
      exact absurd (lt_of_lt_of_le hsepk (hkm.trans (hmx.trans hxle))) (lt_irrefl _)
    have hsub : (S[j] :: C).Subperm (S.take k) := by
      refine List.subperm_of_subset (List.nodup_cons.2 ⟨hxC, hC.nodup⟩) ?_
      intro y hy
      rcases List.mem_cons.1 hy with rfl | hy
      · exact hx
      · exact hCtake y hy
    have := hsub.length_le
    simp only [List.length_cons, List.length_take] at this
    omega
  · -- the search answered the whole first part
    have hperm : C.Perm A :=
      (List.subperm_of_subset hC.nodup hC.subset).perm_of_length_le (by rw [hC.length_eq]; omega)
    exact hxC (hperm.mem_iff.2 hxA)

/-- **The first `k` of a sorted selection are the first `k` of the whole** (see the module
    comment): the selection holds the items `C` the search of the first part `A` answers and
    all of the second part `T`. -/
theorem take_sorted_selection {S A T C R : List γ} {k : Nat}
    (hmono : ∀ a b, key a ≤ key b → dist a ≤ dist b)
    (hS : S.Pairwise (fun a b => key a < key b)) (hsplit : S.Perm (A ++ T))
    (hC : NearestOf dist A k C)
    (hsep : ∀ a b, S[k - 1]? = some a → S[k]? = some b → dist a < dist b)
    (hR : R.Pairwise (fun a b => key a < key b)) (hRC : R.Perm (C ++ T)) :
    R.take k = S.take k := by
  have hRS : ∀ x ∈ R, x ∈ S := by
    intro x hx
    refine hsplit.mem_iff.2 ?_
    rcases List.mem_append.1 (hRC.mem_iff.1 hx) with h | h
    · exact List.mem_append_left _ (hC.subset x h)
    · exact List.mem_append_right _ h
  refine take_eq_take_of_sublist (sublist_of_subset key hR hS hRS) (nodup_of_sorted key hS) k ?_
  intro x hx
  rw [hRC.mem_iff, List.mem_append]
  rcases List.mem_append.1 (hsplit.mem_iff.1 (List.mem_of_mem_take hx)) with hxA | hxT
  · exact Or.inl (mem_selection_of_mem_take key dist hmono hS hsplit hC hsep hx hxA)
  · exact Or.inr hxT

end Selection

end Exploration
