import Mathlib

/-!
# Loops that may fail

Much of the search over the federation of submaps is written as loops and traversals in
`Except`: a `for` over a list carrying a state, `filterM`, `mapM`. When such a computation
succeeds, what it returns is made only by steps that succeeded. This module says that once: as
an invariant of a loop (`forIn_ok_of_preserves`) and as membership facts of the traversals
(`mem_of_filterM_ok`, `exists_of_mapM_ok`, `mapM_ok_map`), so that proofs about the search never unfold a loop.
How much such a computation returns is bounded the same way: a `mapM` gives one result per item
(`length_of_mapM_ok`), a `filterM` keeps a sublist (`sublist_of_filterM_ok`), and a loop whose
steps each add a bounded amount adds at most their sum (`forIn_ok_measure_le`).
-/

namespace Exploration

variable {ε α β : Type}

/-- A bind succeeds exactly when its first computation does and the rest does on its result. -/
theorem bind_eq_ok {x : Except ε α} {f : α → Except ε β} {b : β} :
    x >>= f = .ok b ↔ ∃ a, x = .ok a ∧ f a = .ok b := by
  cases x <;> simp [bind, Except.bind]

theorem pure_eq_ok {a b : α} : (pure a : Except ε α) = .ok b ↔ a = b := by
  simp [pure, Except.pure]

theorem eq_ok_of_toOption {x : Except ε α} {a : α} (h : x.toOption = some a) : x = .ok a := by
  cases x with
  | ok b => exact congrArg Except.ok (Option.some.inj h)
  | error e => cases h

/-- A computation whose result, seen through `f`, is `b` succeeds with a value that `f` sends to
`b`. With `f` into a type of decidable equality, this turns a fact computed by `decide` into a
fact about the successful run. -/
theorem exists_ok_of_toOption_map {f : α → β} {x : Except ε α} {b : β}
    (h : x.toOption.map f = some b) : ∃ a, x = .ok a ∧ f a = b := by
  obtain ⟨a, ha, hfa⟩ := Option.map_eq_some_iff.1 h
  exact ⟨a, eq_ok_of_toOption ha, hfa⟩

/-- A loop whose every step keeps `P` (whether it goes on or stops) ends, when it succeeds, in a
state with `P`. -/
theorem forIn_ok_of_preserves (P : β → Prop) {xs : List α} {f : α → β → Except ε (ForInStep β)}
    (hstep : ∀ x ∈ xs, ∀ b r, P b → f x b = .ok r → P r.value) :
    ∀ {b b' : β}, P b → forIn xs b f = .ok b' → P b' := by
  induction xs with
  | nil =>
    intro b b' hb h
    rw [List.forIn_nil, pure_eq_ok] at h
    exact h ▸ hb
  | cons x xs ih =>
    intro b b' hb h
    rw [List.forIn_cons] at h
    obtain ⟨r, hr, hrest⟩ := bind_eq_ok.1 h
    have hr' : P r.value := hstep x (List.mem_cons_self ..) b r hb hr
    cases r with
    | done c =>
      rw [pure_eq_ok] at hrest
      exact hrest ▸ hr'
    | yield c => exact ih (fun y hy => hstep y (List.mem_cons_of_mem _ hy)) hr' hrest

/-- A loop keeps an invariant that reads the items still to come: each step takes it from the
items from the current one on to the items after it, whether the loop goes on or stops. -/
theorem forIn_ok_of_rest (I : List α → β → Prop) {f : α → β → Except ε (ForInStep β)}
    (hstep : ∀ x rest b r, I (x :: rest) b → f x b = .ok r → I rest r.value) :
    ∀ {xs : List α} {b b' : β}, I xs b → forIn xs b f = .ok b' → ∃ rest, I rest b'
  | [], b, b', hb, h => by
    rw [List.forIn_nil, pure_eq_ok] at h
    exact ⟨[], h ▸ hb⟩
  | x :: xs, b, b', hb, h => by
    rw [List.forIn_cons] at h
    obtain ⟨r, hr, hrest⟩ := bind_eq_ok.1 h
    have hr' := hstep x xs b r hb hr
    cases r with
    | done c =>
      rw [pure_eq_ok] at hrest
      exact ⟨xs, hrest ▸ hr'⟩
    | yield c => exact forIn_ok_of_rest I hstep hr' hrest

/-- A loop that pushes the image of each item appends the images. -/
theorem forIn_push_ok {γ : Type} (g : α → γ) {f : α → Array γ → Except ε (ForInStep (Array γ))}
    (hf : ∀ x acc, f x acc = .ok (.yield (acc.push (g x)))) :
    ∀ (xs : List α) (acc : Array γ), forIn xs acc f = .ok (acc ++ (xs.map g).toArray)
  | [], acc => by simp [pure, Except.pure]
  | x :: xs, acc => by
    rw [List.forIn_cons, hf x acc]
    simp only [bind, Except.bind]
    rw [forIn_push_ok g hf xs]
    simp

theorem mem_of_filterAuxM_ok {p : α → Except ε Bool} :
    ∀ {xs acc r : List α}, List.filterAuxM p xs acc = .ok r →
      ∀ y ∈ r, y ∈ acc ∨ (y ∈ xs ∧ p y = .ok true)
  | [], acc, r, h => by
    rw [List.filterAuxM, pure_eq_ok] at h
    intro y hy
    exact .inl (h ▸ hy)
  | x :: xs, acc, r, h => by
    rw [List.filterAuxM] at h
    obtain ⟨keep, hkeep, hrest⟩ := bind_eq_ok.1 h
    intro y hy
    rcases mem_of_filterAuxM_ok hrest y hy with hacc | ⟨hxs, hpy⟩
    · cases keep with
      | false => exact .inl hacc
      | true =>
        rcases List.mem_cons.1 hacc with rfl | hacc
        · exact .inr ⟨List.mem_cons_self .., hkeep⟩
        · exact .inl hacc
    · exact .inr ⟨List.mem_cons_of_mem _ hxs, hpy⟩

/-- What a successful `filterM` keeps is an item of the list that the test accepted. -/
theorem mem_of_filterM_ok {p : α → Except ε Bool} {xs ys : List α}
    (h : xs.filterM p = .ok ys) : ∀ y ∈ ys, y ∈ xs ∧ p y = .ok true := by
  rw [List.filterM] at h
  obtain ⟨r, hr, hys⟩ := bind_eq_ok.1 h
  rw [pure_eq_ok] at hys
  intro y hy
  rw [← hys, List.mem_reverse] at hy
  rcases mem_of_filterAuxM_ok hr y hy with hnil | hkept
  · exact absurd hnil List.not_mem_nil
  · exact hkept

/-- Every result of a successful `mapM` is the result of the step on an item of the list. -/
theorem exists_of_mapM_ok {f : α → Except ε β} :
    ∀ {xs : List α} {ys : List β}, xs.mapM f = .ok ys → ∀ y ∈ ys, ∃ x ∈ xs, f x = .ok y
  | [], ys, h => by
    rw [List.mapM_nil, pure_eq_ok] at h
    intro y hy
    exact absurd (h ▸ hy) List.not_mem_nil
  | x :: xs, ys, h => by
    rw [List.mapM_cons] at h
    obtain ⟨z, hz, h⟩ := bind_eq_ok.1 h
    obtain ⟨zs, hzs, h⟩ := bind_eq_ok.1 h
    rw [pure_eq_ok] at h
    intro y hy
    rw [← h] at hy
    rcases List.mem_cons.1 hy with rfl | hy
    · exact ⟨x, List.mem_cons_self .., hz⟩
    · obtain ⟨w, hw, hfw⟩ := exists_of_mapM_ok hzs y hy
      exact ⟨w, List.mem_cons_of_mem _ hw, hfw⟩

/-- A traversal that succeeds answers, item for item, what `g` reads off each result when `g`
reads `g'` off each item. -/
theorem mapM_ok_map {γ δ : Type} {f : α → Except ε γ} {g : γ → δ} {g' : α → δ}
    (hfg : ∀ x y, f x = .ok y → g y = g' x) :
    ∀ {xs : List α} {ys : List γ}, xs.mapM f = .ok ys → ys.map g = xs.map g'
  | [], ys, h => by
    rw [List.mapM_nil, pure_eq_ok] at h
    rw [← h]
    rfl
  | x :: xs, ys, h => by
    rw [List.mapM_cons] at h
    obtain ⟨y, hy, h⟩ := bind_eq_ok.1 h
    obtain ⟨ys', hys, h⟩ := bind_eq_ok.1 h
    rw [pure_eq_ok] at h
    rw [← h, List.map_cons, List.map_cons, hfg x y hy, mapM_ok_map hfg hys]

/-- A traversal that succeeds gives one result for each item. -/
theorem length_of_mapM_ok {f : α → Except ε β} {xs : List α} {ys : List β}
    (h : xs.mapM f = .ok ys) : ys.length = xs.length := by
  have hshape : ys.map (fun _ => ()) = xs.map (fun _ => ()) := mapM_ok_map (fun _ _ _ => rfl) h
  simpa using congrArg List.length hshape

/-- What a successful `filterAuxM` adds to its accumulator is a sublist of the list, reversed. -/
theorem sublist_of_filterAuxM_ok {p : α → Except ε Bool} :
    ∀ {xs acc r : List α}, List.filterAuxM p xs acc = .ok r →
      ∃ kept : List α, kept.Sublist xs ∧ r = kept.reverse ++ acc
  | [], acc, r, h => by
    rw [List.filterAuxM, pure_eq_ok] at h
    exact ⟨[], List.Sublist.slnil, by rw [← h]; rfl⟩
  | x :: xs, acc, r, h => by
    rw [List.filterAuxM] at h
    obtain ⟨keep, -, hrest⟩ := bind_eq_ok.1 h
    cases keep with
    | false =>
      obtain ⟨kept, hsub, rfl⟩ := sublist_of_filterAuxM_ok hrest
      exact ⟨kept, hsub.cons x, rfl⟩
    | true =>
      obtain ⟨kept, hsub, rfl⟩ := sublist_of_filterAuxM_ok hrest
      exact ⟨x :: kept, hsub.cons_cons x, by simp⟩

/-- What a successful `filterM` keeps is a sublist of the list. -/
theorem sublist_of_filterM_ok {p : α → Except ε Bool} {xs ys : List α}
    (h : xs.filterM p = .ok ys) : ys.Sublist xs := by
  rw [List.filterM] at h
  obtain ⟨r, hr, hys⟩ := bind_eq_ok.1 h
  rw [pure_eq_ok] at hys
  obtain ⟨kept, hsub, rfl⟩ := sublist_of_filterAuxM_ok hr
  rw [← hys, List.append_nil, List.reverse_reverse]
  exact hsub

/-- A loop whose every step raises a measure of its state by at most `g` of its item ends, when
it succeeds, at most the sum of `g` over the items above where it started. -/
theorem forIn_ok_measure_le (μ : β → Nat) (g : α → Nat) {f : α → β → Except ε (ForInStep β)} :
    ∀ {xs : List α}, (∀ x ∈ xs, ∀ b r, f x b = .ok r → μ r.value ≤ μ b + g x) →
      ∀ {b b' : β}, forIn xs b f = .ok b' → μ b' ≤ μ b + (xs.map g).sum
  | [], _, b, b', h => by
    rw [List.forIn_nil, pure_eq_ok] at h
    rw [← h, List.map_nil, List.sum_nil, Nat.add_zero]
  | x :: xs, hstep, b, b', h => by
    rw [List.forIn_cons] at h
    obtain ⟨r, hr, hrest⟩ := bind_eq_ok.1 h
    rw [List.map_cons, List.sum_cons]
    cases r with
    | done c =>
      have hfirst : μ c ≤ μ b + g x := hstep x (List.mem_cons_self ..) b _ hr
      rw [pure_eq_ok] at hrest
      subst hrest
      omega
    | yield c =>
      have hfirst : μ c ≤ μ b + g x := hstep x (List.mem_cons_self ..) b _ hr
      have hmore := forIn_ok_measure_le μ g (fun y hy => hstep y (List.mem_cons_of_mem _ hy)) hrest
      omega

end Exploration
