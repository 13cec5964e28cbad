import Mathlib
import Exploration.SpatialIndex

/-!
# The live entries of a nearest-neighbour index

An index is read as one list of live entries (`SpatialIndex.entries`): the keys of the built part
with its points, in order, then the tail. Operations change it as a plain list would
(`IndexOp.live`): an insertion appends, a rebuild replaces, a clear empties; merging the tail into
the built part leaves it as it is. This holds for every run of operations that do not fail
(`runOps_entries`), whatever the threshold and however often the tail is merged, and the size of
the index is the number of live entries (`size_eq_length_entries`).

The invariant that makes the built part readable (`SpatialIndex.Wf`): a built part has a point
for each key, and without one there are no keys.
-/

namespace Exploration

namespace SpatialIndex

variable {α : Type}

/-- The live entries: the built part's keys with its points, then the tail. -/
def entries (s : SpatialIndex α) : List (α × List Float) := s.treeKeys.zip s.treeData ++ s.tail

/-- A built part has one point per key; without a built part there are no keys. -/
structure Wf (s : SpatialIndex α) : Prop where
  length_treeData : s.built = true → s.treeKeys.length = s.treeData.length
  treeKeys_eq_nil : s.built = false → s.treeKeys = []

theorem Wf.length_zip {s : SpatialIndex α} (h : s.Wf) :
    (s.treeKeys.zip s.treeData).length = s.treeKeys.length := by
  cases hb : s.built
  · simp [h.treeKeys_eq_nil hb]
  · simp [h.length_treeData hb]

/-- The size of an index is the number of its live entries. -/
theorem size_eq_length_entries {s : SpatialIndex α} (h : s.Wf) : s.size = s.entries.length := by
  simp [size, entries, h.length_zip]

theorem wf_empty (dim threshold : Value) : (empty dim threshold : SpatialIndex α).Wf :=
  ⟨nofun, fun _ => rfl⟩

@[simp] theorem entries_empty (dim threshold : Value) :
    (empty dim threshold : SpatialIndex α).entries = [] := rfl

/-! ## One operation -/

theorem clear_wf (s : SpatialIndex α) : s.clear.Wf := ⟨nofun, fun _ => rfl⟩

@[simp] theorem entries_clear (s : SpatialIndex α) : s.clear.entries = [] := rfl

/-- **A build that succeeds** puts the keys with their points before the tail. -/
theorem build_spec {s s' : SpatialIndex α} {keys : List α} {points : List (List Float)}
    (hlen : keys.length = points.length) (h : s.build keys points = (s', none)) :
    s'.Wf ∧ s'.entries = keys.zip points ++ s.tail := by
  unfold build at h
  split at h
  · -- no keys: no built part
    rename_i hkeys
    obtain rfl := List.isEmpty_iff.1 hkeys
    cases h
    exact ⟨⟨nofun, fun _ => rfl⟩, rfl⟩
  · split at h
    · cases h
      exact ⟨⟨fun _ => hlen, nofun⟩, rfl⟩
    · cases h

/-- **Merging the tail** into the built part keeps the live entries. -/
theorem mergeTail_spec {s s' : SpatialIndex α} (hwf : s.Wf) (h : s.mergeTail = (s', none)) :
    s'.Wf ∧ s'.entries = s.entries := by
  have hlen : s.treeKeys.length = (if s.built then s.treeData else []).length := by
    cases hb : s.built
    · simp [hwf.treeKeys_eq_nil hb]
    · simp [hwf.length_treeData hb]
  obtain ⟨hwf', hentries⟩ := build_spec (by simp [hlen]) h
  refine ⟨hwf', ?_⟩
  rw [hentries, List.zip_append hlen, ← List.unzip_fst, ← List.unzip_snd, List.zip_unzip]
  have hzip : s.treeKeys.zip (if s.built then s.treeData else []) = s.treeKeys.zip s.treeData := by
    cases hb : s.built
    · simp [hwf.treeKeys_eq_nil hb]
    · rfl
  simp [entries, hzip]

/-- **An insertion** that does not fail appends its entry, merged into the built part or not. -/
theorem insert_spec {s s' : SpatialIndex α} {key : α} {p : List Float} (hwf : s.Wf)
    (h : s.insert key p = (s', none)) : s'.Wf ∧ s'.entries = s.entries ++ [(key, p)] := by
  unfold insert at h
  dsimp only at h
  have hwf₁ : ({ s with tail := s.tail ++ [(key, p)] } : SpatialIndex α).Wf :=
    ⟨hwf.length_treeData, hwf.treeKeys_eq_nil⟩
  have hentries₁ : ({ s with tail := s.tail ++ [(key, p)] } : SpatialIndex α).entries =
      s.entries ++ [(key, p)] := by
    simp [entries]
  split at h
  · cases h
  · cases h
    exact ⟨hwf₁, hentries₁⟩
  · obtain ⟨hwf', hentries'⟩ := mergeTail_spec hwf₁ h
    exact ⟨hwf', hentries'.trans hentries₁⟩

/-- **A rebuild** that does not fail makes the given items the live entries. -/
theorem rebuild_spec {s s' : SpatialIndex α} {items : List (α × List Float)}
    (h : s.rebuild items = (s', none)) : s'.Wf ∧ s'.entries = items := by
  obtain ⟨hwf, hentries⟩ := build_spec (by simp) h
  refine ⟨hwf, ?_⟩
  rw [hentries, ← List.unzip_fst, ← List.unzip_snd, List.zip_unzip]
  exact List.append_nil items

/-! ## Runs of operations -/

/-- An operation that changes an index. -/
inductive IndexOp (α : Type) where
  | insert (key : α) (p : List Float)
  | rebuild (items : List (α × List Float))
  | clear

/-- An operation on an index: the index after it, and its failure if it fails. -/
def IndexOp.apply : IndexOp α → SpatialIndex α → SpatialIndex α × Option Error
  | .insert key p, s => s.insert key p
  | .rebuild items, s => s.rebuild items
  | .clear, s => (s.clear, none)

/-- What an operation does to a plain list of live entries. -/
def IndexOp.live : IndexOp α → List (α × List Float) → List (α × List Float)
  | .insert key p, l => l ++ [(key, p)]
  | .rebuild items, _ => items
  | .clear, _ => []

/-- Runs operations on an index; `none` when one of them fails. -/
def runOps : List (IndexOp α) → SpatialIndex α → Option (SpatialIndex α)
  | [], s => some s
  | op :: ops, s =>
    match op.apply s with
    | (s', none) => runOps ops s'
    | (_, some _) => none

/-- The live entries after operations on an empty list. -/
def liveOf (ops : List (IndexOp α)) : List (α × List Float) :=
  ops.foldl (fun l op => op.live l) []

/-- **One operation** that does not fail changes the live entries as it changes a plain list. -/
theorem IndexOp.apply_spec {s s' : SpatialIndex α} (op : IndexOp α) (hwf : s.Wf)
    (h : op.apply s = (s', none)) : s'.Wf ∧ s'.entries = op.live s.entries := by
  cases op with
  | insert key p => exact insert_spec hwf h
  | rebuild items => exact rebuild_spec h
  | clear =>
    cases h
    exact ⟨clear_wf s, rfl⟩

/-- **A run of operations** that do not fail changes the live entries as the operations change a
    plain list. -/
theorem runOps_spec {ops : List (IndexOp α)} {s s' : SpatialIndex α} (hwf : s.Wf)
    (h : runOps ops s = some s') :
    s'.Wf ∧ s'.entries = ops.foldl (fun l op => op.live l) s.entries := by
  induction ops generalizing s with
  | nil =>
    cases h
    exact ⟨hwf, rfl⟩
  | cons op ops ih =>
    rw [runOps] at h
    split at h
    · rename_i s₁ happly
      obtain ⟨hwf₁, hentries₁⟩ := op.apply_spec hwf happly
      rw [List.foldl_cons, ← hentries₁]
      exact ih hwf₁ h
    · cases h

/-- From an empty index, the live entries are those of the operations. -/
theorem runOps_empty {ops : List (IndexOp α)} {dim threshold : Value} {s : SpatialIndex α}
    (h : runOps ops (empty dim threshold) = some s) : s.Wf ∧ s.entries = liveOf ops :=
  runOps_spec (wf_empty dim threshold) h

end SpatialIndex

end Exploration
