import Mathlib
import Exploration.Proofs.IndexLive

/-!
# What a failed insertion or rebuild leaves in a nearest-neighbour index

An insertion puts its entry in the tail before it compares the tail's length with the threshold,
and a merge or a rebuild takes the new keys for the built part before it builds the part's search
from the points. So a call that fails at the comparison or at the build does not leave the index
as it found it. It lists the keys a successful call would have left, and so has that call's size,
while the built part keeps searching the points of the last build that succeeded, or there is
none (`IndexOp.apply_error_keys`). A failed merge thus leaves more keys than searched points.

The failure comes from the threshold, which cannot be compared, or from points the built part
cannot search (a coordinate that is not finite, points of different lengths, points without
coordinates: `SpatialIndex.unsearchable`). A rebuild of an empty index into one entry whose point
has an infinite coordinate fails and leaves an index of size one
(`failed_rebuild_counts_its_key`).
-/

namespace Exploration

namespace SpatialIndex

variable {α : Type}

/-- The keys of the live entries, those of the built part first. -/
def keys (s : SpatialIndex α) : List α := s.treeKeys ++ s.tail.map (·.1)

theorem size_eq_length_keys (s : SpatialIndex α) : s.size = s.keys.length := by
  simp [size, keys]

/-- In a well-formed index the keys are those of the live entries. -/
theorem Wf.keys_eq {s : SpatialIndex α} (h : s.Wf) : s.keys = s.entries.map (·.1) := by
  have htree : (s.treeKeys.zip s.treeData).map (·.1) = s.treeKeys := by
    cases hb : s.built
    · simp [h.treeKeys_eq_nil hb]
    · exact List.map_fst_zip (h.length_treeData hb).le
  simp [keys, entries, htree]

/-- A build that fails has taken the keys and kept everything else, the old points included. -/
theorem build_error {s s' : SpatialIndex α} {keys : List α} {points : List (List Float)}
    {e : Error} (h : s.build keys points = (s', some e)) : s' = { s with treeKeys := keys } := by
  unfold build at h
  split at h
  · cases h
  · split at h
    · cases h
    · exact (Prod.mk.inj h).1.symm

/-- An insertion that fails has added its key, and the built part searches the points it
searched before. -/
theorem insert_error {s s' : SpatialIndex α} {key : α} {p : List Float} {e : Error}
    (h : s.insert key p = (s', some e)) :
    s'.keys = s.keys ++ [key] ∧ s'.built = s.built ∧ s'.treeData = s.treeData := by
  unfold insert at h
  dsimp only at h
  split at h
  · -- the threshold cannot be compared: the entry stays in the tail
    cases h
    simp [keys]
  · cases h
  · -- the merge fails at the build: the tail's keys joined the built part, its points did not
    unfold mergeTail at h
    obtain rfl := build_error h
    simp [keys]

/-- A rebuild that fails has taken the new keys and no built part is left. -/
theorem rebuild_error {s s' : SpatialIndex α} {items : List (α × List Float)} {e : Error}
    (h : s.rebuild items = (s', some e)) : s'.keys = items.map (·.1) ∧ s'.built = false := by
  unfold rebuild at h
  obtain rfl := build_error h
  simp [keys, clear]

/-- **A failed insertion or rebuild** of a well-formed index lists the keys the call would have
left had it succeeded, so the index has the size of the successful call, while its built part,
if any is left, searches the points of the last build that succeeded. -/
theorem IndexOp.apply_error_keys {s s' : SpatialIndex α} {e : Error} (op : IndexOp α)
    (hwf : s.Wf) (h : op.apply s = (s', some e)) :
    s'.keys = (op.live s.entries).map (·.1) ∧ s'.size = (op.live s.entries).length ∧
      (s'.built = true → s.built = true ∧ s'.treeData = s.treeData) := by
  have hsize : s'.keys = (op.live s.entries).map (·.1) →
      s'.size = (op.live s.entries).length := fun hkeys => by
    rw [size_eq_length_keys, hkeys, List.length_map]
  cases op with
  | insert key p =>
    obtain ⟨hkeys, hbuilt, hdata⟩ := insert_error h
    have hlive : s'.keys = (IndexOp.live (.insert key p) s.entries).map (·.1) := by
      rw [hkeys, hwf.keys_eq]
      simp [IndexOp.live]
    exact ⟨hlive, hsize hlive, fun hb => ⟨hbuilt ▸ hb, hdata⟩⟩
  | rebuild items =>
    obtain ⟨hkeys, hbuilt⟩ := rebuild_error h
    exact ⟨hkeys, hsize hkeys, fun hb => absurd (hbuilt ▸ hb) Bool.false_ne_true⟩
  | clear => cases h

/-- An index of one built entry at the origin, merging at every insertion: inserting a second
entry whose point has an infinite coordinate fails at the merge, and leaves both keys with the
one point of the first build. -/
theorem failed_merge_keeps_old_points :
    let s : SpatialIndex Value :=
      { threshold := .int 0, treeKeys := [.int 0], treeData := [[0.0, 0.0, 0.0]], built := true }
    let s' : SpatialIndex Value :=
      { threshold := .int 0, treeKeys := [.int 0, .int 1], treeData := [[0.0, 0.0, 0.0]],
        built := true }
    s.Wf ∧ (IndexOp.insert (.int 1) [1.0 / 0.0, 0.0, 0.0]).apply s = (s', some .badValue) ∧
      (s'.keys = ((IndexOp.insert (.int 1) [1.0 / 0.0, 0.0, 0.0]).live s.entries).map (·.1) ∧
        s'.size = ((IndexOp.insert (.int 1) [1.0 / 0.0, 0.0, 0.0]).live s.entries).length ∧
        (s'.built = true → s.built = true ∧ s'.treeData = s.treeData)) := by
  intro s s'
  have hwf : s.Wf := ⟨fun _ => rfl, nofun⟩
  have hfail : (IndexOp.insert (.int 1) [1.0 / 0.0, 0.0, 0.0]).apply s = (s', some .badValue) := by
    rfl
  exact ⟨hwf, hfail, IndexOp.apply_error_keys _ hwf hfail⟩

/-- A rebuild of an empty index into one entry whose point has an infinite coordinate fails, and
leaves an index of size one where there was none. -/
theorem failed_rebuild_counts_its_key :
    let s : SpatialIndex Value := empty (.int 3) (.int 32)
    (s.rebuild [(.int 0, [1.0 / 0.0, 0.0, 0.0])]).2 = some .badValue ∧ s.size = 0 ∧
      (s.rebuild [(.int 0, [1.0 / 0.0, 0.0, 0.0])]).1.size = 1 := by
  refine ⟨?_, rfl, rfl⟩
  rfl

end SpatialIndex

end Exploration
