import Mathlib
import Exploration.Proofs.MapHistory
import Exploration.Command.World

/-!
# Freezing a region with its submap

A world freezes a box of its map under an id and, given a skeleton graph, makes the region's
submap and tells every global planner of it (`Command.World.finalize`). The region is frozen
first: the submap is made, and the planners told, only afterwards. So a call that fails at the
freeze (an id already frozen, or one that is no id) leaves the world as it was, while a call that
gets past it leaves the map frozen, one region longer under the id, whatever becomes of the
submap; a call that succeeds has every planner take in the submap it answers
(`Command.World.finalize_outcome`).

A graph with a vertex that cannot be searched (a coordinate that is not finite) makes no submap:
the call fails and the region stays frozen (`submap_failure_keeps_region`), so that the same
region can never be frozen again with its graph.
-/

namespace Exploration

namespace VoxelMap

/-- A freeze that succeeds caches the field and appends the snapshot of the box under the id as
given. -/
theorem freeze_eq_snapshot {m m' : VoxelMap} {id : Value} {lo hi : Vec3}
    (h : m.freeze id lo hi = .ok m') :
    m' = { m.withField with regions := m.regions ++ [m.withField.snapshot id lo hi] } := by
  unfold freeze at h
  obtain ⟨key, hkey, hbody⟩ := bind_eq_ok.1 h
  -- an id that is a key is kept as it is
  have hid : key = id := by
    unfold Value.toKey at hkey
    split at hkey
    · exact (Except.ok.inj hkey).symm
    · cases hkey
  subst hid
  split at hbody
  · cases hbody
  · rw [← Except.ok.inj hbody, withField_regions]

end VoxelMap

/-- A fold that passes each item through `tell` while no failure is recorded and keeps the items
as they are after one: when it ends without a failure, every item was told. -/
theorem foldl_tell_none {α : Type} (tell : α → α × Option Error)
    (step : List α × Option Error → α → List α × Option Error)
    (hnone : ∀ acc p, step (acc, none) p = (acc ++ [(tell p).1], (tell p).2))
    (hsome : ∀ acc e p, step (acc, some e) p = (acc ++ [p], some e)) :
    ∀ (ps acc : List α), (ps.foldl step (acc, none)).2 = none →
      (ps.foldl step (acc, none)).1 = acc ++ ps.map fun p => (tell p).1
  | [], acc, _ => by simp
  | p :: ps, acc, h => by
    rw [List.foldl_cons, hnone] at h ⊢
    cases htell : (tell p).2 with
    | none =>
      rw [htell] at h
      rw [foldl_tell_none tell step hnone hsome ps _ h]
      simp
    | some e =>
      -- after a refusal the failure stays recorded to the end
      have hstuck : ∀ (qs acc' : List α), (qs.foldl step (acc', some e)).2 = some e := by
        intro qs
        induction qs with
        | nil => intro _; rfl
        | cons q qs ih => intro acc'; rw [List.foldl_cons, hsome]; exact ih _
      rw [htell, hstuck] at h
      cases h

namespace Command

namespace World

/-- Telling the planners of a submap leaves the map. -/
theorem announce_map (w : World) (s : Submap) : (w.announce s).1.map = w.map := by
  unfold announce
  split
  rfl

/-- Telling the planners of a submap without a refusal has every planner take it in, and leaves
the map. -/
theorem announce_none {w w' : World} {s : Submap} (h : w.announce s = (w', none)) :
    w'.planners = w.planners.map (fun p => (p.receive s).1) ∧ w'.map = w.map := by
  unfold announce at h
  have hfold := foldl_tell_none (fun p => p.receive s) _ (fun _ _ => rfl) (fun _ _ _ => rfl)
    w.planners [] (congrArg Prod.snd h)
  rw [← (Prod.mk.inj h).1]
  exact ⟨by simpa using hfold, rfl⟩

/-- **Freezing with a submap.** A call either fails at the freeze and leaves the world as it was,
or leaves the map frozen with one region more, the snapshot of the box under the id, whatever
becomes of the submap; and a call that succeeds has every global planner take in the submap it
answers. -/
theorem finalize_outcome (w : World) (id : Value) (lo hi : Vec3) (graph : Option SkeletonGraph)
    (pose : Transform) :
    (∃ e, w.map.freeze id lo hi = .error e ∧ w.finalize id lo hi graph pose = (w, .error e)) ∨
    (∃ map, w.map.freeze id lo hi = .ok map ∧ (w.finalize id lo hi graph pose).1.map = map ∧
      map.regions = w.map.regions ++ [w.map.withField.snapshot id lo hi] ∧
      ∀ s, (w.finalize id lo hi graph pose).2 = .ok (some s) →
        (w.finalize id lo hi graph pose).1.planners = w.planners.map fun p => (p.receive s).1) := by
  cases hfreeze : w.map.freeze id lo hi with
  | error e =>
    left
    exact ⟨e, rfl, by simp [finalize, hfreeze]⟩
  | ok map =>
    right
    have hregions := congrArg VoxelMap.regions (VoxelMap.freeze_eq_snapshot hfreeze)
    refine ⟨map, rfl, ?_, hregions, ?_⟩
    · -- every later step keeps the frozen map
      simp only [finalize, hfreeze]
      cases graph with
      | none => rfl
      | some g =>
        cases hmake : Submap.make id g (some pose) with
        | error e => simp only [hmake]
        | ok s =>
          have hmap := announce_map { w with map } s
          simp only [hmake]
          cases hann : ({ w with map } : World).announce s with
          | mk w' err =>
            rw [hann] at hmap
            cases err <;> exact hmap
    · intro s hs
      -- only a submap made and taken in by every planner is answered
      simp only [finalize, hfreeze] at hs ⊢
      cases graph with
      | none => simp at hs
      | some g =>
        cases hmake : Submap.make id g (some pose) with
        | error e => simp [hmake] at hs
        | ok s' =>
          cases hann : ({ w with map } : World).announce s' with
          | mk w' err =>
            cases err with
            | some e => simp [hmake, hann] at hs
            | none =>
              simp only [hmake, hann, Except.ok.injEq, Option.some.injEq] at hs ⊢
              subst hs
              exact (announce_none hann).1

/-- A world on a row of unseen cells with one global planner: freezing a box under a new id with
a graph whose one vertex lies at infinity fails, yet leaves the region frozen under the id, so
that freezing it again fails as already frozen. -/
theorem submap_failure_keeps_region :
    let w : World := { map := VoxelMap.unseenRow, planners := [{ settings := {} }] }
    let graph : SkeletonGraph :=
      { vertices := [{ id := .int 0, point := ⟨1.0 / 0.0, 0.0, 0.0⟩ }], nextVertex := .int 1 }
    let r := w.finalize (.int 0) ⟨0.0, 0.4375, 0.4375⟩ ⟨0.25, 0.5625, 0.5625⟩ (some graph)
      Transform.identity
    w.map.frozenIds = [] ∧ r.2 = .error .badValue ∧ r.1.map.frozenIds = [.int 0] ∧
      (r.1.finalize (.int 0) ⟨0.0, 0.4375, 0.4375⟩ ⟨0.25, 0.5625, 0.5625⟩ (some graph)
        Transform.identity).2 = .error (.regionFrozen (Value.int 0).describe) := by
  exact ⟨rfl, rfl, rfl, rfl⟩

end World

end Command

end Exploration
