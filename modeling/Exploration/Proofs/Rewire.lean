import Mathlib
import Exploration.Proofs.TreeRepair

/-!
# Choosing the best connection of a viewpoint

`selectBest` tries each connection of a viewpoint `u` as its active connection, in order. A place
counts when the active chain from `u` then reaches the root without coming back to `u`
(`reachesRoot`); for those the value of `u` is computed on the tree so rewired, and the first
place of highest value is kept, with that value.

On a well-formed tree (`TreeWF`) every other chain reaches the root, so trying place `i`, with
`p` the node at its other end, only the chains through `u` change: the walk of `reachesRoot`
meets `u` again exactly when `u` is on the chain from `p` (`reachesRoot_run`), and otherwise the
rewired tree is well formed again, so its value is the best gain-per-cost ratio of `u`'s subtree
(`ValueOf`, read off `computeValue`). Values are never NaN, so the floats compared form a linear
order and the loop keeps the first largest (`tryEach_run`).

Trial trees differ from the tree only at `u`, and only in its active value and its value
(`Replaced`); a value is never read by the walks, so trees that differ in values only have the
same chains and the same values (`SameButValues`).

Main statement: `selectBest_picks_best_connection`.
-/

namespace Exploration

/-- The run with its planner's tree replaced. -/
def LocalRun.withTree (r : LocalRun) (t : ViewpointTree) : LocalRun :=
  { r with planner := { r.planner with tree := t } }

namespace LocalRun

variable (r : LocalRun) (t t' : ViewpointTree)

@[simp] theorem withTree_tree : (r.withTree t).planner.tree = t := rfl
@[simp] theorem withTree_withTree : (r.withTree t).withTree t' = r.withTree t' := rfl
@[simp] theorem withTree_self : r.withTree r.planner.tree = r := rfl

end LocalRun

namespace ViewpointTree

/-! ## Trees that differ in values only -/

/-- Two trees with the same nodes whose viewpoints differ at most in their values. -/
structure SameButValues (t t' : ViewpointTree) : Prop where
  arena : t'.arena = t.arena
  node : ∀ id, { t'.node id with value := 0.0 } = { t.node id with value := 0.0 }

namespace SameButValues

variable {t t' : ViewpointTree} (h : SameButValues t t')
include h

theorem symm : SameButValues t' t := ⟨h.arena.symm, fun id => (h.node id).symm⟩

theorem isRoot (id : Int) : (t'.node id).isRoot = (t.node id).isRoot :=
  (congrArg Viewpoint.isRoot (h.node id) :)

theorem gain (id : Int) : (t'.node id).gain = (t.node id).gain :=
  (congrArg Viewpoint.gain (h.node id) :)

theorem activeTarget? (id : Int) : (t'.node id).activeTarget? = (t.node id).activeTarget? :=
  (congrArg Viewpoint.activeTarget? (h.node id) :)

theorem activeLink? (id : Int) : (t'.node id).activeLink? = (t.node id).activeLink? :=
  (congrArg Viewpoint.activeLink? (h.node id) :)

theorem addSums (id : Int) (l : Link) (a : Float × Float) :
    (t'.node id).addSums l a = (t.node id).addSums l a := by
  simp [Viewpoint.addSums, h.gain id]

theorem onChain {a x : Int} (hx : OnChain t a x) : OnChain t' a x := by
  induction hx with
  | self => exact .self
  | up hr hp _ ih => exact .up (h.isRoot _ ▸ hr) (h.activeTarget? _ ▸ hp) ih

theorem isChild {x w : Int} (hc : IsChild t x w) : IsChild t' x w :=
  ⟨h.arena ▸ hc.1, h.isRoot w ▸ hc.2.1, h.activeTarget? w ▸ hc.2.2⟩

theorem gathered {id : Int} {acc res : Float × Float} (hg : Gathered t id acc res) :
    Gathered t' id acc res := by
  induction hg with
  | root hr => exact .root (h.isRoot _ ▸ hr)
  | @step id p l acc res hr hl hp _ ih =>
    refine .step (h.isRoot _ ▸ hr) (h.activeLink? _ ▸ hl) (h.activeTarget? _ ▸ hp) ?_
    rw [h.addSums]
    exact ih

theorem down {v x : Int} {a s : Float × Float} (hd : Down t v a x s) : Down t' v a x s := by
  induction hd with
  | @top l hl =>
    rw [← h.addSums]
    exact .top (h.activeLink? _ ▸ hl)
  | @child p w s l _ hc hl ih =>
    rw [← h.addSums]
    exact .child ih (h.isChild hc) (h.activeLink? _ ▸ hl)

end SameButValues

/-! ## Trees that differ at one node -/

/-- `t'` reads as `t` with the viewpoint under the identity of node `u` replaced by `w`: the same
nodes, index, root and counters. -/
structure Replaced (t t' : ViewpointTree) (u : Int) (w : Viewpoint) : Prop where
  arena : t'.arena = t.arena
  slots : t'.slots = t.slots
  index : t'.index = t.index
  root : t'.root = t.root
  nextNode : t'.nextNode = t.nextNode
  nextLink : t'.nextLink = t.nextLink
  fresh : t'.fresh = t.fresh
  node : ∀ id, t'.node id = if t.slots.getD id 0 = t.slots.getD u 0 then w else t.node id

namespace Replaced

variable {t t' t'' : ViewpointTree} {u : Int} {w w' : Viewpoint}

theorem setNode (t : ViewpointTree) (u : Int) (w : Viewpoint) : Replaced t (t.setNode u w) u w :=
  ⟨rfl, rfl, rfl, rfl, rfl, rfl, rfl, fun id => node_insert t _ w id⟩

theorem refl (t : ViewpointTree) (u : Int) : Replaced t t u (t.node u) := by
  refine ⟨rfl, rfl, rfl, rfl, rfl, rfl, rfl, fun id => ?_⟩
  split
  · next hs => simp only [ViewpointTree.node, hs]
  · rfl

theorem trans (h₁ : Replaced t t' u w) (h₂ : Replaced t' t'' u w') : Replaced t t'' u w' := by
  refine ⟨h₂.arena.trans h₁.arena, h₂.slots.trans h₁.slots, h₂.index.trans h₁.index,
    h₂.root.trans h₁.root, h₂.nextNode.trans h₁.nextNode, h₂.nextLink.trans h₁.nextLink,
    h₂.fresh.trans h₁.fresh, fun id => ?_⟩
  rw [h₂.node, h₁.slots, h₁.node]
  split <;> rfl

/-- Within the arena, `t'` reads `w` at `u` and as `t` elsewhere. -/
theorem node_of_mem (h : Replaced t t' u w) (ht : Stored t) (hu : u ∈ t.arena) {id : Int}
    (hid : id ∈ t.arena) : t'.node id = if id = u then w else t.node id := by
  rw [h.node]
  by_cases hiu : id = u
  · simp [hiu]
  · rw [if_neg hiu, if_neg fun hs => hiu (ht.slot_inj' hid hu hs)]

/-- A viewpoint with `u`'s identity and id keeps the tree stored. -/
theorem stored (h : Replaced t t' u w) (ht : Stored t) (hu : u ∈ t.arena)
    (hs : w.serial = (t.node u).serial) (hi : w.id = (t.node u).id) : Stored t' where
  nodup := h.arena ▸ ht.nodup
  contains_iff id := by rw [h.slots, h.arena]; exact ht.contains_iff id
  serial_eq id hid := by
    rw [h.arena] at hid
    rw [h.node_of_mem ht hu hid, h.slots]
    split
    · subst id
      rw [hs, ht.serial_eq _ hu]
    · exact ht.serial_eq id hid
  id_eq id hid := by
    rw [h.arena] at hid
    rw [h.node_of_mem ht hu hid]
    split
    · subst id
      rw [hi, ht.id_eq _ hu]
    · exact ht.id_eq id hid

theorem node_self (h : Replaced t t' u w) : t'.node u = w := by
  simp [h.node]

/-- A viewpoint in the same place keeps the shape of the tree. -/
theorem sameLinks (h : Replaced t t' u w) (ht : Stored t) (hu : u ∈ t.arena)
    (hw : (t.node u).SamePlace w) : SameLinks t t' where
  arena := h.arena
  slots := h.slots
  index := h.index
  root := h.root
  nextNode := h.nextNode
  nextLink := h.nextLink
  fresh := h.fresh.ge
  place id hid := by
    rw [h.node_of_mem ht hu hid]
    split
    · subst id
      exact hw
    · exact Viewpoint.SamePlace.refl _

/-- Two replacements of one node by viewpoints that differ in value only differ in values
only. -/
theorem sameButValues (h : Replaced t t' u w) (h' : Replaced t t'' u w')
    (hw : { w' with value := 0.0 } = { w with value := 0.0 }) : SameButValues t' t'' := by
  refine ⟨h'.arena.trans h.arena.symm, fun id => ?_⟩
  rw [h.node, h'.node]
  split
  · exact hw
  · rfl

end Replaced

/-- `b` is the value of node `u`, not flagged root: the largest of `0` and the gain-per-cost
ratios of its subtree, with the sums above it gathered from its parent up. This is what
`computeValue` returns (`computeValue_subtree_best`). -/
def ValueOf (t : ViewpointTree) (u : Int) (b : Float) : Prop :=
  ∃ a, Above t u a ∧ LocalPlanner.Tops 0.0 (SubtreeRatio t u a) b

/-- Values do not depend on the values recorded in the tree. -/
theorem SameButValues.valueOf {t t' : ViewpointTree} (h : SameButValues t t') {u : Int}
    {b : Float} (hb : ValueOf t u b) : ValueOf t' u b := by
  obtain ⟨a, ⟨p, hp, hg⟩, htops⟩ := hb
  have hratio : ∀ y, SubtreeRatio t u a y ↔ SubtreeRatio t' u a y := by
    intro y
    constructor
    · rintro ⟨x, hx, hon, s, hd, hpos, rfl⟩
      exact ⟨x, h.arena ▸ hx, h.onChain hon, s, h.down hd, hpos, rfl⟩
    · rintro ⟨x, hx, hon, s, hd, hpos, rfl⟩
      exact ⟨x, h.arena ▸ hx, h.symm.onChain hon, s, h.symm.down hd, hpos, rfl⟩
  exact ⟨a, ⟨p, h.activeTarget? u ▸ hp, h.gathered hg⟩, htops.congr hratio⟩

/-- A value is `0` or above it, so it is no NaN. -/
theorem ValueOf.isNaN_eq_false {t : ViewpointTree} {u : Int} {b : Float} (hb : ValueOf t u b) :
    b.isNaN = false := by
  obtain ⟨a, -, (rfl | ⟨-, hpos⟩), -⟩ := hb
  · decide
  · exact (Float.isNaN_eq_false_of_lt hpos).2

/-- Every value is above the start of the search, minus infinity. -/
theorem ValueOf.neg_inf_lt {t : ViewpointTree} {u : Int} {b : Float} (hb : ValueOf t u b) :
    -((1.0 : Float) / 0.0) < b := by
  have hinf : -((1.0 : Float) / 0.0) < 0.0 := by decide
  obtain ⟨a, -, (rfl | ⟨-, hpos⟩), -⟩ := hb
  · exact hinf
  · exact Float.lt_trans hinf hpos

/-- Two values of one node are not below each other. -/
theorem ValueOf.not_lt {t : ViewpointTree} {u : Int} {b c : Float} (hb : ValueOf t u b)
    (hc : ValueOf t u c) : ¬ b < c := by
  obtain ⟨a, ⟨p, hp, hg⟩, hbtop, hbmax⟩ := hb
  obtain ⟨a', ⟨p', hp', hg'⟩, hctop, -⟩ := hc
  rw [hp] at hp'
  cases hp'
  cases hg.unique hg'
  rcases hctop with rfl | ⟨hP, -⟩
  · rcases hbtop with rfl | ⟨-, hpos⟩
    · exact Float.not_lt_self _
    · intro hneg
      exact Float.not_lt_self _ (Float.lt_trans hpos hneg)
  · exact hbmax c hP

/-! ## Pointing a node elsewhere -/

/-- The chain from a node reaches `u`, or reaches the root without meeting `u`. -/
theorem ReachesRoot.onChain_or_avoid {t : ViewpointTree} {u p : Int} {k : Nat}
    (h : ReachesRoot t p k) : OnChain t u p ∨ ChainIn t (· ≠ u) p k := by
  induction h with
  | @root p hp _ hr =>
    by_cases hpu : p = u
    · exact .inl (hpu ▸ .self)
    · exact .inr (.root hp hpu hr)
  | @step p q k hp _ hr hq _ ih =>
    by_cases hpu : p = u
    · exact .inl (hpu ▸ .self)
    · rcases ih with hon | hchain
      · exact .inl (.up hr hq hon)
      · exact .inr (.step hp hpu hr hq hchain)

/-- The chain from a node up to `u` is the same in a tree that reads the same but at `u`. -/
theorem OnChain.of_reaches {t T : ViewpointTree} {u p : Int} {k : Nat}
    (hother : ∀ w ∈ t.arena, w ≠ u → T.node w = t.node w) (hp : ReachesRoot t p k)
    (h : OnChain t u p) : OnChain T u p := by
  induction hp with
  | @root p _ _ hr =>
    cases h with
    | self => exact .self
    | up hr' => simp [hr] at hr'
  | @step p q k hp _ hr hq _ ih =>
    by_cases hpu : p = u
    · exact hpu ▸ .self
    · have hT := hother p hp hpu
      exact .up (hT ▸ hr) (hT ▸ hq) (ih (h.of_ne (Ne.symm hpu) hq))

/-- The tree with the active connection of node `u` at place `i`. -/
def setActive (t : ViewpointTree) (u : Int) (i : Nat) : ViewpointTree :=
  t.setNode u { t.node u with active := .int i }

theorem replaced_setActive (t : ViewpointTree) (u : Int) (i : Nat) :
    Replaced t (t.setActive u i) u { t.node u with active := .int i, value := (t.node u).value } :=
  Replaced.setNode t u _

section Pointed

/-! Throughout, `T` is the well-formed tree `t` with node `u`, not flagged root, pointed at place
`i`, its value any. -/

variable {t T : ViewpointTree} {u : Int} {i : Nat} {val : Float} (ht : TreeWF t)
  (hu : u ∈ t.arena) (hroot : (t.node u).isRoot = false)
  (hT : Replaced t T u { t.node u with active := .int i, value := val })
include hT

theorem Replaced.target_pointed {p : Int} :
    (T.node u).activeTarget? = .ok (some p) ↔
      ∃ e, (t.node u).links[i]? = some e ∧ farEnd e = p := by
  have hact : (T.node u).active = .int i := by rw [hT.node_self]
  rw [Viewpoint.activeTarget?_eq_some hact, hT.node_self]
  simp

include ht hu

theorem Replaced.node_ne : ∀ w ∈ t.arena, w ≠ u → T.node w = t.node w := by
  intro w hw hwu
  rw [hT.node_of_mem ht.linked.stored hu hw, if_neg hwu]

theorem Replaced.stored_pointed : Stored T := hT.stored ht.linked.stored hu rfl rfl

include hroot

/-- **The ways up.** Pointed at place `i`, node `u` reaches the root exactly when `i` is the place
of a connection whose other end does not have `u` on its chain. -/
theorem Replaced.reaches_iff :
    (∃ k, ReachesRoot T u k) ↔
      ∃ e, (t.node u).links[i]? = some e ∧ ¬ OnChain t u (farEnd e) := by
  have hother := hT.node_ne ht hu
  have huT : (T.node u).isRoot = false := by rw [hT.node_self]; exact hroot
  constructor
  · rintro ⟨k, hk⟩
    obtain ⟨j, rfl, hchain⟩ : ∃ j, k = j + 1 ∧ ∃ p, (T.node u).activeTarget? = .ok (some p) ∧
        ChainIn T (fun _ => True) p j := by
      cases hk with
      | root _ _ hr => simp [huT] at hr
      | step _ _ _ hp hchain => exact ⟨_, rfl, _, hp, hchain⟩
    obtain ⟨p, hp, hpj⟩ := hchain
    obtain ⟨e, he, rfl⟩ := (hT.target_pointed).1 hp
    refine ⟨e, he, fun hon => ?_⟩
    -- with `u` on the chain from its new parent, `u` would reach the root in fewer steps
    obtain ⟨k', hk'⟩ := ht.reaches _ (hT.arena ▸ hpj.mem.1)
    obtain ⟨j', hj', hu', -⟩ := (hon.of_reaches hother hk').depth hpj
    have := hk.unique hu'
    omega
  · rintro ⟨e, he, hnot⟩
    have hmem : e ∈ (t.node u).links := List.mem_of_getElem? he
    obtain ⟨k, hk⟩ := ht.reaches _ (ht.linked.holds u hu e hmem).far_mem
    rcases hk.onChain_or_avoid (u := u) with hon | hchain
    · exact absurd hon hnot
    · have hchain' : ChainIn T (· ≠ u) (farEnd e) k := hchain.transfer
        (fun w hw _ => hT.arena ▸ hw) (fun w hw hwu => by rw [hother w hw hwu])
        (fun w hw hwu _ => by rw [hother w hw hwu])
      exact ⟨k + 1, .step (hT.arena ▸ hu) trivial huT ((hT.target_pointed).2 ⟨e, he, rfl⟩)
        (hchain'.mono fun _ _ => trivial)⟩

/-- Pointed at a way up, the tree is well formed again. -/
theorem Replaced.treeWF (hc : ∃ k, ReachesRoot T u k) : TreeWF T := by
  have hother := hT.node_ne ht hu
  have hsame : SameLinks t T :=
    hT.sameLinks ht.linked.stored hu ⟨rfl, rfl, rfl, rfl, rfl⟩
  refine ⟨hsame.linked ht.linked fun w hw => ?_, hsame.oneRoot ht.oneRoot,
    hsame.indexed ht.indexed, fun w hw => ?_⟩
  · by_cases hwu : w = u
    · subst w
      exact ⟨i, by rw [hT.node_self]⟩
    · rw [hother w hw hwu]
      exact ht.linked.active_int w hw
  · rw [hT.arena] at hw
    obtain ⟨k, hk⟩ := ht.reaches w hw
    refine hk.transfer_except (X := (· = u)) (fun w hw => hT.arena ▸ hw)
      (fun w hw hwu => ⟨by rw [hother w hw hwu], fun _ => by rw [hother w hw hwu]⟩) ?_
    rintro w rfl
    exact hc

end Pointed

end ViewpointTree

namespace LocalPlanner

open ViewpointTree

/-- A computation on the tree runs on the planner's tree and changes nothing but the tree. -/
theorem onTree_run {α : Type} {r : LocalRun} {T T' : ViewpointTree} {act : TreeM α} {x : α}
    (hr : r.planner.tree = T) (h : act T = .ok x T') : onTree act r = .ok x (r.withTree T') := by
  subst hr
  simp only [onTree, h]
  rfl

/-- **The value of a node**, on a tree whose connections are held at both ends and whose chains
reach the root: `computeValue` succeeds, records the value in the node and changes nothing
else, and the value is `ValueOf` the node. -/
theorem computeValue_run {T : ViewpointTree} (hT : T.Forest) {u : Int} (hu : u ∈ T.arena)
    (hroot : (T.node u).isRoot = false) {r : LocalRun} (hr : r.planner.tree = T) :
    ∃ b, computeValue (T.slots.getD u 0) r = .ok b (r.withTree (T.withValue u b)) ∧
      ValueOf T u b := by
  have hget : onTree (ViewpointTree.get (T.slots.getD u 0)) r = .ok (T.node u) r :=
    onTree_read hr rfl
  have hupdate : ∀ b, onTree (ViewpointTree.update (T.slots.getD u 0)
      fun v => { v with value := b }) r = .ok () (r.withTree (T.withValue u b)) :=
    fun b => onTree_run hr (hT.update_node_run hu _ rfl)
  obtain ⟨p, hp, hpm⟩ := hT.exists_target hu hroot
  obtain ⟨k, hk⟩ := hT.reaches_of_mem hpm
  have hlt := hk.lt_length
  obtain ⟨a, ha, hgather⟩ := gather_run hT hr (T.node u) T.arena.length hk
    (T.arena.length + 2) 0 (0.0, 0.0) (by omega) (by omega)
  obtain ⟨b, hspread, htops⟩ := spread_run hT hr (T.arena.length + 3) 0.0 [] [(u, a)]
    (Pending.start hu hroot) (by simp)
  rw [List.map_singleton] at hspread
  refine ⟨b, ?_, a, ⟨p, hp, ha⟩, htops.congr fun y => by simp [StackRatio]⟩
  simp [computeValue, hget, hroot, onTree_read hr (hT.parent?_run hroot hp hpm), hgather,
    gainPerCost, onTree_read hr (size_run T), hspread, hupdate, bind, EStateM.bind, pure,
    EStateM.pure]

section Pointed

variable {t T : ViewpointTree} {u : Int} {i : Nat} {val : Float} {r : LocalRun} (ht : TreeWF t)
  (hu : u ∈ t.arena) (hroot : (t.node u).isRoot = false)
  (hT : Replaced t T u { t.node u with active := .int i, value := val }) (hr : r.planner.tree = T)
include ht hu hroot hT hr

/-- **The walk up from a node.** From a node of `T` whose parent `p` reaches the root of `t` in
`k` steps, with fuel for more, the walk succeeds, changes nothing, and tells whether the chain
from `p` avoids `u`. -/
theorem climbFrom_run (v : Viewpoint) {p : Int} {k : Nat} (hp : ReachesRoot t p k) :
    ∀ (x : Int) (fuel : Nat), x ∈ T.arena → (T.node x).isRoot = false →
      (T.node x).activeTarget? = .ok (some p) → k < fuel →
      ∃ b, climbFrom (t.slots.getD u 0) v fuel (T.node x) r = .ok b r ∧
        (b = true ↔ ¬ OnChain t u p) := by
  have hTs := hT.stored_pointed ht hu
  have hother := hT.node_ne ht hu
  -- a node's identity is `u`'s exactly when the node is `u`
  have hserial : ∀ w ∈ t.arena, ((T.node w).serial == t.slots.getD u 0) = decide (w = u) := by
    intro w hw
    rw [hTs.serial_eq w (hT.arena ▸ hw), hT.slots]
    by_cases hwu : w = u
    · simp [hwu]
    · have hs : t.slots.getD w 0 ≠ t.slots.getD u 0 :=
        fun h => hwu (ht.linked.stored.slot_inj' hw hu h)
      simp [hwu, hs]
  induction hp with
  | @root p hp _ hpr =>
    intro x fuel hx hxr hxp hk
    obtain ⟨fuel, rfl⟩ : ∃ f, fuel = f + 1 := ⟨fuel - 1, by omega⟩
    have hpu : p ≠ u := fun h => by simp [h, hroot] at hpr
    have hpar := onTree_read hr (hTs.parent?_run hxr hxp (hT.arena ▸ hp))
    have hpr' : (T.node p).isRoot = true := by rw [hother p hp hpu]; exact hpr
    refine ⟨true, ?_, ?_⟩
    · simp [climbFrom, hpar, hserial p hp, hpu, hpr', bind, EStateM.bind, pure, EStateM.pure]
    · simp only [true_iff]
      intro hon
      cases hon with
      | self => exact hpu rfl
      | up hr' => simp [hpr] at hr'
  | @step p q k hp _ hpr hq _ ih =>
    intro x fuel hx hxr hxp hk
    obtain ⟨fuel, rfl⟩ : ∃ f, fuel = f + 1 := ⟨fuel - 1, by omega⟩
    have hpar := onTree_read hr (hTs.parent?_run hxr hxp (hT.arena ▸ hp))
    by_cases hpu : p = u
    · -- the walk is back at `u`
      subst hpu
      refine ⟨false, ?_, by simpa using OnChain.self⟩
      simp [climbFrom, hpar, hserial p hp, bind, EStateM.bind, pure, EStateM.pure]
    · have hTp := hother p hp hpu
      have hpr' : (T.node p).isRoot = false := by rw [hTp]; exact hpr
      obtain ⟨b, hrun, hb⟩ := ih p fuel (hT.arena ▸ hp) hpr' (hTp ▸ hq) (by omega)
      refine ⟨b, ?_, ?_⟩
      · simp [climbFrom, hpar, hserial p hp, hpu, hpr', bind, EStateM.bind]
        exact hrun
      · rw [hb]
        exact not_congr ⟨fun h => .up hpr hq h, fun h => h.of_ne (Ne.symm hpu) hq⟩

/-- **The loop check.** With `u` pointed at place `i`, `reachesRoot` succeeds, changes nothing,
and answers whether the chain from `u` reaches the root. -/
theorem reachesRoot_run :
    ∃ b, reachesRoot (t.slots.getD u 0) r = .ok b r ∧ (b = true ↔ ∃ k, ReachesRoot T u k) := by
  have hget : onTree (ViewpointTree.get (t.slots.getD u 0)) r = .ok (T.node u) r :=
    onTree_read hr (by rw [← hT.slots]; rfl)
  have hsize := onTree_read hr (size_run T)
  have huT : (T.node u).isRoot = false := by rw [hT.node_self]; exact hroot
  rw [hT.reaches_iff ht hu hroot]
  cases he : (t.node u).links[i]? with
  | none =>
    -- no connection at place `i`: `u` has no parent
    have hnone : (T.node u).activeTarget? = .ok none := by
      rw [Viewpoint.activeTarget?_int (by rw [hT.node_self]), hT.node_self]
      simp [he]
    have hpar : parent? (T.node u) T = .ok none T := by
      simp [parent?, huT, hnone, liftExcept, bind, EStateM.bind, pure, EStateM.pure]
    refine ⟨false, ?_, by simp⟩
    simp [reachesRoot, hget, hsize, climbFrom, onTree_read hr hpar, bind, EStateM.bind, pure,
      EStateM.pure]
  | some e =>
    have hpm := (ht.linked.holds u hu e (List.mem_of_getElem? he)).far_mem
    obtain ⟨k, hk⟩ := ht.reaches _ hpm
    have hlt := hk.lt_length
    obtain ⟨b, hrun, hb⟩ := climbFrom_run ht hu hroot hT hr (T.node u) hk u (T.arena.length + 1)
      (hT.arena ▸ hu) huT ((hT.target_pointed).2 ⟨e, he, rfl⟩) (by rw [hT.arena]; omega)
    refine ⟨b, ?_, ?_⟩
    · simp [reachesRoot, hget, hsize, bind, EStateM.bind]
      exact hrun
    · rw [hb]
      simp

end Pointed

section Trying

variable {t : ViewpointTree} {u : Int} (ht : TreeWF t) (hu : u ∈ t.arena)
  (hroot : (t.node u).isRoot = false)
include ht hu

/-- One place tried: on the tree of `r`, which is `t` but for `u`, `u` is pointed at `i`. -/
theorem pointAt_run (i : Nat) {r : LocalRun} {a : Value} {val : Float}
    (hT : Replaced t r.planner.tree u { t.node u with active := a, value := val }) :
    ∃ T₁, onTree (ViewpointTree.update (t.slots.getD u 0)
        fun v => { v with active := .int i }) r = .ok () (r.withTree T₁) ∧
      Replaced t T₁ u { t.node u with active := .int i, value := val } := by
  have hTs : Stored r.planner.tree := hT.stored ht.linked.stored hu rfl rfl
  refine ⟨_, onTree_run rfl ?_, hT.trans (Replaced.setNode _ _ _)⟩
  rw [← hT.slots, hTs.update_node_run (hT.arena ▸ hu) _ (by rw [hT.node_self]), hT.node_self]

include hroot

/-- One value computed: on the tree of `r`, `t` with `u` pointed at a way up `i`, the value of
`u` is computed and recorded. -/
theorem valueAt_run {i : Nat} {r : LocalRun} {val : Float}
    (hT : Replaced t r.planner.tree u { t.node u with active := .int i, value := val })
    (hway : ∃ k, ReachesRoot r.planner.tree u k) :
    ∃ v T₂, computeValue (t.slots.getD u 0) r = .ok v (r.withTree T₂) ∧
      Replaced t T₂ u { t.node u with active := .int i, value := v } ∧
      ValueOf (t.setActive u i) u v := by
  have hwf := hT.treeWF ht hu hroot hway
  obtain ⟨v, hcv, hv⟩ := computeValue_run hwf.forest (hT.arena ▸ hu)
    (by rw [hT.node_self]; exact hroot) (r := r) rfl
  have hset : Replaced r.planner.tree (r.planner.tree.withValue u v) u
      { r.planner.tree.node u with value := v } := Replaced.setNode _ u _
  rw [hT.node_self] at hset
  refine ⟨v, _, hT.slots ▸ hcv, hT.trans hset, ?_⟩
  exact (hT.sameButValues (replaced_setActive t u i) rfl).valueOf hv

/-- **Trying the places in turn.** From a tree that is `t` but for node `u`, trying the places
`is`, increasing and all after `idx`, succeeds and leaves a tree of the same kind. It returns
`best` and `idx` as they were, or a place of `is` that is a way up, with its value, above
`best`; no way up among `is` has a value above the one returned, nor one as large at an
earlier place. -/
theorem tryEach_run :
    ∀ (is : List Nat) (best : Float) (idx : Int) (r : LocalRun) (a : Value) (val : Float),
      Replaced t r.planner.tree u { t.node u with active := a, value := val } →
      is.Pairwise (· < ·) → (∀ i ∈ is, idx < i) → best.isNaN = false →
      ∃ (best' : Float) (idx' : Int) (a' : Value) (val' : Float) (T' : ViewpointTree),
        tryEach (t.slots.getD u 0) is best idx r = .ok (best', idx') (r.withTree T') ∧
        Replaced t T' u { t.node u with active := a', value := val' } ∧
        ((best' = best ∧ idx' = idx) ∨
          ∃ i ∈ is, idx' = i ∧ (∃ k, ReachesRoot (t.setActive u i) u k) ∧
            ValueOf (t.setActive u i) u best' ∧ best < best') ∧
        ∀ j ∈ is, (∃ k, ReachesRoot (t.setActive u j) u k) → ∀ c, ValueOf (t.setActive u j) u c →
          ¬ best' < c ∧ ((j : Int) < idx' → c < best') := by
  intro is
  induction is with
  | nil =>
    intro best idx r a val hT _ _ _
    exact ⟨best, idx, a, val, r.planner.tree, rfl, hT, .inl ⟨rfl, rfl⟩, by simp⟩
  | cons i is ih =>
    intro best idx r a val hT hsort hidx hbest
    obtain ⟨hi, his⟩ := List.pairwise_cons.1 hsort
    have hidx' : ∀ j ∈ is, idx < j := fun j hj => hidx j (List.mem_cons_of_mem _ hj)
    obtain ⟨T₁, hupd, hT₁⟩ := pointAt_run ht hu i hT
    obtain ⟨b, hreach, hb⟩ := reachesRoot_run ht hu hroot hT₁ (r := r.withTree T₁) rfl
    have hway : (∃ k, ReachesRoot T₁ u k) ↔ ∃ k, ReachesRoot (t.setActive u i) u k := by
      rw [hT₁.reaches_iff ht hu hroot, (replaced_setActive t u i).reaches_iff ht hu hroot]
    cases b with
    | false =>
      -- not a way up: the place is passed over
      obtain ⟨best', idx', a', val', T', hrun, hT', hres, hmax⟩ :=
        ih best idx (r.withTree T₁) (.int i) val hT₁ his hidx' hbest
      refine ⟨best', idx', a', val', T', ?_, hT', ?_, fun j hj hcj c hc => ?_⟩
      · simp [tryEach, hupd, hreach, bind, EStateM.bind]
        exact hrun
      · rcases hres with hres | ⟨j, hj, hrest⟩
        · exact .inl hres
        · exact .inr ⟨j, List.mem_cons_of_mem _ hj, hrest⟩
      · rcases List.mem_cons.1 hj with rfl | hj
        · exact absurd (hway.2 hcj) (by simpa using hb)
        · exact hmax j hj hcj c hc
    | true =>
      obtain ⟨v, T₂, hcv, hT₂, hvi⟩ := valueAt_run ht hu hroot (r := r.withTree T₁) hT₁ (hb.1 rfl)
      have hvn := hvi.isNaN_eq_false
      by_cases hlt : best < v
      · -- a larger value: `i` is the best so far
        obtain ⟨best', idx', a', val', T', hrun, hT', hres, hmax⟩ :=
          ih v i (r.withTree T₂) (.int i) v hT₂ his
            (fun j hj => by exact_mod_cast hi j hj) hvn
        refine ⟨best', idx', a', val', T', ?_, hT', ?_, fun j hj hcj c hc => ?_⟩
        · simp [tryEach, hupd, hreach, hcv, hlt, bind, EStateM.bind]
          exact hrun
        · rcases hres with ⟨rfl, rfl⟩ | ⟨j, hj, rfl, hcj, hvj, hlt'⟩
          · exact .inr ⟨i, List.mem_cons_self .., rfl, hway.1 (hb.1 rfl), hvi, hlt⟩
          · exact .inr ⟨j, List.mem_cons_of_mem _ hj, rfl, hcj, hvj, Float.lt_trans hlt hlt'⟩
        · rcases List.mem_cons.1 hj with rfl | hj
          · -- `c` is a value at `j`, as `v` is
            have hvc : ¬ v < c := hvi.not_lt hc
            rcases hres with ⟨rfl, rfl⟩ | ⟨j', -, rfl, -, -, hlt'⟩
            · exact ⟨hvc, fun h => absurd h (lt_irrefl _)⟩
            · exact ⟨fun h => hvc (Float.lt_trans hlt' h),
                fun _ => Float.lt_of_not_lt_of_lt hc.isNaN_eq_false hvn
                  (Float.isNaN_eq_false_of_lt hlt').2 hvc hlt'⟩
          · exact hmax j hj hcj c hc
      · -- not larger: the best so far stays
        obtain ⟨best', idx', a', val', T', hrun, hT', hres, hmax⟩ :=
          ih best idx (r.withTree T₂) (.int i) v hT₂ his hidx' hbest
        refine ⟨best', idx', a', val', T', ?_, hT', ?_, fun j hj hcj c hc => ?_⟩
        · simp [tryEach, hupd, hreach, hcv, hlt, bind, EStateM.bind]
          exact hrun
        · rcases hres with hres | ⟨j, hj, hrest⟩
          · exact .inl hres
          · exact .inr ⟨j, List.mem_cons_of_mem _ hj, hrest⟩
        · rcases List.mem_cons.1 hj with rfl | hj
          · -- `c` is not above `v`, which is not above `best`
            have hbc : ¬ best < c :=
              Float.not_lt_trans hc.isNaN_eq_false hvn hbest (hvi.not_lt hc) hlt
            rcases hres with ⟨rfl, rfl⟩ | ⟨j', -, rfl, -, -, hlt'⟩
            · exact ⟨hbc, fun h => absurd h (not_lt.2 (hidx j (List.mem_cons_self ..)).le)⟩
            · exact ⟨fun h => hbc (Float.lt_trans hlt' h),
                fun _ => Float.lt_of_not_lt_of_lt hc.isNaN_eq_false hbest
                  (Float.isNaN_eq_false_of_lt hlt').2 hbc hlt'⟩
          · exact hmax j hj hcj c hc

end Trying

/-- **Choosing the best connection.** On a well-formed tree, for a node `u` not flagged root
that holds a connection, `selectBest` succeeds and answers true. It points `u` at a place `i`
and records a value `b` in it, and changes nothing else. Place `i` is a way up: with `u`
pointed at it, the chain from `u` reaches the root. There `b` is the value of `u`, and no way
up gives `u` a larger value, nor an earlier one as large. The tree is well formed again. -/
theorem selectBest_picks_best_connection {t : ViewpointTree} (ht : TreeWF t) {u : Int}
    (hu : u ∈ t.arena) (hroot : (t.node u).isRoot = false) (hlinks : (t.node u).links ≠ [])
    (r : LocalRun) (hr : r.planner.tree = t) :
    ∃ (i : Nat) (b : Float) (t' : ViewpointTree),
      selectBest (t.slots.getD u 0) r = .ok true (r.withTree t') ∧
      Replaced t t' u { t.node u with active := .int i, value := b } ∧
      (∃ k, ReachesRoot (t.setActive u i) u k) ∧ ValueOf (t.setActive u i) u b ∧
      (∀ j, (∃ k, ReachesRoot (t.setActive u j) u k) → ∀ c, ValueOf (t.setActive u j) u c →
        c ≤ b ∧ (j < i → c < b)) ∧
      TreeWF t' := by
  have hget : onTree (ViewpointTree.get (t.slots.getD u 0)) r = .ok (t.node u) r :=
    onTree_read hr rfl
  -- the place `u` points at is a way up, with a value
  obtain ⟨n, hn⟩ := ht.linked.active_int u hu
  obtain ⟨k, hk⟩ := ht.reaches u hu
  obtain ⟨j, rfl, p, hp, hpj⟩ : ∃ j, k = j + 1 ∧ ∃ p, (t.node u).activeTarget? = .ok (some p) ∧
      ReachesRoot t p j := by
    cases hk with
    | root _ _ hr' => simp [hroot] at hr'
    | step _ _ _ hp hchain => exact ⟨_, rfl, _, hp, hchain⟩
  obtain ⟨e, hn0, he, rfl⟩ := (Viewpoint.activeTarget?_eq_some hn).1 hp
  have hway₀ : ∃ k, ReachesRoot (t.setActive u n.toNat) u k := by
    rw [(replaced_setActive t u n.toNat).reaches_iff ht hu hroot]
    refine ⟨e, he, fun hon => ?_⟩
    obtain ⟨j', hj', hu', -⟩ := hon.depth hpj
    have := hk.unique hu'
    omega
  obtain ⟨c₀, -, -, -, hc₀⟩ := valueAt_run ht hu hroot (r := r.withTree (t.setActive u n.toNat))
    (replaced_setActive t u n.toNat) hway₀
  -- every place tried
  obtain ⟨best, idx, a, val, T, hrun, hT, hres, hmax⟩ :=
    tryEach_run ht hu hroot (List.range (t.node u).links.length) (-((1.0 : Float) / 0.0)) (-1) r
      (t.node u).active (t.node u).value (hr ▸ Replaced.refl t u) List.pairwise_lt_range
      (fun i _ => by omega) (by decide)
  have hn_lt : n.toNat < (t.node u).links.length := (List.getElem?_eq_some_iff.1 he).1
  have hbest := (hmax n.toNat (List.mem_range.2 hn_lt) hway₀ c₀ hc₀).1
  obtain ⟨i, -, rfl, hway, hval, -⟩ : ∃ i ∈ List.range (t.node u).links.length, idx = i ∧
      (∃ k, ReachesRoot (t.setActive u i) u k) ∧ ValueOf (t.setActive u i) u best ∧
      -((1.0 : Float) / 0.0) < best := by
    rcases hres with ⟨rfl, rfl⟩ | hres
    · exact absurd hc₀.neg_inf_lt hbest
    · exact hres
  -- the place chosen is kept, with its value
  obtain ⟨t', hupd, hT'⟩ : ∃ t', onTree (ViewpointTree.update (t.slots.getD u 0)
      fun v => { v with active := .int i, value := best }) (r.withTree T) = .ok () (r.withTree t') ∧
      Replaced t t' u { t.node u with active := .int i, value := best } := by
    have hTs : Stored T := hT.stored ht.linked.stored hu rfl rfl
    refine ⟨_, onTree_run (T := T) rfl ?_, hT.trans (Replaced.setNode _ _ _)⟩
    rw [← hT.slots, hTs.update_node_run (hT.arena ▸ hu) _ (by rw [hT.node_self]), hT.node_self]
  refine ⟨i, best, t', ?_, hT', hway, hval, fun j hj c hc => ?_, hT'.treeWF ht hu hroot ?_⟩
  · have hne : ¬ ((i : Int) < 0) := by omega
    simp [selectBest, hget, hlinks, hroot, hrun, hne, hupd, bind, EStateM.bind, pure, EStateM.pure]
  · obtain ⟨e', he', -⟩ := ((replaced_setActive t u j).reaches_iff ht hu hroot).1 hj
    have hjL : j < (t.node u).links.length := (List.getElem?_eq_some_iff.1 he').1
    obtain ⟨hnot, hearlier⟩ := hmax j (List.mem_range.2 hjL) hj c hc
    exact ⟨Float.le_of_not_lt hval.isNaN_eq_false hc.isNaN_eq_false hnot,
      fun hji => hearlier (by exact_mod_cast hji)⟩
  · rw [hT'.reaches_iff ht hu hroot, ← (replaced_setActive t u i).reaches_iff ht hu hroot]
    exact hway

/-- `rootAndLeaf` with its counters and index: node ids below `2`, connection ids below `1`,
identities below `2`, and both nodes indexed at the origin. -/
def leafTree : ViewpointTree :=
  { rootAndLeaf with
    index := { tail := [(0, [0.0, 0.0, 0.0]), (1, [0.0, 0.0, 0.0])] }
    nextNode := 2, nextLink := 1, fresh := 2 }

theorem leafTree_wf : leafTree.TreeWF := by
  have hf := rootAndLeaf_forest
  have h0 : leafTree.node 0 = leafRoot := by
    simp [node, leafTree, rootAndLeaf, Std.HashMap.getD_insert]
  have h1 : leafTree.node 1 = leaf := by
    simp [node, leafTree, rootAndLeaf]
  have hmem : ∀ id, id ∈ leafTree.arena ↔ id = 0 ∨ id = 1 := by simp [leafTree, rootAndLeaf]
  -- both ends hold the one connection
  have hlink : ∀ id ∈ leafTree.arena, ∀ e ∈ (leafTree.node id).links, e.2 = leafLink := by
    intro id hid e he
    rcases (hmem id).1 hid with rfl | rfl
    · rw [h0] at he
      simp only [leafRoot, List.mem_singleton] at he
      rw [he]
    · rw [h1] at he
      simp only [leaf, List.mem_singleton] at he
      rw [he]
  refine ⟨⟨hf.nodup, hf.contains_iff, hf.serial_eq, hf.id_eq, ?_, ?_, ?_, ?_, ?_, hf.far_nodup⟩,
    ⟨0, (hmem 0).2 (.inl rfl), by simp [leafTree, rootAndLeaf, Std.HashMap.getD_insert], ?_⟩, ⟨⟨?_, fun _ => rfl⟩, ?_⟩, ?_⟩
  · intro id hid
    rcases (hmem id).1 hid with rfl | rfl <;> simp [leafTree, rootAndLeaf, Std.HashMap.getD_insert]
  · intro id hid
    rcases (hmem id).1 hid with rfl | rfl <;> simp [leafTree]
  · intro id hid
    rcases (hmem id).1 hid with rfl | rfl
    · exact ⟨-1, by rw [h0]; rfl⟩
    · exact ⟨0, by rw [h1]; rfl⟩
  · intro id hid e he
    have hfar : farEnd e ≠ nearEnd e := by
      obtain ⟨b, l⟩ := e
      have hl : l = leafLink := hlink id hid _ he
      subst hl
      cases b <;> simp [nearEnd, farEnd, leafLink]
    refine ⟨hf.near id hid e he, hf.far_mem id hid e he, hf.near id hid e he ▸ hfar,
      hf.mirror id hid e he, ?_⟩
    rw [hlink id hid e he]
    simp [leafTree, leafLink]
  · intro a ha b hb e he e' he' _
    rw [hlink a ha e he, hlink b hb e' he']
  · intro id hid
    rcases (hmem id).1 hid with rfl | rfl
    · simp [h0, leafRoot]
    · simp [h1, leaf]
  · intro h
    simp [leafTree] at h
  · rw [show leafTree.arena = [0, 1] from rfl, List.map_cons, List.map_cons, List.map_nil, h0, h1]
    rfl
  · intro id hid
    rcases (hmem id).1 hid with rfl | rfl
    · exact ⟨0, .root hid trivial (by rw [h0]; rfl)⟩
    · obtain ⟨k, hk⟩ := hf.reaches 1 hid (show (leafTree.node 1).isRoot = false by rw [h1]; rfl)
      exact ⟨k, hk.transfer (fun w hw _ => hw) (fun _ _ _ => rfl) fun _ _ _ _ => rfl⟩

/-- The planner with `leafTree` as its tree. -/
def leafTreeRun : LocalRun := (default : LocalRun).withTree leafTree

theorem selectBest_on_leaf : leafTree.TreeWF ∧ (1 : Int) ∈ leafTree.arena ∧
    (leafTree.node 1).isRoot = false ∧ (leafTree.node 1).links ≠ [] ∧
    ∃ (i : Nat) (b : Float) (t' : ViewpointTree),
      selectBest (leafTree.slots.getD 1 0) leafTreeRun = .ok true (leafTreeRun.withTree t') ∧
      Replaced leafTree t' 1 { leafTree.node 1 with active := .int i, value := b } ∧
      (∃ k, ReachesRoot (leafTree.setActive 1 i) 1 k) ∧ ValueOf (leafTree.setActive 1 i) 1 b ∧
      (∀ j, (∃ k, ReachesRoot (leafTree.setActive 1 j) 1 k) →
        ∀ c, ValueOf (leafTree.setActive 1 j) 1 c → c ≤ b ∧ (j < i → c < b)) ∧
      TreeWF t' := by
  have hmem : (1 : Int) ∈ leafTree.arena := by simp [leafTree, rootAndLeaf]
  have h1 : leafTree.node 1 = leaf := by simp [node, leafTree, rootAndLeaf]
  have hroot : (leafTree.node 1).isRoot = false := by rw [h1]; rfl
  have hlinks : (leafTree.node 1).links ≠ [] := by rw [h1]; simp [leaf]
  exact ⟨leafTree_wf, hmem, hroot, hlinks,
    selectBest_picks_best_connection leafTree_wf hmem hroot hlinks leafTreeRun rfl⟩

end LocalPlanner

end Exploration
