import Mathlib
import Exploration.Proofs.Rewire

/-!
# Removing a connection

`removeLink` takes a connection out of the tree at both of its ends: first at the node that made
it (its parent), then at the other (its target). At each end it drops the first connection of
the id and keeps the others in order (`List.eraseP`), and it moves the active place so that the
active connection stays the connection it was, or becomes none, at place `-1`, when it was the
one dropped (`Viewpoint.DropsFirst`, `Stored.detach_drops_first`).

* When an end is not in the tree, or the parent holds no connection of the id, it fails before
  any change (`removeLink_missing_end`, `removeLink_not_held`).
* When both ends hold the connection it succeeds, dropping one copy at each end and changing
  nothing else (`removeLink_drops_first`), whatever else the ends hold: a node holding the
  connection twice loses the first copy only, and a connection from a node to itself is dropped
  there twice.

Main statement: `removeLink_outcome`.
-/

namespace Exploration

/-- Dropping the first item that a test accepts leaves one fewer that it accepts. -/
theorem countP_eraseP {α : Type} (p : α → Bool) (l : List α) :
    (l.eraseP p).countP p = l.countP p - 1 := by
  by_cases h : ∃ a ∈ l, p a = true
  · obtain ⟨a, ha, hpa⟩ := h
    obtain ⟨a, l₁, l₂, -, hpa, rfl, he⟩ := List.exists_of_eraseP ha hpa
    rw [he, List.countP_append, List.countP_append, List.countP_cons_of_pos hpa]
    omega
  · simp only [not_exists, not_and, Bool.not_eq_true] at h
    have hzero : l.countP p = 0 := List.countP_eq_zero.2 fun a ha => by simp [h a ha]
    rw [List.eraseP_of_forall_not fun a ha => by simp [h a ha], hzero]

namespace Viewpoint

/-- The active connection of an integer active place, read by place. -/
theorem activeLink?_whole {v : Viewpoint} {n : Int} (h : v.active = .int n) :
    v.activeLink? = .ok (if 0 ≤ n then v.links[n.toNat]?.map (·.2) else none) := by
  rw [activeLink?_int h]
  by_cases h0 : 0 ≤ n
  · by_cases hlt : n < v.links.length <;> simp [h0, hlt]
  · simp [h0]

/-- The place `shiftActive` moves an integer active place to, once the connection at place `i`
is dropped. -/
theorem shiftActive_int (n : Int) (i : Nat) :
    shiftActive (.int n) i =
      .ok (.int (if n = i then -1 else if (i : Int) < n then n - 1 else n)) := by
  by_cases hni : n = i
  · simp [shiftActive, hni, pure, Except.pure]
  · by_cases hlt : (i : Int) < n
    · simp [shiftActive, hni, hlt, bind, Except.bind, Value.pred]
    · simp [shiftActive, hni, hlt, bind, Except.bind, pure, Except.pure]

/-- `w` is `v` with its first connection of id `k` dropped: the other connections stay in order,
nothing but the active place changes, and the active connection is the one it was, or none, at
place `-1`, when it was the one dropped. The active place stays a whole number. -/
structure DropsFirst (k : Nat) (v w : Viewpoint) : Prop where
  links : w.links = v.links.eraseP (·.2.id == k)
  rest : w = { v with links := w.links, active := w.active }
  kept : v.active ≠ .int (v.links.findIdx (·.2.id == k)) → w.activeLink? = v.activeLink?
  cleared : v.active = .int (v.links.findIdx (·.2.id == k)) → w.active = .int (-1)
  whole : ∃ n : Int, w.active = .int n

/-- Dropping the connection at the first place of id `k` and shifting the active place as
`shiftActive` does drops the first connection of id `k`. -/
theorem dropsFirst_of_findIdx? {v : Viewpoint} {k i : Nat} {n : Int}
    (hi : v.links.findIdx? (·.2.id == k) = some i) (hact : v.active = .int n) :
    DropsFirst k v { v.dropLink i with
      active := .int (if n = i then -1 else if (i : Int) < n then n - 1 else n) } := by
  obtain ⟨hlen, hfirst⟩ := List.findIdx?_eq_some_iff_findIdx_eq.1 hi
  have herase : v.links.eraseP (·.2.id == k) = v.links.eraseIdx i := by
    rw [List.eraseP_eq_eraseIdx, hi]
  refine ⟨by rw [herase]; rfl, rfl, fun hne => ?_, fun h => ?_, ⟨_, rfl⟩⟩
  · rw [hact, hfirst, Ne, Value.int.injEq] at hne
    rw [activeLink?_whole rfl, activeLink?_whole hact]
    simp only [dropLink, if_neg hne]
    -- the place comes after the one dropped (one less) or before it (the same)
    rcases lt_or_gt_of_ne hne with hlt | hgt
    · by_cases h0 : 0 ≤ n
      · simp [show ¬ (i : Int) < n by omega, h0, List.getElem?_eraseIdx,
          show n.toNat < i by omega]
      · simp [show ¬ (i : Int) < n by omega, h0]
    · simp [hgt, show (1 : Int) ≤ n by omega, show (0 : Int) ≤ n by omega,
        List.getElem?_eraseIdx, show ¬ n.toNat - 1 < i by omega,
        show n.toNat - 1 + 1 = n.toNat by omega]
  · rw [hact, hfirst, Value.int.injEq] at h
    simp [h]

end Viewpoint

namespace ViewpointTree

/-- `t'` is `t` with the first connection of id `k` dropped at node `u`, and nothing else
changed. -/
def DropAt (k : Nat) (u : Int) (t t' : ViewpointTree) : Prop :=
  ∃ w, (t.node u).DropsFirst k w ∧ Replaced t t' u w

/-- Dropping a connection at a node of a stored tree leaves it stored. -/
theorem DropAt.stored {k : Nat} {u : Int} {t t' : ViewpointTree} (h : Stored t)
    (hu : u ∈ t.arena) (hd : DropAt k u t t') : Stored t' := by
  obtain ⟨w, hdrop, hrep⟩ := hd
  exact hrep.stored h hu (by rw [hdrop.rest]) (by rw [hdrop.rest])

namespace Stored

variable {t : ViewpointTree} (h : Stored t)
include h

/-- A node that holds no connection of the id refuses to drop it, naming itself and the id, and
the tree is left as it was. -/
theorem detach_not_held {u : Int} (hu : u ∈ t.arena) (l : Link)
    (hnone : ∀ e ∈ (t.node u).links, e.2.id ≠ l.id) :
    detach (t.slots.getD u 0) l t = .error (.connectionNotHeld u l.id) t := by
  have hi : List.findIdx? (fun x => x.2.id == l.id)
      (t.objects.getD (t.slots.getD u 0) default).links = none :=
    List.findIdx?_eq_none_iff.2 fun e he => by simpa using hnone e he
  simp only [detach, bind, EStateM.bind, get_run, hi]
  rw [show (t.objects.getD (t.slots.getD u 0) default).id = u from h.id_eq u hu]
  rfl

/-- A node that holds the connection, at a whole-number active place, drops its first copy. -/
theorem detach_drops_first {u : Int} (hu : u ∈ t.arena) (l : Link) {n : Int}
    (hact : (t.node u).active = .int n)
    (hheld : 0 < (t.node u).links.countP (·.2.id == l.id)) :
    ∃ t', detach (t.slots.getD u 0) l t = .ok () t' ∧ DropAt l.id u t t' := by
  obtain ⟨i, hi⟩ : ∃ i, (t.node u).links.findIdx? (·.2.id == l.id) = some i := by
    rw [← Option.isSome_iff_exists, List.findIdx?_isSome, List.any_eq_true]
    exact List.countP_pos_iff.1 hheld
  have hs := h.serial_eq u hu
  have hi' : List.findIdx? (fun x => x.2.id == l.id)
      (t.objects.getD (t.slots.getD u 0) default).links = some i := hi
  refine ⟨(t.setNode u ((t.node u).dropLink i)).setNode u
      { (t.node u).dropLink i with
        active := .int (if n = i then -1 else if (i : Int) < n then n - 1 else n) },
    ?_, _, Viewpoint.dropsFirst_of_findIdx? hi hact,
    (Replaced.setNode t u _).trans (Replaced.setNode _ u _)⟩
  simp only [detach, bind, EStateM.bind, get_run, hi']
  rw [show t.objects.getD (t.slots.getD u 0) default = t.node u from rfl]
  simp only [put_run, liftExcept, Viewpoint.shiftActive_int, Viewpoint.dropLink, hact, hs, pure,
    EStateM.pure, ViewpointTree.setNode]

end Stored

section removeLink

variable {t : ViewpointTree}

/-- A connection with an end outside the tree is refused before any change. -/
theorem removeLink_missing_end (h : Stored t) {l : Link}
    (hend : l.parent ∉ t.arena ∨ l.target ∉ t.arena) :
    removeLink l t = .error (.connectionEndMissing l.id) t := by
  simp only [removeLink, bind, EStateM.bind, MonadState.get, getThe, MonadStateOf.get,
    EStateM.get, Std.HashMap.get?_eq_getElem?]
  rcases hend with hp | hq
  · rw [h.getElem?_slots_eq_none hp]
    rfl
  · rw [h.getElem?_slots_eq_none hq]
    cases t.slots[l.parent]? <;> rfl

/-- A connection its parent does not hold is refused before any change, naming the parent. -/
theorem removeLink_not_held (h : Stored t) {l : Link} (hp : l.parent ∈ t.arena)
    (hq : l.target ∈ t.arena) (hnone : ∀ e ∈ (t.node l.parent).links, e.2.id ≠ l.id) :
    removeLink l t = .error (.connectionNotHeld l.parent l.id) t := by
  simp only [removeLink, bind, EStateM.bind, MonadState.get, getThe, MonadStateOf.get,
    EStateM.get, Std.HashMap.get?_eq_getElem?, h.getElem?_slots hp, h.getElem?_slots hq,
    h.detach_not_held hp l hnone]

/-- A connection that both ends hold, the target twice when it is also the parent, at
whole-number active places, is dropped once at the parent and then once at the target. -/
theorem removeLink_drops_first (h : Stored t) {l : Link} (hp : l.parent ∈ t.arena)
    (hq : l.target ∈ t.arena) {np nq : Int} (hap : (t.node l.parent).active = .int np)
    (haq : (t.node l.target).active = .int nq)
    (hheld : 0 < (t.node l.parent).links.countP (·.2.id == l.id))
    (hheld' : (if l.parent = l.target then 2 else 1) ≤
      (t.node l.target).links.countP (·.2.id == l.id)) :
    ∃ t₁ t₂, removeLink l t = .ok () t₂ ∧ DropAt l.id l.parent t t₁ ∧
      DropAt l.id l.target t₁ t₂ := by
  obtain ⟨t₁, hrun₁, w, hdrop, hrep⟩ := h.detach_drops_first hp l hap hheld
  have hs₁ : Stored t₁ := DropAt.stored h hp ⟨w, hdrop, hrep⟩
  -- the target as the first drop left it: the same node, or the parent just dropped once
  have hq₁ : t₁.node l.target = if l.target = l.parent then w else t.node l.target :=
    hrep.node_of_mem h hp hq
  obtain ⟨nq', haq'⟩ : ∃ n : Int, (t₁.node l.target).active = .int n := by
    rw [hq₁]
    split
    · exact hdrop.whole
    · exact ⟨nq, haq⟩
  have hheld₁ : 0 < (t₁.node l.target).links.countP (·.2.id == l.id) := by
    rw [hq₁]
    split
    · next hqp =>
      rw [hdrop.links, countP_eraseP, ← hqp]
      rw [if_pos hqp.symm] at hheld'
      omega
    · next hqp =>
      rw [if_neg (Ne.symm hqp)] at hheld'
      omega
  obtain ⟨t₂, hrun₂, hdrop₂⟩ := hs₁.detach_drops_first (hrep.arena ▸ hq) l haq' hheld₁
  refine ⟨t₁, t₂, ?_, ⟨w, hdrop, hrep⟩, hdrop₂⟩
  rw [hrep.slots] at hrun₂
  simp only [removeLink, bind, EStateM.bind, MonadState.get, getThe, MonadStateOf.get,
    EStateM.get, Std.HashMap.get?_eq_getElem?, h.getElem?_slots hp, h.getElem?_slots hq, hrun₁]
  exact hrun₂

/-- **Removing a connection.** On a stored tree, `removeLink` refuses a connection with an end
outside the tree, or one its parent does not hold, before any change; and it drops a connection
that both ends hold (the target twice when it is also the parent), at whole-number active
places, once at the parent and then once at the target: the first copy at each, the other
connections in order, the active connection the same or none when it was the one dropped, and
nothing else changed. -/
theorem removeLink_outcome (h : Stored t) (l : Link) :
    ((l.parent ∉ t.arena ∨ l.target ∉ t.arena) →
      removeLink l t = .error (.connectionEndMissing l.id) t) ∧
    (l.parent ∈ t.arena → l.target ∈ t.arena →
      (∀ e ∈ (t.node l.parent).links, e.2.id ≠ l.id) →
      removeLink l t = .error (.connectionNotHeld l.parent l.id) t) ∧
    (l.parent ∈ t.arena → l.target ∈ t.arena →
      (∃ n : Int, (t.node l.parent).active = .int n) →
      (∃ n : Int, (t.node l.target).active = .int n) →
      0 < (t.node l.parent).links.countP (·.2.id == l.id) →
      (if l.parent = l.target then 2 else 1) ≤ (t.node l.target).links.countP (·.2.id == l.id) →
      ∃ t₁ t₂, removeLink l t = .ok () t₂ ∧ DropAt l.id l.parent t t₁ ∧
        DropAt l.id l.target t₁ t₂) :=
  ⟨removeLink_missing_end h, removeLink_not_held h, fun hp hq ⟨_, hap⟩ ⟨_, haq⟩ hheld hheld' =>
    removeLink_drops_first h hp hq hap haq hheld hheld'⟩

end removeLink

section Samples

open LocalPlanner

theorem remove_leaf_link : leafTree.Stored ∧
    ∃ t₁ t₂, removeLink leafLink leafTree = .ok () t₂ ∧
      DropAt leafLink.id leafLink.parent leafTree t₁ ∧ DropAt leafLink.id leafLink.target t₁ t₂ := by
  have hs := leafTree_wf.linked.stored
  have h0 : leafTree.node leafLink.parent = leafRoot := by
    simp [node, leafTree, rootAndLeaf, leafLink, Std.HashMap.getD_insert]
  have h1 : leafTree.node leafLink.target = leaf := by
    simp [node, leafTree, rootAndLeaf, leafLink]
  refine ⟨hs, (removeLink_outcome hs leafLink).2.2 (by simp [leafTree, rootAndLeaf, leafLink])
    (by simp [leafTree, rootAndLeaf, leafLink]) ⟨-1, by rw [h0]; rfl⟩ ⟨0, by rw [h1]; rfl⟩
    (by rw [h0]; decide) (by rw [h1]; decide)⟩

/-- `leafTree` with its root, the parent of its one connection, holding that connection twice. -/
def doubledLeafTree : ViewpointTree :=
  leafTree.setNode 0 { leafRoot with links := [(true, leafLink), (true, leafLink)] }

/-- A parent holding a connection twice is no failure: removing the connection drops the first
copy and the root keeps the second. -/
theorem doubled_link_removed_once :
    (doubledLeafTree.node 0).links.countP (·.2.id == leafLink.id) = 2 ∧
      ∃ t', removeLink leafLink doubledLeafTree = .ok () t' ∧
        (t'.node 0).links = [(true, leafLink)] := by
  have hs₀ := leafTree_wf.linked.stored
  have hmem : ∀ id, id ∈ leafTree.arena ↔ id = 0 ∨ id = 1 := by simp [leafTree, rootAndLeaf]
  have hin0 : (0 : Int) ∈ leafTree.arena := (hmem 0).2 (.inl rfl)
  have hin1 : (1 : Int) ∈ leafTree.arena := (hmem 1).2 (.inr rfl)
  have h0 : leafTree.node 0 = leafRoot := by
    simp [node, leafTree, rootAndLeaf, Std.HashMap.getD_insert]
  have hs : doubledLeafTree.Stored :=
    hs₀.setNode hin0 (by rw [h0]) (by rw [h0])
  have hread : ∀ id ∈ leafTree.arena, doubledLeafTree.node id =
      if id = 0 then { leafRoot with links := [(true, leafLink), (true, leafLink)] }
      else leafTree.node id :=
    fun id hid => hs₀.node_setNode hin0 hid _
  have hd0 := hread 0 hin0
  have hd1 := hread 1 hin1
  rw [if_pos rfl] at hd0
  rw [if_neg (by decide), show leafTree.node 1 = leaf by simp [node, leafTree, rootAndLeaf]] at hd1
  refine ⟨by rw [hd0]; decide, ?_⟩
  obtain ⟨t₁, t₂, hrun, ⟨w, hw, hrep⟩, ⟨w', -, hrep'⟩⟩ :=
    removeLink_drops_first hs (l := leafLink) hin0 hin1
      (show (doubledLeafTree.node leafLink.parent).active = .int (-1) by
        rw [show leafLink.parent = 0 from rfl, hd0]; rfl)
      (show (doubledLeafTree.node leafLink.target).active = .int 0 by
        rw [show leafLink.target = 1 from rfl, hd1]; rfl)
      (by rw [show leafLink.parent = 0 from rfl, hd0]; decide)
      (by rw [show leafLink.target = 1 from rfl, hd1]; decide)
  -- the root is dropped once at the parent step, and the target step leaves it alone
  have hroot : t₂.node 0 = w := by
    rw [hrep'.node_of_mem (DropAt.stored hs hin0 ⟨w, hw, hrep⟩) (hrep.arena ▸ hin1)
        (hrep.arena ▸ hin0),
      if_neg (by decide), hrep.node_of_mem hs hin0 hin0,
      if_pos (show (0 : Int) = leafLink.parent from rfl)]
  refine ⟨t₂, hrun, ?_⟩
  rw [hroot, hw.links, show leafLink.parent = 0 from rfl, hd0]
  rfl

end Samples

end ViewpointTree

end Exploration
