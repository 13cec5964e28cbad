import Mathlib
import Exploration.Proofs.TreeRead

/-!
# Editing the viewpoint tree in place

A viewpoint of the tree is changed through its identity (`update`, `put`): the tree then reads
the new viewpoint at that node and the old ones elsewhere (`Stored.node_setNode`). Two kinds of
change keep the tree well formed:

* a change of gain, value or active connection keeps the nodes, connections, index and root
  (`sameLinks_setNode`), and a change of gain or value keeps every chain (`TreeWF.of_sameLinks`);
* dropping connections at both ends (`removeLink`) keeps the nodes, index and root, and leaves
  each viewpoint its other connections in order (`Trim`); the connections left are still held at
  both ends (`Trim.linked`).

Main statements: `Stored.update_node_run`, `Linked.removeLink_run`.
-/

namespace Exploration

/-- A viewpoint with its connections of id `k` dropped, and the active value `a`. -/
def Viewpoint.cutLinks (v : Viewpoint) (k : Nat) (a : Value) : Viewpoint :=
  { v with links := v.links.filter (·.2.id != k), active := a }

namespace ViewpointTree

/-- The tree with the viewpoint of node `u` replaced by `w`, stored under `u`'s identity. -/
def setNode (t : ViewpointTree) (u : Int) (w : Viewpoint) : ViewpointTree :=
  { t with objects := t.objects.insert (t.slots.getD u 0) w }

section setNode

variable (t : ViewpointTree) (u : Int) (w : Viewpoint)

@[simp] theorem setNode_arena : (t.setNode u w).arena = t.arena := rfl
@[simp] theorem setNode_slots : (t.setNode u w).slots = t.slots := rfl
@[simp] theorem setNode_index : (t.setNode u w).index = t.index := rfl
@[simp] theorem setNode_root : (t.setNode u w).root = t.root := rfl
@[simp] theorem setNode_nextNode : (t.setNode u w).nextNode = t.nextNode := rfl
@[simp] theorem setNode_nextLink : (t.setNode u w).nextLink = t.nextLink := rfl
@[simp] theorem setNode_fresh : (t.setNode u w).fresh = t.fresh := rfl

@[simp] theorem node_setNode_self : (t.setNode u w).node u = w := by
  simp [setNode, node]

end setNode

namespace Stored

variable {t : ViewpointTree} (h : Stored t)
include h

/-- Distinct nodes have distinct identities. -/
theorem slot_inj' {a b : Int} (ha : a ∈ t.arena) (hb : b ∈ t.arena)
    (hab : t.slots.getD a 0 = t.slots.getD b 0) : a = b := by
  have hnode : t.node a = t.node b := by simp only [node, hab]
  rw [← h.id_eq a ha, ← h.id_eq b hb, hnode]

/-- Replacing the viewpoint of node `u` changes no other node. -/
theorem node_setNode {u id : Int} (hu : u ∈ t.arena) (hid : id ∈ t.arena) (w : Viewpoint) :
    (t.setNode u w).node id = if id = u then w else t.node id := by
  rw [setNode, node_insert]
  by_cases hiu : id = u
  · simp [hiu]
  · simp only [hiu, if_false, ite_eq_right_iff]
    intro hs
    exact absurd (h.slot_inj' hid hu hs) hiu

/-- Changing the viewpoint of a node through its identity, the identity kept. -/
theorem update_node_run {u : Int} (hu : u ∈ t.arena) (f : Viewpoint → Viewpoint)
    (hf : (f (t.node u)).serial = (t.node u).serial) :
    update (t.slots.getD u 0) f t = .ok () (t.setNode u (f (t.node u))) := by
  have hs : (f (t.objects.getD (t.slots.getD u 0) default)).serial = t.slots.getD u 0 :=
    hf.trans (h.serial_eq u hu)
  rw [ViewpointTree.update_run, put_run, hs]
  rfl

/-- Putting a viewpoint that keeps a node's identity and id keeps the tree stored. -/
theorem setNode {u : Int} (hu : u ∈ t.arena) {w : Viewpoint} (hs : w.serial = (t.node u).serial)
    (hi : w.id = (t.node u).id) : Stored (t.setNode u w) where
  nodup := h.nodup
  contains_iff := h.contains_iff
  serial_eq id hid := by
    rw [h.node_setNode hu hid]
    split
    · subst id
      rw [hs, h.serial_eq _ hu]
      rfl
    · exact h.serial_eq id hid
  id_eq id hid := by
    rw [h.node_setNode hu hid]
    split
    · subst id
      rw [hi, h.id_eq _ hu]
    · exact h.id_eq id hid

/-- A viewpoint in the same place keeps the nodes, connections, index and root. -/
theorem sameLinks_setNode {u : Int} (hu : u ∈ t.arena) {w : Viewpoint}
    (hw : (t.node u).SamePlace w) : SameLinks t (t.setNode u w) where
  arena := rfl
  slots := rfl
  index := rfl
  root := rfl
  nextNode := rfl
  nextLink := rfl
  fresh := le_rfl
  place id hid := by
    rw [h.node_setNode hu hid]
    split
    · subst id
      exact hw
    · exact Viewpoint.SamePlace.refl _

end Stored

/-- A tree in the same shape whose active values are the same is well formed: the chains are the
same chains. -/
theorem TreeWF.of_sameLinks {t t' : ViewpointTree} (ht : TreeWF t) (h : SameLinks t t')
    (hactive : ∀ id ∈ t.arena, (t'.node id).active = (t.node id).active) : TreeWF t' := by
  refine ⟨h.linked ht.linked fun id hid => ?_, h.oneRoot ht.oneRoot, h.indexed ht.indexed,
    fun id hid => ?_⟩
  · rw [hactive id hid]
    exact ht.linked.active_int id hid
  · rw [h.arena] at hid
    obtain ⟨k, hk⟩ := ht.reaches id hid
    refine ⟨k, hk.transfer (fun w hw _ => h.arena ▸ hw) (fun w hw _ => (h.place w hw).isRoot)
      fun w hw _ _ => ?_⟩
    exact (h.place w hw).activeTarget? (hactive w hw)

/-! ## Dropping connections -/

/-- `t'` is `t` with the connections that `keep` refuses dropped at both ends: the same nodes,
index and counters, each viewpoint unchanged but for its connections, of which the kept ones
stay in order, and its active value, a whole number. -/
structure Trim (t t' : ViewpointTree) (keep : Link → Bool) : Prop where
  arena : t'.arena = t.arena
  slots : t'.slots = t.slots
  index : t'.index = t.index
  root : t'.root = t.root
  nextNode : t'.nextNode = t.nextNode
  nextLink : t'.nextLink = t.nextLink
  fresh : t'.fresh = t.fresh
  node : ∀ id ∈ t.arena, t'.node id =
    { t.node id with links := (t.node id).links.filter (keep ·.2), active := (t'.node id).active }
  active_int : ∀ id ∈ t.arena, ∃ n : Int, (t'.node id).active = .int n

namespace Trim

variable {t t' t'' : ViewpointTree} {keep keep' : Link → Bool}

theorem links (h : Trim t t' keep) {id : Int} (hid : id ∈ t.arena) :
    (t'.node id).links = (t.node id).links.filter (keep ·.2) := by
  rw [h.node id hid]

theorem refl (ht : ∀ id ∈ t.arena, ∃ n : Int, (t.node id).active = .int n) :
    Trim t t fun _ => true where
  arena := rfl
  slots := rfl
  index := rfl
  root := rfl
  nextNode := rfl
  nextLink := rfl
  fresh := rfl
  node id _ := by simp
  active_int := ht

theorem trans (h₁ : Trim t t' keep) (h₂ : Trim t' t'' keep') :
    Trim t t'' fun l => keep l && keep' l where
  arena := h₂.arena.trans h₁.arena
  slots := h₂.slots.trans h₁.slots
  index := h₂.index.trans h₁.index
  root := h₂.root.trans h₁.root
  nextNode := h₂.nextNode.trans h₁.nextNode
  nextLink := h₂.nextLink.trans h₁.nextLink
  fresh := h₂.fresh.trans h₁.fresh
  node id hid := by
    rw [h₂.node id (h₁.arena ▸ hid), h₁.node id hid]
    simp [List.filter_filter, Bool.and_comm]
  active_int id hid := h₂.active_int id (h₁.arena ▸ hid)

/-- Dropping connections at both ends keeps the connections well formed: a connection kept is
still held at its other end, since `keep` reads only the connection. -/
theorem linked (ht : Linked t) (h : Trim t t' keep) : Linked t' where
  nodup := h.arena ▸ ht.nodup
  contains_iff id := by rw [h.slots, h.arena]; exact ht.contains_iff id
  serial_eq id hid := by
    rw [h.arena] at hid
    rw [h.node id hid, h.slots]
    exact ht.serial_eq id hid
  id_eq id hid := by
    rw [h.arena] at hid
    rw [h.node id hid]
    exact ht.id_eq id hid
  slot_lt id hid := by
    rw [h.arena] at hid
    rw [h.slots, h.fresh]
    exact ht.slot_lt id hid
  id_range id hid := by
    rw [h.arena] at hid
    rw [h.nextNode]
    exact ht.id_range id hid
  active_int id hid := h.active_int id (h.arena ▸ hid)
  holds id hid e he := by
    rw [h.arena] at hid
    rw [h.links hid, List.mem_filter] at he
    have hh := ht.holds id hid e he.1
    refine ⟨hh.near, h.arena ▸ hh.far_mem, hh.far_ne, ?_, h.nextLink ▸ hh.id_lt⟩
    rw [h.links hh.far_mem, List.mem_filter]
    exact ⟨hh.mirror, he.2⟩
  same_id a ha b hb e he e' he' := by
    rw [h.arena] at ha hb
    rw [h.links ha, List.mem_filter] at he
    rw [h.links hb, List.mem_filter] at he'
    exact ht.same_id a ha b hb e he.1 e' he'.1
  far_nodup id hid := by
    rw [h.arena] at hid
    rw [h.links hid]
    exact (ht.far_nodup id hid).sublist ((List.filter_sublist).map _)

/-- Dropping connections at both ends keeps them held at both ends. -/
theorem symmetric (ht : Symmetric t) (h : Trim t t' keep) : Symmetric t' where
  nodup := h.arena ▸ ht.nodup
  contains_iff id := by rw [h.slots, h.arena]; exact ht.contains_iff id
  serial_eq id hid := by
    rw [h.arena] at hid
    rw [h.node id hid, h.slots]
    exact ht.serial_eq id hid
  id_eq id hid := by
    rw [h.arena] at hid
    rw [h.node id hid]
    exact ht.id_eq id hid
  active_int id hid := h.active_int id (h.arena ▸ hid)
  near id hid e he := by
    rw [h.arena] at hid
    rw [h.links hid, List.mem_filter] at he
    exact ht.near id hid e he.1
  far_mem id hid e he := by
    rw [h.arena] at hid
    rw [h.links hid, List.mem_filter] at he
    exact h.arena ▸ ht.far_mem id hid e he.1
  mirror id hid e he := by
    rw [h.arena] at hid
    rw [h.links hid, List.mem_filter] at he
    rw [h.links (ht.far_mem id hid e he.1), List.mem_filter]
    exact ⟨ht.mirror id hid e he.1, he.2⟩

/-- Dropping no connection keeps the tree in the same shape. -/
theorem sameLinks (h : Trim t t' fun _ => true) : SameLinks t t' where
  arena := h.arena
  slots := h.slots
  index := h.index
  root := h.root
  nextNode := h.nextNode
  nextLink := h.nextLink
  fresh := h.fresh.ge
  place id hid := by
    rw [h.node id hid]
    exact ⟨rfl, rfl, rfl, rfl, by simp⟩

/-- Dropping no connection keeps the nodes joined to a root. -/
theorem joinedIn_iff (h : Trim t t' fun _ => true) {S : Int → Prop} {x : Int} :
    JoinedIn t' S x ↔ JoinedIn t S x := by
  refine ⟨fun hx => ?_, h.sameLinks.joinedIn⟩
  induction hx with
  | root hid hS hr =>
    rw [h.arena] at hid
    rw [h.node _ hid] at hr
    exact .root hid hS hr
  | @step id e hid hS he _ ih =>
    rw [h.arena] at hid
    have hlinks : (t'.node id).links = (t.node id).links := by simp [h.links hid]
    exact .step hid hS (hlinks ▸ he) ih

theorem oneRoot (ht : OneRoot t) (h : Trim t t' keep) : OneRoot t' := by
  obtain ⟨r, hr, hroot, hflag⟩ := ht
  refine ⟨r, h.arena ▸ hr, by rw [h.root, h.slots]; exact hroot, fun id hid => ?_⟩
  rw [h.arena] at hid
  rw [h.node id hid]
  exact hflag id hid

theorem indexed (ht : Indexed t) (h : Trim t t' keep) : Indexed t' := by
  refine ⟨h.index ▸ ht.wf, ?_⟩
  rw [h.index, ht.entries, h.arena]
  refine List.map_congr_left fun id hid => ?_
  rw [h.node id hid]
  rfl

end Trim

/-- Erasing the first connection of an id, in a list where ids are distinct, keeps the others. -/
theorem eraseIdx_findIdx?_eq_filter {k i : Nat} :
    ∀ {l : List (Bool × Link)}, (l.map (·.2.id)).Nodup →
      l.findIdx? (fun e => e.2.id == k) = some i → l.eraseIdx i = l.filter (·.2.id != k)
  | [], _, hi => by simp at hi
  | e :: l, hnd, hi => by
    rw [List.map_cons, List.nodup_cons] at hnd
    by_cases he : e.2.id = k
    · rw [List.findIdx?_cons, if_pos (by simpa using he)] at hi
      cases hi
      -- no other connection has the id `k`
      have hrest : l.filter (·.2.id != k) = l := by
        rw [List.filter_eq_self]
        intro x hx
        simp only [bne_iff_ne, ne_eq]
        rintro rfl
        exact hnd.1 (he ▸ List.mem_map_of_mem hx)
      simp [he, hrest]
    · rw [List.findIdx?_cons, if_neg (by simpa using he)] at hi
      obtain ⟨j, hj, rfl⟩ := Option.map_eq_some_iff.1 hi
      simp [he, eraseIdx_findIdx?_eq_filter hnd.2 hj]

namespace Stored

variable {t : ViewpointTree} (h : Stored t)
include h

/-- Dropping connection `l` at node `p`, which holds it once: the viewpoint keeps its other
connections in order and gets a whole-number active value. -/
theorem detach_run {p : Int} (hp : p ∈ t.arena) (l : Link) {n : Int}
    (hact : (t.node p).active = .int n) (hnd : ((t.node p).links.map (·.2.id)).Nodup)
    (hmem : ∃ e ∈ (t.node p).links, e.2.id = l.id) :
    ∃ m : Int, detach (t.slots.getD p 0) l t = .ok ()
      ((t.setNode p ((t.node p).cutLinks l.id (t.node p).active)).setNode p
        ((t.node p).cutLinks l.id (.int m))) := by
  obtain ⟨i, hi⟩ : ∃ i, (t.node p).links.findIdx? (fun e => e.2.id == l.id) = some i := by
    obtain ⟨e, he, hid⟩ := hmem
    cases hf : (t.node p).links.findIdx? (fun e => e.2.id == l.id) with
    | none =>
      rw [List.findIdx?_eq_none_iff] at hf
      have := hf e he
      simp [hid] at this
    | some i => exact ⟨i, rfl⟩
  have herase := eraseIdx_findIdx?_eq_filter hnd hi
  -- the active place after the drop, a whole number
  obtain ⟨m, hm⟩ : ∃ m : Int, Viewpoint.shiftActive (Value.int n) i = .ok (.int m) := by
    by_cases hni : n = i
    · exact ⟨-1, by simp [Viewpoint.shiftActive, hni, pure, Except.pure]⟩
    · by_cases hlt : (i : Int) < n
      · exact ⟨n - 1, by simp [Viewpoint.shiftActive, hni, hlt, bind, Except.bind, Value.pred]⟩
      · exact ⟨n, by simp [Viewpoint.shiftActive, hni, hlt, bind, Except.bind, pure,
          Except.pure]⟩
  refine ⟨m, ?_⟩
  have hs := h.serial_eq p hp
  have hi' : List.findIdx? (fun x => x.2.id == l.id)
      (t.objects.getD (t.slots.getD p 0) default).links = some i := hi
  simp only [detach, bind, EStateM.bind, get_run, hi']
  rw [show t.objects.getD (t.slots.getD p 0) default = t.node p from rfl]
  simp only [put_run, Viewpoint.dropLink, hact, hm, herase, liftExcept, Viewpoint.cutLinks, hs]
  rfl

/-- Replacing a node's viewpoint twice reads the second one there and the old ones elsewhere. -/
theorem node_setNode_setNode {u id : Int} (hu : u ∈ t.arena) (hid : id ∈ t.arena) {w w' : Viewpoint}
    (hs : w.serial = (t.node u).serial) (hi : w.id = (t.node u).id) :
    ((t.setNode u w).setNode u w').node id = if id = u then w' else t.node id := by
  rw [(h.setNode hu hs hi).node_setNode hu hid, h.node_setNode hu hid]
  split <;> rfl

/-- Pointing a node at a new place, where every active value is a whole number, drops no
connection and changes nothing but that active value. -/
theorem trim_setActive {u : Int} (hu : u ∈ t.arena)
    (hint : ∀ id ∈ t.arena, ∃ n : Int, (t.node id).active = .int n) (i : Int) :
    Trim t (t.setNode u { t.node u with active := .int i }) fun _ => true where
  arena := rfl
  slots := rfl
  index := rfl
  root := rfl
  nextNode := rfl
  nextLink := rfl
  fresh := rfl
  node id hid := by
    rw [h.node_setNode hu hid]
    split
    · subst id
      simp
    · simp
  active_int id hid := by
    rw [h.node_setNode hu hid]
    split
    · exact ⟨i, rfl⟩
    · exact hint id hid

end Stored

namespace Linked

variable {t : ViewpointTree} (h : Linked t)
include h

/-- A node other than the two ends of a held connection holds no connection of its id. -/
theorem filter_links_of_ne {a : Int} (ha : a ∈ t.arena) {e : Bool × Link}
    (he : e ∈ (t.node a).links) {id : Int} (hid : id ∈ t.arena) (hp : id ≠ e.2.parent)
    (hq : id ≠ e.2.target) :
    (t.node id).links.filter (·.2.id != e.2.id) = (t.node id).links := by
  rw [List.filter_eq_self]
  intro e' he'
  simp only [bne_iff_ne, ne_eq]
  intro hsame
  have hl := h.same_id id hid a ha e' he' e he hsame
  have hn := (h.holds id hid e' he').near
  obtain ⟨b, l⟩ := e'
  dsimp only at hl
  subst hl
  cases b
  · exact hq hn.symm
  · exact hp hn.symm

/-- Dropping connection `l`, held at its two ends and nowhere else. -/
theorem removeLink_run_of {l : Link} (hp : l.parent ∈ t.arena) (hq : l.target ∈ t.arena)
    (hpq : l.parent ≠ l.target) (hlp : ∃ e ∈ (t.node l.parent).links, e.2 = l)
    (hlq : ∃ e ∈ (t.node l.target).links, e.2 = l)
    (hother : ∀ id ∈ t.arena, id ≠ l.parent → id ≠ l.target →
      (t.node id).links.filter (·.2.id != l.id) = (t.node id).links) :
    ∃ t', removeLink l t = .ok () t' ∧ Trim t t' fun c => c.id != l.id := by
  have hs := h.stored
  obtain ⟨np, hnp⟩ := h.active_int _ hp
  obtain ⟨nq, hnq⟩ := h.active_int _ hq
  obtain ⟨m, hm⟩ := hs.detach_run hp l hnp (h.links_nodup_id hp)
    (by obtain ⟨e, he, rfl⟩ := hlp; exact ⟨e, he, rfl⟩)
  generalize hv₁ : (t.node l.parent).cutLinks l.id (t.node l.parent).active = v₁ at hm
  generalize hv₂ : (t.node l.parent).cutLinks l.id (.int m) = v₂ at hm
  -- after the first end, the tree reads the second end as before
  have hs₁ : Stored (t.setNode l.parent v₁) := hs.setNode hp (by rw [← hv₁]; rfl) (by rw [← hv₁]; rfl)
  have hs₂ : Stored ((t.setNode l.parent v₁).setNode l.parent v₂) :=
    hs₁.setNode hp (by rw [node_setNode_self, ← hv₁, ← hv₂]; rfl)
      (by rw [node_setNode_self, ← hv₁, ← hv₂]; rfl)
  have hread : ∀ id ∈ t.arena, ((t.setNode l.parent v₁).setNode l.parent v₂).node id =
      if id = l.parent then v₂ else t.node id :=
    fun id hid => hs.node_setNode_setNode hp hid (by rw [← hv₁]; rfl) (by rw [← hv₁]; rfl)
  have hq₁ := hread _ hq
  rw [if_neg (Ne.symm hpq)] at hq₁
  obtain ⟨m', hm'⟩ := hs₂.detach_run hq l (hq₁ ▸ hnq) (hq₁ ▸ h.links_nodup_id hq)
    (by obtain ⟨e, he, rfl⟩ := hlq; exact ⟨e, hq₁ ▸ he, rfl⟩)
  rw [hq₁] at hm'
  generalize hw₂ : (t.node l.target).cutLinks l.id (.int m') = w₂ at hm'
  have hread₂ : ∀ id ∈ t.arena,
      ((((t.setNode l.parent v₁).setNode l.parent v₂).setNode l.target
        ((t.node l.target).cutLinks l.id (t.node l.target).active)).setNode l.target w₂).node id =
        if id = l.target then w₂ else if id = l.parent then v₂ else t.node id := by
    intro id hid
    rw [hs₂.node_setNode_setNode hq hid (by rw [hq₁]; rfl) (by rw [hq₁]; rfl), hread id hid]
  refine ⟨?_, ?run, ?trim⟩
  case run =>
    simp only [removeLink, bind, EStateM.bind, MonadState.get, getThe, MonadStateOf.get,
      EStateM.get, Std.HashMap.get?_eq_getElem?, hs.getElem?_slots hp, hs.getElem?_slots hq, hm]
    exact hm'
  case trim =>
    refine ⟨by simp, by simp, by simp, by simp, by simp, by simp, by simp, fun id hid => ?_,
      fun id hid => ?_⟩
    · rw [hread₂ id hid]
      by_cases hidq : id = l.target
      · subst hidq
        simp [← hw₂, Viewpoint.cutLinks]
      · by_cases hidp : id = l.parent
        · subst hidp
          simp [hidq, ← hv₂, Viewpoint.cutLinks]
        · simp only [hidq, hidp, if_false, hother id hid hidp hidq]
    · rw [hread₂ id hid]
      by_cases hidq : id = l.target
      · exact ⟨m', by simp [hidq, ← hw₂, Viewpoint.cutLinks]⟩
      · by_cases hidp : id = l.parent
        · exact ⟨m, by simp [hidp, hpq, ← hv₂, Viewpoint.cutLinks]⟩
        · simp only [hidq, hidp, if_false]
          exact h.active_int id hid

/-- **Dropping a connection held in the tree** drops it at both of its ends and nowhere else. -/
theorem removeLink_run {a : Int} (ha : a ∈ t.arena) {e : Bool × Link}
    (he : e ∈ (t.node a).links) :
    ∃ t', removeLink e.2 t = .ok () t' ∧ Trim t t' fun c => c.id != e.2.id := by
  have hh := h.holds a ha e he
  have hother : ∀ id ∈ t.arena, id ≠ e.2.parent → id ≠ e.2.target →
      (t.node id).links.filter (·.2.id != e.2.id) = (t.node id).links :=
    fun _ hid hp hq => h.filter_links_of_ne ha he hid hp hq
  obtain ⟨b, l⟩ := e
  cases b
  · -- `a` is the target of `l`, its other end the parent
    have hn : l.target = a := hh.near
    have hf : l.parent = farEnd (false, l) := rfl
    refine h.removeLink_run_of (hf ▸ hh.far_mem) (hn ▸ ha) (by rw [hn, hf]; exact hh.far_ne)
      ⟨(true, l), hf ▸ hh.mirror, rfl⟩ ⟨(false, l), hn ▸ he, rfl⟩ hother
  · -- `a` is the parent of `l`, its other end the target
    have hn : l.parent = a := hh.near
    have hf : l.target = farEnd (true, l) := rfl
    refine h.removeLink_run_of (hn ▸ ha) (hf ▸ hh.far_mem) (by rw [hn, hf]; exact hh.far_ne.symm)
      ⟨(true, l), hn ▸ he, rfl⟩ ⟨(false, l), hf ▸ hh.mirror, rfl⟩ hother

end Linked

end ViewpointTree

end Exploration
