import Mathlib
import Exploration.Proofs.TreeRead

/-!
# The consistency check of the viewpoint tree

`ViewpointTree.check` is the tree's own test of its invariant: exactly one node is flagged root
and it is the recorded root; every connection a node holds starts or ends at it as its flag says
and is held by its other end; and the active chain of every node not flagged root reaches the
root, followed for at most one step more than there are nodes (a longer walk is reported as a
cycle).

Main statement: `TreeWF.check_passes`, the check passes on every well-formed tree, whether or not
it requires every chain to reach the root. The walk along a chain never runs out of steps because
a chain passes distinct nodes, so it is shorter than the arena (`ChainIn.lt_length`).
-/

namespace Exploration

namespace ViewpointTree

variable {t : ViewpointTree}

/-- Seen from the node that holds it, a connection's other end is its far end. -/
theorem Holds.otherEnd_eq {id : Int} {e : Bool × Link} (h : Holds t id e) :
    e.2.otherEnd id = farEnd e := by
  obtain ⟨b, l⟩ := e
  have hnear := h.near
  have hne := h.far_ne
  cases b <;> simp_all [Link.otherEnd, nearEnd, farEnd]

/-- The direction and the far end of each connection of a node pass the check. -/
theorem Linked.checkLinks_run (h : Linked t) {id : Int} (hid : id ∈ t.arena) :
    ∀ Ls : List (Bool × Link), (∀ e ∈ Ls, e ∈ (t.node id).links) →
      checkLinks (t.node id) Ls t = .ok () t
  | [], _ => rfl
  | (out, l) :: rest, hsub => by
    have hh := h.holds id hid (out, l) (hsub _ List.mem_cons_self)
    have hself : (t.node id).id = id := h.id_eq id hid
    -- the connection starts or ends here as its flag says
    have hown : (if out then l.parent else l.target) = (t.node id).id := by
      rw [hself]
      exact hh.near
    -- its other end is a node of the tree that holds it too
    have hfar : point? (l.otherEnd (t.node id).id) t = .ok (some (t.node (farEnd (out, l)))) t := by
      rw [hself, hh.otherEnd_eq]
      exact h.stored.point?_run hh.far_mem
    have hheld : ((t.node (farEnd (out, l))).links.any fun e => e.2.id == l.id) = true :=
      List.any_eq_true.2 ⟨_, hh.mirror, by simp⟩
    have hrest := h.checkLinks_run hid rest fun e he => hsub e (List.mem_cons_of_mem _ he)
    simp [checkLinks, hown, hfar, hheld, hrest, bind, EStateM.bind]

/-- **Following a chain.** From a node whose chain reaches the root in `k` steps, the walk with
more than `k` steps to spare reaches the root. -/
theorem Stored.climb_run (h : Stored t) (start : Viewpoint) {S : Int → Prop} {id : Int} {k : Nat}
    (hc : ChainIn t S id k) : ∀ fuel, k < fuel → climb start fuel (t.node id) t = .ok true t := by
  induction hc with
  | root _ _ hr =>
    intro fuel hfuel
    obtain ⟨f, rfl⟩ : ∃ f, fuel = f + 1 := ⟨fuel - 1, by omega⟩
    simp [climb, hr, pure, EStateM.pure]
  | step _ _ hr hp hchain ih =>
    intro fuel hfuel
    obtain ⟨f, rfl⟩ : ∃ f, fuel = f + 1 := ⟨fuel - 1, by omega⟩
    have hparent := h.parent?_run hr hp hchain.mem.1
    simp only [climb, hr, Bool.false_eq_true, if_false, bind, EStateM.bind, hparent]
    exact ih f (by omega)

/-- The chain of every node of a well-formed tree reaches the root within the walk's steps. -/
theorem TreeWF.chainReachesRoot_run (h : TreeWF t) {id : Int} (hid : id ∈ t.arena) :
    chainReachesRoot (t.node id) t = .ok true t := by
  obtain ⟨k, hk⟩ := h.reaches id hid
  simp only [chainReachesRoot, bind, EStateM.bind, size_run]
  exact h.linked.stored.climb_run _ hk _ (by have := hk.lt_length; omega)

/-- Every node of a list of nodes of a well-formed tree passes the check of its connections and
of its chain. -/
theorem TreeWF.checkPoints_run (h : TreeWF t) (requireAll : Bool) :
    ∀ ids : List Int, (∀ id ∈ ids, id ∈ t.arena) → checkPoints requireAll (ids.map t.node) t = .ok () t
  | [], _ => rfl
  | id :: ids, hids => by
    have hid := hids id List.mem_cons_self
    have hlinks := h.linked.checkLinks_run hid (t.node id).links fun _ he => he
    have hrest := h.checkPoints_run requireAll ids fun x hx => hids x (List.mem_cons_of_mem _ hx)
    cases hroot : (t.node id).isRoot
    · simp [checkPoints, hlinks, hroot, h.chainReachesRoot_run hid, hrest, bind, EStateM.bind]
    · simp [checkPoints, hlinks, hroot, hrest, bind, EStateM.bind]

/-- The nodes flagged root, read in arena order, are the one root. -/
theorem OneRoot.filter_isRoot {r : Int} (hnd : t.arena.Nodup) (hr : r ∈ t.arena)
    (hflag : ∀ id ∈ t.arena, (t.node id).isRoot = true ↔ id = r) :
    (t.arena.map t.node).filter (·.isRoot) = [t.node r] := by
  have hfilter : t.arena.filter (fun id => (t.node id).isRoot) = t.arena.filter (· == r) :=
    List.filter_congr fun id hid => Bool.eq_iff_iff.2 (by simpa using hflag id hid)
  rw [List.filter_map, Function.comp_def, hfilter, List.filter_beq,
    List.count_eq_one_of_mem hnd hr]
  rfl

/-- **The check passes on a well-formed tree**: the one node flagged root is the recorded root,
every connection is held at both ends with the right direction, and every active chain reaches
the root before the walk runs out. -/
theorem TreeWF.check_passes (h : TreeWF t) (requireAll : Bool) : check requireAll t = .ok () t := by
  obtain ⟨r, hr, hroot, hflag⟩ := h.oneRoot
  have hroots := OneRoot.filter_isRoot h.linked.nodup hr hflag
  have hserial : (t.node r).serial = t.slots.getD r 0 := h.linked.serial_eq r hr
  have hpoints := h.checkPoints_run requireAll t.arena fun _ hid => hid
  simp [check, hroots, hserial, hroot, hpoints, bind, EStateM.bind, MonadState.get, getThe,
    MonadStateOf.get, EStateM.get]

end ViewpointTree

end Exploration
