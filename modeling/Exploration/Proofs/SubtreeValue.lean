import Mathlib
import Exploration.Proofs.TreeRead
import Exploration.Proofs.FloatOrder

/-!
# The value of a viewpoint

The value of a viewpoint not flagged root is its best gain per cost: over the nodes whose active
chain passes through it (its subtree), the gain and the active-connection cost summed along each
node's chain up to the root, the root left out, and their ratio where the cost is positive. The
value is the largest of these ratios and `0`; the root's value is `0`.

`computeValue` gathers the sums above the viewpoint along its chain (`Gathered`), then walks its
subtree depth first with an explicit stack, each entry carrying the sums above it (`Down`). On a
tree whose connections are held at both ends, no two joining the same nodes, and whose chains
reach the root (`ViewpointTree.Forest`), the subtrees of the entries on the stack are apart from
each other and from the nodes already met (`Pending`): the walk meets every node of the subtree
once, and the check for a node met twice never fails.

Sums are floating-point sums in the order the walk takes them: from the parent up, then from the
viewpoint down. The largest is taken in the order of floats, where a ratio that is not a number
is above nothing (`Tops`).

`Down` reaches exactly the subtree (`Down.onChain`, `Forest.exists_down`), with one sum for each
node (`Forest.down_unique`); `Gathered` has one sum for each chain (`Gathered.unique`).

Main statement: `computeValue_subtree_best`.
-/

namespace Exploration

namespace Viewpoint

/-- The gain of a viewpoint and the cost of its active connection `l`, added to running sums. -/
def addSums (w : Viewpoint) (l : Link) (acc : Float × Float) : Float × Float :=
  (acc.1 + w.gain, acc.2 + l.cost)

end Viewpoint

namespace ViewpointTree

/-! ## Subtrees -/

namespace OnChain

variable {t : ViewpointTree} {a b x : Int}

/-- The chain from a node is one chain: of two nodes on it, one is on the other's chain. -/
theorem total (ha : OnChain t a x) (hb : OnChain t b x) : OnChain t a b ∨ OnChain t b a := by
  induction ha with
  | self => exact .inr hb
  | up hr hp hap ih =>
    cases hb with
    | self => exact .inl (.up hr hp hap)
    | up _ hp' hb =>
      rw [hp] at hp'
      cases hp'
      exact ih hb

/-- A node on the chain from `w`, other than `w`, is on the chain from `w`'s parent. -/
theorem of_ne {w p : Int} (h : OnChain t a w) (hne : a ≠ w)
    (hp : (t.node w).activeTarget? = .ok (some p)) : OnChain t a p := by
  cases h with
  | self => exact absurd rfl hne
  | up _ hp' h =>
    rw [hp] at hp'
    cases hp'
    exact h

end OnChain

namespace Forest

variable {t : ViewpointTree} (h : Forest t)
include h

theorem reaches_of_mem {id : Int} (hid : id ∈ t.arena) : ∃ k, ReachesRoot t id k := by
  cases hr : (t.node id).isRoot
  · exact h.reaches id hid hr
  · exact ⟨0, .root hid trivial hr⟩

/-- A child's parent is a node of the tree, and not the child: a node leading to itself would
have a chain one step longer than itself. -/
theorem parent_mem {x w : Int} (hc : IsChild t x w) : x ∈ t.arena ∧ w ≠ x := by
  obtain ⟨hw, hr, hp⟩ := hc
  obtain ⟨p, hp', hpm⟩ := h.exists_target hw hr
  rw [hp] at hp'
  cases hp'
  refine ⟨hpm, ?_⟩
  rintro rfl
  obtain ⟨k, hk⟩ := h.reaches w hw hr
  obtain ⟨j, rfl, hj⟩ := hk.parent hr hp
  have := hk.unique hj
  omega

/-- The subtree of a child lies in its parent's subtree, without the parent. -/
theorem onChain_of_child {x w y : Int} (hc : IsChild t x w) (hy : OnChain t w y) :
    OnChain t x y ∧ y ≠ x := by
  have hxw : OnChain t x w := .up hc.2.1 hc.2.2 .self
  refine ⟨hxw.trans hy, ?_⟩
  rintro rfl
  obtain ⟨hx, hne⟩ := h.parent_mem hc
  obtain ⟨k, hk⟩ := h.reaches_of_mem hx
  exact hne (OnChain.antisymm hy hxw hk)

/-- A child is not below another child of its parent. -/
theorem not_onChain_sibling {x k k' : Int} (hk : IsChild t x k) (hk' : IsChild t x k')
    (hne : k ≠ k') : ¬ OnChain t k k' := by
  intro hon
  -- `k` would be on the chain from `k'`'s parent `x`, and `x` is on the chain from `k`
  have hkx : OnChain t k x := hon.of_ne hne hk'.2.2
  obtain ⟨j, hj⟩ := h.reaches_of_mem hk.1
  exact (h.parent_mem hk).2 (OnChain.antisymm (.up hk.2.1 hk.2.2 .self) hkx hj).symm

/-- Two children of a node have no node in common below them. -/
theorem apart_of_children {x k k' y : Int} (hk : IsChild t x k) (hk' : IsChild t x k')
    (hne : k ≠ k') (hy : OnChain t k y) : ¬ OnChain t k' y := by
  intro hy'
  rcases hy.total hy' with hkk | hkk
  · exact h.not_onChain_sibling hk hk' hne hkk
  · exact h.not_onChain_sibling hk' hk (Ne.symm hne) hkk

end Forest

/-! ## Sums along chains -/

/-- `Gathered t id acc res`: `res` is `acc` with the gain and active-connection cost of each node
on the chain from `id` added, nearest first, up to the root, which is left out. -/
inductive Gathered (t : ViewpointTree) : Int → Float × Float → Float × Float → Prop
  | root {id : Int} {acc : Float × Float} : (t.node id).isRoot = true → Gathered t id acc acc
  | step {id p : Int} {l : Link} {acc res : Float × Float} : (t.node id).isRoot = false →
      (t.node id).activeLink? = .ok (some l) → (t.node id).activeTarget? = .ok (some p) →
      Gathered t p ((t.node id).addSums l acc) res → Gathered t id acc res

/-- The sums gathered along a chain are determined by its start. -/
theorem Gathered.unique {t : ViewpointTree} {id : Int} {acc res res' : Float × Float}
    (h : Gathered t id acc res) (h' : Gathered t id acc res') : res = res' := by
  induction h with
  | root hr =>
    cases h' with
    | root => rfl
    | step hr' => simp [hr] at hr'
  | step hr hl hp _ ih =>
    cases h' with
    | root hr' => simp [hr] at hr'
    | step _ hl' hp' h' =>
      rw [hl] at hl'
      rw [hp] at hp'
      cases hl'
      cases hp'
      exact ih h'

/-- `Down t v a x s`: node `x` is in the subtree of `v`, and `s` is `a` with the gain and
active-connection cost of each node from `v` down to `x` added, in that order. -/
inductive Down (t : ViewpointTree) (v : Int) (a : Float × Float) : Int → Float × Float → Prop
  | top {l : Link} : (t.node v).activeLink? = .ok (some l) → Down t v a v ((t.node v).addSums l a)
  | child {p w : Int} {s : Float × Float} {l : Link} : Down t v a p s → IsChild t p w →
      (t.node w).activeLink? = .ok (some l) → Down t v a w ((t.node w).addSums l s)

namespace Down

variable {t : ViewpointTree} {v k x : Int} {a b s : Float × Float}

/-- The nodes reached down from `v` are nodes of the tree whose chain passes through `v`. -/
theorem onChain (hv : v ∈ t.arena) (h : Down t v a x s) : x ∈ t.arena ∧ OnChain t v x := by
  induction h with
  | top => exact ⟨hv, .self⟩
  | child _ hc _ ih => exact ⟨hc.1, .up hc.2.1 hc.2.2 ih.2⟩

/-- Sums down from a child of `v` that starts from `v`'s sums are sums down from `v`. -/
theorem graft (hk : Down t k b x s) (hc : IsChild t v k) (hv : Down t v a v b) :
    Down t v a x s := by
  induction hk with
  | top hl => exact .child hv hc hl
  | child _ hc' hl ih => exact .child ih hc' hl

/-- Down from `v`: `v` itself, or down from one of its children, starting from `v`'s sums. -/
theorem iff_top {l : Link} (hl : (t.node v).activeLink? = .ok (some l)) :
    Down t v a x s ↔ (x = v ∧ s = (t.node v).addSums l a) ∨
      ∃ k, IsChild t v k ∧ Down t k ((t.node v).addSums l a) x s := by
  constructor
  · intro h
    induction h with
    | top hl' =>
      rw [hl] at hl'
      cases hl'
      exact .inl ⟨rfl, rfl⟩
    | child _ hc hl' ih =>
      rcases ih with ⟨rfl, rfl⟩ | ⟨k, hk, hdown⟩
      · exact .inr ⟨_, hc, .top hl'⟩
      · exact .inr ⟨k, hk, .child hdown hc hl'⟩
  · rintro (⟨rfl, rfl⟩ | ⟨k, hk, hdown⟩)
    · exact .top hl
    · exact hdown.graft hk (.top hl)

end Down

namespace Forest

variable {t : ViewpointTree} (h : Forest t)
include h

/-- Every node of the subtree of a node not flagged root is reached down from it. -/
theorem exists_down {v x : Int} (a : Float × Float) (hr : (t.node v).isRoot = false)
    (hv : v ∈ t.arena) (hx : x ∈ t.arena) (hon : OnChain t v x) : ∃ s, Down t v a x s := by
  induction hon with
  | self =>
    obtain ⟨p, hp, -⟩ := h.exists_target hv hr
    obtain ⟨e, -, hl, -⟩ := Viewpoint.activeLink?_of_target hp
    exact ⟨_, .top hl⟩
  | @up w p hwr hp _ ih =>
    obtain ⟨p', hp', hpm⟩ := h.exists_target hx hwr
    rw [hp] at hp'
    cases hp'
    obtain ⟨s, hs⟩ := ih hpm
    obtain ⟨e, -, hl, -⟩ := Viewpoint.activeLink?_of_target hp
    exact ⟨_, .child hs ⟨hx, hwr, hp⟩ hl⟩

/-- The sums down to a node are determined by the node: a node is reached down from `v` along one
path only, since a node reached from its own child would be below itself. -/
theorem down_unique {v x : Int} {a s s' : Float × Float} (hv : v ∈ t.arena)
    (hd : Down t v a x s) (hd' : Down t v a x s') : s = s' := by
  -- `v` is not the child of a node reached down from `v`
  have hnot : ∀ {p r}, Down t v a p r → ¬ IsChild t p v := by
    intro p r hp hc
    obtain ⟨hpm, hvp⟩ := hp.onChain hv
    obtain ⟨k, hk⟩ := h.reaches_of_mem hpm
    exact (h.parent_mem hc).2 (OnChain.antisymm hvp (.up hc.2.1 hc.2.2 .self) hk)
  induction hd generalizing s' with
  | top hl =>
    cases hd' with
    | top hl' =>
      rw [hl] at hl'
      cases hl'
      rfl
    | child hp hc _ => exact absurd hc (hnot hp)
  | child hp hc hl ih =>
    cases hd' with
    | top => exact absurd hc (hnot hp)
    | child hp' hc' hl' =>
      rw [hl] at hl'
      cases hl'
      have := hc.2.2.symm.trans hc'.2.2
      cases this
      rw [ih hp']

end Forest

/-- The tree once the value of node `u` is `b`. -/
def withValue (t : ViewpointTree) (u : Int) (b : Float) : ViewpointTree :=
  { t with objects := t.objects.insert (t.slots.getD u 0) { t.node u with value := b } }

/-- The sums gathered above node `u`: along the chain from its parent, starting from nothing. -/
def Above (t : ViewpointTree) (u : Int) (a : Float × Float) : Prop :=
  ∃ p, (t.node u).activeTarget? = .ok (some p) ∧ Gathered t p (0.0, 0.0) a

/-- The gain-per-cost ratios of the subtree of `v`, `a` gathered above `v`: for each node `x` whose
chain passes through `v`, the sums from `v` down to `x` added to `a`, where the cost is
positive. -/
def SubtreeRatio (t : ViewpointTree) (v : Int) (a : Float × Float) (y : Float) : Prop :=
  ∃ x ∈ t.arena, OnChain t v x ∧ ∃ s, Down t v a x s ∧ 0.0 < s.2 ∧ y = s.1 / s.2

end ViewpointTree

namespace LocalPlanner

open ViewpointTree

/-! ## The largest of a set of floats -/

/-- `b` is the largest of `best` and the floats of `P`: it is `best` or a float of `P` above
`best`, and no float of `P` is above it. A float that is not a number is above nothing. -/
def Tops (best : Float) (P : Float → Prop) (b : Float) : Prop :=
  (b = best ∨ (P b ∧ best < b)) ∧ ∀ y, P y → ¬ b < y

namespace Tops

variable {best b c : Float} {P Q : Float → Prop}

theorem of_none (h : ∀ y, ¬ P y) : Tops best P best :=
  ⟨.inl rfl, fun y hy => absurd hy (h y)⟩

theorem larger (best x : Float) : Tops best (· = x) (LocalPlanner.larger best x) := by
  unfold LocalPlanner.larger
  by_cases hx : best < x
  · rw [if_pos hx]
    exact ⟨.inr ⟨rfl, hx⟩, fun y hy => hy ▸ Float.not_lt_self x⟩
  · rw [if_neg hx]
    exact ⟨.inl rfl, fun y hy => hy ▸ hx⟩

/-- Taking the largest of `P`, then going on from it over `Q`, takes the largest of both. -/
theorem append (hP : Tops best P c) (hQ : Tops c Q b) : Tops best (fun y => P y ∨ Q y) b := by
  obtain ⟨hc, hcP⟩ := hP
  obtain ⟨hb, hbQ⟩ := hQ
  refine ⟨?_, ?_⟩
  · rcases hb with rfl | ⟨hQb, hcb⟩
    · rcases hc with rfl | ⟨hPc, hbc⟩
      · exact .inl rfl
      · exact .inr ⟨.inl hPc, hbc⟩
    · rcases hc with rfl | ⟨-, hbc⟩
      · exact .inr ⟨.inr hQb, hcb⟩
      · exact .inr ⟨.inr hQb, Float.lt_trans hbc hcb⟩
  · rintro y (hy | hy) hby
    · rcases hb with rfl | ⟨-, hcb⟩
      · exact hcP y hy hby
      · exact hcP y hy (Float.lt_trans hcb hby)
    · exact hbQ y hy hby

theorem congr (h : Tops best P b) (hPQ : ∀ y, P y ↔ Q y) : Tops best Q b := by
  obtain ⟨hb, hmax⟩ := h
  refine ⟨?_, fun y hy => hmax y ((hPQ y).2 hy)⟩
  rcases hb with rfl | ⟨hPb, hlt⟩
  · exact .inl rfl
  · exact .inr ⟨(hPQ b).1 hPb, hlt⟩

end Tops

/-! ## The depth-first walk -/

/-- The ratios a stack stands for: an entry `(w, a)` for those of the subtree of `w`, with `a`
gathered above `w`. -/
def StackRatio (t : ViewpointTree) (st : List (Int × Float × Float)) (y : Float) : Prop :=
  ∃ e ∈ st, SubtreeRatio t e.1 e.2 y

/-- What the walk keeps: the stack holds nodes of the tree not flagged root, whose subtrees are
apart from each other and from the nodes met, which are distinct nodes of the tree. -/
structure Pending (t : ViewpointTree) (seen : List Int) (st : List (Int × Float × Float)) :
    Prop where
  mem : ∀ e ∈ st, e.1 ∈ t.arena ∧ (t.node e.1).isRoot = false
  apart : st.Pairwise fun e f => ∀ x, OnChain t e.1 x → ¬ OnChain t f.1 x
  fresh : ∀ e ∈ st, ∀ x ∈ seen, ¬ OnChain t e.1 x
  nodup : seen.Nodup
  seen_mem : ∀ x ∈ seen, x ∈ t.arena

namespace Pending

variable {t : ViewpointTree} {seen : List Int} {w : Int} {a : Float × Float}
  {rest : List (Int × Float × Float)}

/-- The walk starts from one node of the tree, not flagged root, with nothing met. -/
theorem start (hw : w ∈ t.arena) (hr : (t.node w).isRoot = false) : Pending t [] [(w, a)] where
  mem e he := by
    rw [List.mem_singleton] at he
    exact he ▸ ⟨hw, hr⟩
  apart := List.pairwise_singleton _ _
  fresh _ _ _ hx := absurd hx List.not_mem_nil
  nodup := List.nodup_nil
  seen_mem _ hx := absurd hx List.not_mem_nil

/-- While the stack holds a node, fewer nodes were met than the tree has: the node on top was not
met, and the nodes met are distinct nodes of the tree. -/
theorem length_lt {e : Int × Float × Float} (hst : Pending t seen (e :: rest)) :
    seen.length < t.arena.length := by
  have hmem := hst.mem e (List.mem_cons_self ..)
  have hfresh : e.1 ∉ seen := fun he => hst.fresh e (List.mem_cons_self ..) e.1 he .self
  have hsub : (e.1 :: seen).Subperm t.arena := by
    refine (List.nodup_cons.2 ⟨hfresh, hst.nodup⟩).subperm fun x hx => ?_
    rcases List.mem_cons.1 hx with rfl | hx
    · exact hmem.1
    · exact hst.seen_mem x hx
  simpa using hsub.length_le

/-- **One step of the walk keeps `Pending`**: the top node is met, and its children, pushed in
its place, have subtrees apart from each other (distinct children) and inside the top's subtree
without the top. -/
theorem step (ht : t.Forest) (hst : Pending t seen ((w, a) :: rest)) (b : Float × Float) :
    Pending t (w :: seen) ((t.kidIds w).reverse.map (fun k => (k, b)) ++ rest) := by
  have hw := (hst.mem _ (List.mem_cons_self ..)).1
  have hkid : ∀ e ∈ (t.kidIds w).reverse.map (fun k => (k, b)), IsChild t w e.1 := by
    intro e he
    obtain ⟨k, hk, rfl⟩ := List.mem_map.1 he
    exact (ht.mem_kidIds hw).1 (List.mem_reverse.1 hk)
  have happ := List.pairwise_cons.1 hst.apart
  have hwfresh : ∀ x ∈ seen, ¬ OnChain t w x := hst.fresh _ (List.mem_cons_self ..)
  refine ⟨?_, ?_, ?_, ?_, ?_⟩
  · intro e he
    rcases List.mem_append.1 he with he | he
    · exact ⟨(hkid e he).1, (hkid e he).2.1⟩
    · exact hst.mem e (List.mem_cons_of_mem _ he)
  · refine List.pairwise_append.2 ⟨?_, happ.2, ?_⟩
    · rw [List.pairwise_map, List.pairwise_reverse]
      refine (ht.nodup_kidIds hw).imp_of_mem fun hk hk' hne x hx hx' => ?_
      exact ht.apart_of_children ((ht.mem_kidIds hw).1 hk') ((ht.mem_kidIds hw).1 hk)
        (Ne.symm hne) hx hx'
    · intro e he f hf x hx
      exact happ.1 f hf x (ht.onChain_of_child (hkid e he) hx).1
  · intro e he x hx
    rcases List.mem_append.1 he with hek | her
    · rcases List.mem_cons.1 hx with rfl | hx
      · exact fun hon => (ht.onChain_of_child (hkid e hek) hon).2 rfl
      · exact fun hon => hwfresh x hx (ht.onChain_of_child (hkid e hek) hon).1
    · rcases List.mem_cons.1 hx with rfl | hx
      · exact fun hon => happ.1 e her x .self hon
      · exact hst.fresh e (List.mem_cons_of_mem _ her) x hx
  · exact List.nodup_cons.2 ⟨fun hmem => hwfresh w hmem .self, hst.nodup⟩
  · intro x hx
    rcases List.mem_cons.1 hx with rfl | hx
    · exact hw
    · exact hst.seen_mem x hx

end Pending

/-- The ratios of a subtree: the top node's own, and those of its children's subtrees, starting
from the top node's sums. -/
theorem subtreeRatio_iff {t : ViewpointTree} (ht : t.Forest) {v : Int} {a : Float × Float}
    {l : Link} (hv : v ∈ t.arena) (hl : (t.node v).activeLink? = .ok (some l)) (y : Float) :
    SubtreeRatio t v a y ↔
      (0.0 < ((t.node v).addSums l a).2 ∧ y = ((t.node v).addSums l a).1 / ((t.node v).addSums l a).2) ∨
      ∃ k ∈ t.kidIds v, SubtreeRatio t k ((t.node v).addSums l a) y := by
  constructor
  · rintro ⟨x, hx, -, s, hd, hpos, rfl⟩
    rcases (Down.iff_top hl).1 hd with ⟨rfl, rfl⟩ | ⟨k, hk, hdk⟩
    · exact .inl ⟨hpos, rfl⟩
    · exact .inr ⟨k, (ht.mem_kidIds hv).2 hk, x, hx, (hdk.onChain hk.1).2, s, hdk, hpos, rfl⟩
  · rintro (⟨hpos, rfl⟩ | ⟨k, hk, x, hx, hkx, s, hdk, hpos, rfl⟩)
    · exact ⟨v, hv, .self, _, .top hl, hpos, rfl⟩
    · have hc := (ht.mem_kidIds hv).1 hk
      exact ⟨x, hx, (ht.onChain_of_child hc hkx).1, s, hdk.graft hc (.top hl), hpos, rfl⟩

variable {t : ViewpointTree} {r : LocalRun}

/-- A computation that only reads the tree runs on the planner's tree and changes nothing. -/
theorem onTree_read {α : Type} {act : TreeM α} {x : α} (hr : r.planner.tree = t)
    (h : act t = .ok x t) : onTree act r = .ok x r := by
  subst hr
  simp only [onTree, h]

/-- One step of the walk, on a node of the tree not met before. -/
theorem spread_step (ht : t.Forest) (hr : r.planner.tree = t) {best : Float} {fuel : Nat}
    {seen : List Int} {w : Int} {g c : Float} {rest : List (Viewpoint × Float × Float)} {l : Link}
    (hw : w ∈ t.arena) (hseen : w ∉ seen) (hl : (t.node w).activeLink? = .ok (some l)) :
    spread best (fuel + 1) seen ((t.node w, g, c) :: rest) r =
      spread (if 0.0 < c + l.cost then larger best ((g + (t.node w).gain) / (c + l.cost)) else best)
        fuel (w :: seen)
        (((t.kidIds w).map t.node).foldl
          (fun st child => (child, g + (t.node w).gain, c + l.cost) :: st) rest) r := by
  have hid : (t.node w).id = w := ht.id_eq w hw
  simp [spread, hid, hseen, hl, lift, onTree_read hr (ht.children_run hw), bind, EStateM.bind,
    pure, EStateM.pure]

/-- **The walk**: from a stack kept by `Pending`, with fuel for every node not yet met, the walk
succeeds, changes nothing, and returns the largest of `best` and the ratios the stack stands
for. -/
theorem spread_run (ht : t.Forest) (hr : r.planner.tree = t) (fuel : Nat) :
    ∀ (best : Float) (seen : List Int) (st : List (Int × Float × Float)),
      Pending t seen st → t.arena.length < fuel + seen.length →
      ∃ b, spread best fuel seen (st.map fun e => (t.node e.1, e.2)) r = .ok b r ∧
        Tops best (StackRatio t st) b := by
  induction fuel with
  | zero =>
    intro best seen st hst hlen
    cases st with
    | nil => exact ⟨best, rfl, .of_none (by simp [StackRatio])⟩
    | cons e rest =>
      have := hst.length_lt
      omega
  | succ fuel ih =>
    intro best seen st hst hlen
    cases st with
    | nil => exact ⟨best, rfl, .of_none (by simp [StackRatio])⟩
    | cons e rest =>
      obtain ⟨w, acc⟩ := e
      obtain ⟨hw, hwr⟩ := hst.mem _ (List.mem_cons_self ..)
      have hseen : w ∉ seen := fun hmem => hst.fresh _ (List.mem_cons_self ..) w hmem .self
      obtain ⟨p, hp, -⟩ := ht.exists_target hw hwr
      obtain ⟨e, -, hl, -⟩ := Viewpoint.activeLink?_of_target hp
      -- the sums at `w`, the best after `w`, and the stack once `w`'s children are pushed
      set a' := (t.node w).addSums e.2 acc with ha'
      set best' := if 0.0 < a'.2 then larger best (a'.1 / a'.2) else best
      set st' := (t.kidIds w).reverse.map (fun k => (k, a')) ++ rest
      obtain ⟨b, hrun, htops⟩ := ih best' (w :: seen) st' (hst.step ht a')
        (by simp only [List.length_cons]; omega)
      refine ⟨b, ?_, ?_⟩
      · have hpush : ((t.kidIds w).map t.node).foldl
            (fun st child => (child, acc.1 + (t.node w).gain, acc.2 + e.2.cost) :: st)
            (rest.map fun e => (t.node e.1, e.2)) = st'.map fun e => (t.node e.1, e.2) := by
          rw [List.foldl_flip_cons_eq_append]
          simp only [st', List.map_append, List.map_reverse, List.map_map]
          rfl
        rw [List.map_cons, spread_step ht hr hw hseen hl, hpush]
        exact hrun
      · have hown : Tops best (fun y => 0.0 < a'.2 ∧ y = a'.1 / a'.2) best' := by
          by_cases hpos : 0.0 < a'.2
          · simp only [best', if_pos hpos]
            exact (Tops.larger best _).congr fun y => by simp [hpos]
          · simp only [best', if_neg hpos]
            exact .of_none fun y hy => hpos hy.1
        have hsplit : ∀ y, StackRatio t ((w, acc) :: rest) y ↔
            SubtreeRatio t w acc y ∨ StackRatio t rest y := by
          intro y
          simp [StackRatio]
        have hsplit' : ∀ y, StackRatio t st' y ↔
            (∃ k ∈ t.kidIds w, SubtreeRatio t k a' y) ∨ StackRatio t rest y := by
          intro y
          simp only [StackRatio, st', List.mem_append, List.mem_map, List.mem_reverse, or_and_right,
            exists_or, exists_exists_and_eq_and]
        refine (hown.append htops).congr fun y => ?_
        rw [hsplit, hsplit', subtreeRatio_iff ht hw hl, or_assoc]

/-- **Gathering up the chain**: from a node whose chain reaches the root in `k` steps, with fuel
and room for `k` more steps, `gather` succeeds, changes nothing, and returns the sums
`Gathered` along the chain. -/
theorem gather_run (ht : t.Forest) (hr : r.planner.tree = t) (v : Viewpoint) (n : Nat) {w : Int}
    {k : Nat} (hw : ReachesRoot t w k) :
    ∀ (fuel steps : Nat) (acc : Float × Float), k < fuel → steps + k ≤ n →
      ∃ res, Gathered t w acc res ∧
        gather v n fuel steps (some (t.node w)) acc.1 acc.2 r = .ok res r := by
  induction hw with
  | root _ _ hroot =>
    intro fuel steps acc hk _
    obtain ⟨fuel, rfl⟩ : ∃ f, fuel = f + 1 := ⟨fuel - 1, by omega⟩
    exact ⟨acc, .root hroot, by simp [gather, hroot, pure, EStateM.pure]⟩
  | @step id p k _ _ hroot hp hchain ih =>
    intro fuel steps acc hk hn
    obtain ⟨fuel, rfl⟩ : ∃ f, fuel = f + 1 := ⟨fuel - 1, by omega⟩
    obtain ⟨e, -, hl, -⟩ := Viewpoint.activeLink?_of_target hp
    obtain ⟨res, hres, hrun⟩ :=
      ih fuel (steps + 1) ((t.node id).addSums e.2 acc) (by omega) (by omega)
    refine ⟨res, .step hroot hl hp hres, ?_⟩
    have hpar := onTree_read hr (ht.parent?_run hroot hp hchain.mem.1)
    have hsteps : ¬ steps + 1 > n := by omega
    simp [gather, hroot, hl, lift, hpar, hsteps, bind, EStateM.bind, pure, EStateM.pure]
    exact hrun

/-- **The value of a viewpoint.** On a tree whose connections are held at both ends, no two
joining the same nodes, and whose chains reach the root, computing the value of a node succeeds,
records it in the node and changes nothing else: the root's value is `0`, and any other node's
is the largest of `0` and the gain-per-cost ratios of its subtree, the sums above it gathered
from its parent up. -/
theorem computeValue_subtree_best {t : ViewpointTree} (ht : t.Forest) {u : Int}
    (hu : u ∈ t.arena) (r : LocalRun) (hr : r.planner.tree = t) :
    ∃ b, computeValue (t.slots.getD u 0) r =
        .ok b { r with planner := { r.planner with tree := t.withValue u b } } ∧
      ((t.node u).isRoot = true → b = 0.0) ∧
      ((t.node u).isRoot = false → ∃ a, Above t u a ∧ Tops 0.0 (SubtreeRatio t u a) b) := by
  have hget : onTree (ViewpointTree.get (t.slots.getD u 0)) r = .ok (t.node u) r :=
    onTree_read hr rfl
  have hupdate : ∀ b, onTree (ViewpointTree.update (t.slots.getD u 0)
      fun v => { v with value := b }) r =
        .ok () { r with planner := { r.planner with tree := t.withValue u b } } := by
    intro b
    have hs : (t.objects.getD (t.slots.getD u 0) default).serial = t.slots.getD u 0 :=
      ht.serial_eq u hu
    subst hr
    simp [onTree, withValue, hs, node]
  cases hroot : (t.node u).isRoot
  · obtain ⟨p, hp, hpm⟩ := ht.exists_target hu hroot
    obtain ⟨k, hk⟩ := ht.reaches_of_mem hpm
    have hlt := hk.lt_length
    obtain ⟨a, ha, hgather⟩ := gather_run ht hr (t.node u) t.arena.length hk
      (t.arena.length + 2) 0 (0.0, 0.0) (by omega) (by omega)
    obtain ⟨b, hspread, htops⟩ := spread_run ht hr (t.arena.length + 3) 0.0 [] [(u, a)]
      (Pending.start hu hroot) (by simp)
    rw [List.map_singleton] at hspread
    refine ⟨b, ?_, fun h => absurd h (by simp), fun _ => ⟨a, ⟨p, hp, ha⟩, ?_⟩⟩
    · simp [computeValue, hget, hroot, onTree_read hr (ht.parent?_run hroot hp hpm), hgather,
        gainPerCost, onTree_read hr (size_run t), hspread, hupdate, bind, EStateM.bind, pure,
        EStateM.pure]
    · exact htops.congr fun y => by simp [StackRatio]
  · refine ⟨0.0, ?_, fun _ => rfl, fun h => absurd h (by simp)⟩
    simp [computeValue, hget, hroot, hupdate, bind, EStateM.bind, pure, EStateM.pure]

/-- The connection of `rootAndLeaf`, from node `0` to node `1` at cost `1`. -/
def leafLink : Link := { serial := 0, id := 0, parent := 0, target := 1, points := [], cost := 1.0 }

/-- The root of `rootAndLeaf`. -/
def leafRoot : Viewpoint :=
  { serial := 0, id := 0, pose := {}, isRoot := true, links := [(true, leafLink)] }

/-- The viewpoint below the root of `rootAndLeaf`, of gain `2`. -/
def leaf : Viewpoint :=
  { serial := 1, id := 1, pose := {}, gain := 2.0, active := .int 0, links := [(false, leafLink)] }

/-- A root, node `0`, and node `1` below it. -/
def rootAndLeaf : ViewpointTree :=
  { objects := ((∅ : Std.HashMap Nat Viewpoint).insert 0 leafRoot).insert 1 leaf,
    arena := [0, 1],
    slots := ((∅ : Std.HashMap Int Nat).insert 0 0).insert 1 1,
    root := some 0 }

theorem rootAndLeaf_forest : rootAndLeaf.Forest := by
  have h0 : rootAndLeaf.node 0 = leafRoot := by
    simp [node, rootAndLeaf, Std.HashMap.getD_insert]
  have h1 : rootAndLeaf.node 1 = leaf := by
    simp [node, rootAndLeaf]
  have hmem : ∀ id, id ∈ rootAndLeaf.arena ↔ id = 0 ∨ id = 1 := by simp [rootAndLeaf]
  have htarget : leaf.activeTarget? = .ok (some 0) := by
    rw [Viewpoint.activeTarget?_eq_some rfl]
    exact ⟨(false, leafLink), le_rfl, rfl, rfl⟩
  have hlinks : ∀ id ∈ rootAndLeaf.arena, ∀ e ∈ (rootAndLeaf.node id).links,
      (id = 0 ∧ e = (true, leafLink)) ∨ (id = 1 ∧ e = (false, leafLink)) := by
    intro id hid e he
    rcases (hmem id).1 hid with rfl | rfl
    · rw [h0] at he
      simp [leafRoot] at he
      exact .inl ⟨rfl, he⟩
    · rw [h1] at he
      simp [leaf] at he
      exact .inr ⟨rfl, he⟩
  refine ⟨⟨by simp [rootAndLeaf], ?_, ?_, ?_⟩, ?_, ?_, ?_, ?_, ?_⟩
  · intro id
    rw [hmem]
    simp only [rootAndLeaf, Std.HashMap.contains_insert, Std.HashMap.contains_empty, Bool.or_false,
      Bool.or_eq_true, beq_iff_eq]
    omega
  · intro id hid
    rcases (hmem id).1 hid with rfl | rfl
    · rw [h0]
      simp [leafRoot, rootAndLeaf, Std.HashMap.getD_insert]
    · rw [h1]
      simp [leaf, rootAndLeaf]
  · intro id hid
    rcases (hmem id).1 hid with rfl | rfl
    · rw [h0]; rfl
    · rw [h1]; rfl
  · intro id hid e he
    rcases hlinks id hid e he with ⟨rfl, rfl⟩ | ⟨rfl, rfl⟩ <;> rfl
  · intro id hid e he
    rcases hlinks id hid e he with ⟨rfl, rfl⟩ | ⟨rfl, rfl⟩
    · exact (hmem 1).2 (.inr rfl)
    · exact (hmem 0).2 (.inl rfl)
  · intro id hid e he
    rcases hlinks id hid e he with ⟨rfl, rfl⟩ | ⟨rfl, rfl⟩
    · simp [farEnd, leafLink, h1, leaf]
    · simp [farEnd, leafLink, h0, leafRoot]
  · intro id hid
    rcases (hmem id).1 hid with rfl | rfl
    · simp [h0, leafRoot]
    · simp [h1, leaf]
  · intro id hid hr
    rcases (hmem id).1 hid with rfl | rfl
    · simp [h0, leafRoot] at hr
    · refine ⟨1, .step hid trivial hr (h1 ▸ htarget) (.root ((hmem 0).2 (.inl rfl)) trivial ?_)⟩
      rw [h0]
      rfl

/-- The planner with `rootAndLeaf` as its tree. -/
def leafRun : LocalRun :=
  { (default : LocalRun) with planner := { (default : LocalRun).planner with tree := rootAndLeaf } }

theorem leaf_value_best : rootAndLeaf.Forest ∧ (1 : Int) ∈ rootAndLeaf.arena ∧
    ∃ b, computeValue (rootAndLeaf.slots.getD 1 0) leafRun =
        .ok b { leafRun with planner := { leafRun.planner with tree := rootAndLeaf.withValue 1 b } } ∧
      ((rootAndLeaf.node 1).isRoot = true → b = 0.0) ∧
      ((rootAndLeaf.node 1).isRoot = false →
        ∃ a, Above rootAndLeaf 1 a ∧ Tops 0.0 (SubtreeRatio rootAndLeaf 1 a) b) :=
  ⟨rootAndLeaf_forest, by simp [rootAndLeaf],
    computeValue_subtree_best rootAndLeaf_forest (by simp [rootAndLeaf]) leafRun rfl⟩

end LocalPlanner

end Exploration
