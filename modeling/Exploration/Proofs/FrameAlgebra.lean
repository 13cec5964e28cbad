import Mathlib
import Exploration.Proofs.Ids

/-!
# Transforms and submap frames in exact arithmetic

The planner's transforms have double entries, and their products accumulate in fused
multiply-adds whose order depends on how a matrix is held. In a commutative ring a multiply-add
is exact, and every map of `Transform` is then the affine map `p ↦ R p + t` of its matrix: seen
through the coordinates (`Vec3.toFun`, `Mat3.toMatrix`), each product is the matrix product,
whichever way the matrix is held (`Transform.toFun_rotate`) and whether a point is mapped alone or
in a batch (`Transform.applyAll_eq_map`).

From that view:

* `Transform.apply_compose`: `compose a b` maps a point first by `b`, then by `a`;
* for an orthogonal matrix the inverse undoes the transform on either side
  (`Transform.inverse_apply_apply`, `Transform.apply_inverse_apply`), and a transform composed
  with its inverse is the identity transform itself (`Transform.compose_inverse`);
* a submap is always made (every exact coordinate is finite, `Submap.make_ok`); with an
  orthogonal pose its two frame maps are mutually inverse, and when its vertex ids are distinct
  integers, the common-frame point of each vertex is the one fixed when the submap was made
  (`Submap.vertexWorld_of_mem_worldVertices`).
-/

namespace Exploration

open scoped Matrix

section Views

variable {K : Type}

namespace Vec3

/-- The coordinates as a vector indexed by the three axes. -/
def toFun (a : Vec3 K) : Fin 3 → K := ![a.x, a.y, a.z]

@[simp] theorem toFun_mk (x y z : K) : (Vec3.mk x y z).toFun = ![x, y, z] := rfl

@[simp] theorem toFun_apply_zero (a : Vec3 K) : a.toFun 0 = a.x := rfl

@[simp] theorem toFun_apply_one (a : Vec3 K) : a.toFun 1 = a.y := rfl

@[simp] theorem toFun_apply_two (a : Vec3 K) : a.toFun 2 = a.z := rfl

theorem toFun_injective : Function.Injective (toFun : Vec3 K → Fin 3 → K) := by
  rintro ⟨x, y, z⟩ ⟨x', y', z'⟩ h
  have hx : x = x' := congrFun h 0
  have hy : y = y' := congrFun h 1
  have hz : z = z' := congrFun h 2
  rw [hx, hy, hz]

end Vec3

namespace Mat3

/-- The matrix with these rows. -/
def toMatrix (m : Mat3 K) : Matrix (Fin 3) (Fin 3) K :=
  Matrix.of ![m.r0.toFun, m.r1.toFun, m.r2.toFun]

theorem toMatrix_injective : Function.Injective (toMatrix : Mat3 K → Matrix (Fin 3) (Fin 3) K) := by
  rintro ⟨r0, r1, r2⟩ ⟨r0', r1', r2'⟩ h
  have h0 : r0 = r0' := Vec3.toFun_injective (congrFun h 0)
  have h1 : r1 = r1' := Vec3.toFun_injective (congrFun h 1)
  have h2 : r2 = r2' := Vec3.toFun_injective (congrFun h 2)
  rw [h0, h1, h2]

/-- A column, read off by its axis, is the column of the matrix. -/
theorem toFun_col (m : Mat3 K) (j : Fin 3) : (m.col j).toFun = fun i => m.toMatrix i j := by
  ext i
  fin_cases i <;> fin_cases j <;> rfl

theorem toMatrix_transpose (m : Mat3 K) : m.transpose.toMatrix = m.toMatrixᵀ := by
  ext i j
  fin_cases i <;> fin_cases j <;> rfl

end Mat3

namespace SkeletonGraph

/-- With distinct integer ids, a vertex is found by its own id. -/
theorem vertex_of_mem {g : SkeletonGraph K} (hint : ∀ x ∈ g.vertexIds, ∃ k : Int, x = .int k)
    (hnd : g.vertexIds.Nodup) {x : SkeletonVertex K} (hx : x ∈ g.vertices) :
    g.vertex x.id = .ok x := by
  obtain ⟨k, hk⟩ := hint x.id (List.mem_map_of_mem hx)
  -- the first vertex `same` as `x.id` has an integer id, hence the id of `x`, hence is `x`
  have hfind : g.vertices.find? (·.id.same x.id) = some x := by
    cases hf : g.vertices.find? (·.id.same x.id) with
    | none =>
      have hno := List.find?_eq_none.1 hf x hx
      simp [hk] at hno
    | some y =>
      have hy : y ∈ g.vertices := List.mem_of_find?_eq_some hf
      obtain ⟨j, hj⟩ := hint y.id (List.mem_map_of_mem hy)
      have hsame := List.find?_some hf
      have hid : y.id = x.id := by
        rw [hk, ← Value.same_int_iff hj k, ← hk]
        exact hsame
      rw [List.inj_on_of_nodup_map hnd hy hx hid]
  simp [vertex, Value.toKey, hk ▸ hfind, hk, Value.isKey, bind, Except.bind]

end SkeletonGraph

end Views

/-- In a commutative ring a multiply-add is exact. -/
instance {K : Type} [CommRing K] : MulAdd K := ⟨fun a b c => a * b + c⟩

/-- Every element of a commutative ring is a finite coordinate. -/
instance {K : Type} [CommRing K] : Finiteness K := ⟨fun _ => true⟩

section Exact

variable {K : Type} [CommRing K]

@[simp] theorem mulAdd_eq (a b c : K) : MulAdd.mulAdd a b c = a * b + c := rfl

@[simp] theorem isFinite_eq (a : K) : Finiteness.isFinite a = true := rfl

namespace Vec3

@[simp] theorem toFun_zero : (Vec3.zero : Vec3 K).toFun = 0 := by
  ext i
  fin_cases i <;> rfl

@[simp] theorem toFun_add (a b : Vec3 K) : (a + b).toFun = a.toFun + b.toFun := by
  ext i
  fin_cases i <;> rfl

@[simp] theorem toFun_neg (a : Vec3 K) : a.neg.toFun = -a.toFun := by
  ext i
  fin_cases i <;> rfl

/-- Both orders of accumulation give the dot product. -/
theorem dot_eq (a b : Vec3 K) : a.dot b = a.toFun ⬝ᵥ b.toFun := by
  simp only [dot, mulAdd_eq, dotProduct, Fin.sum_univ_three, toFun_apply_zero, toFun_apply_one,
    toFun_apply_two]
  ring

theorem rowDot_eq (a b : Vec3 K) : a.rowDot b = a.toFun ⬝ᵥ b.toFun := by
  simp only [rowDot, mulAdd_eq, dotProduct, Fin.sum_univ_three, toFun_apply_zero, toFun_apply_one,
    toFun_apply_two]
  ring

end Vec3

namespace Mat3

theorem toMatrix_mulVec_rows (m : Mat3 K) (v : Fin 3 → K) :
    m.toMatrix *ᵥ v = ![m.r0.toFun ⬝ᵥ v, m.r1.toFun ⬝ᵥ v, m.r2.toFun ⬝ᵥ v] := by
  ext i
  fin_cases i <;> rfl

theorem toFun_mulVec (m : Mat3 K) (v : Vec3 K) : (m.mulVec v).toFun = m.toMatrix *ᵥ v.toFun := by
  rw [toMatrix_mulVec_rows]
  simp only [mulVec, Vec3.toFun_mk, Vec3.rowDot_eq]

theorem toFun_mulVecCols (m : Mat3 K) (v : Vec3 K) :
    (m.mulVecCols v).toFun = m.toMatrix *ᵥ v.toFun := by
  rw [toMatrix_mulVec_rows]
  simp only [mulVecCols, Vec3.toFun_mk, Vec3.dot_eq]

/-- Each entry of the product is the dot product of a row of the first with a column of the
second. -/
theorem toMatrix_mul (a b : Mat3 K) : (a.mul b).toMatrix = a.toMatrix * b.toMatrix := by
  ext i j
  rw [Matrix.mul_apply', ← toFun_col]
  fin_cases i <;> fin_cases j <;> exact Vec3.dot_eq _ _

/-- A row of a batch: the dot products of the point with the rows of the matrix. -/
theorem toFun_batchRow (m : Mat3 K) (p : Vec3 K) :
    (Vec3.mk (p.dot m.r0) (p.dot m.r1) (p.dot m.r2)).toFun = m.toMatrix *ᵥ p.toFun := by
  rw [toMatrix_mulVec_rows]
  simp only [Vec3.toFun_mk, Vec3.dot_eq, dotProduct_comm p.toFun]

theorem toMatrix_neg (m : Mat3 K) : m.neg.toMatrix = -m.toMatrix := by
  ext i j
  fin_cases i <;> fin_cases j <;> rfl

theorem toMatrix_identity : (Mat3.identity : Mat3 K).toMatrix = 1 := by
  ext i j
  fin_cases i <;> fin_cases j <;> rfl

end Mat3

namespace Transform

/-- Held by rows or by columns, the matrix maps a vector by the matrix product. -/
theorem toFun_rotate (T : Transform K) (p : Vec3 K) :
    (T.rotate p).toFun = T.rot.toMatrix *ᵥ p.toFun := by
  unfold rotate
  split
  · exact Mat3.toFun_mulVecCols T.rot p
  · exact Mat3.toFun_mulVec T.rot p

theorem toFun_apply (T : Transform K) (p : Vec3 K) :
    (T.apply p).toFun = T.rot.toMatrix *ᵥ p.toFun + T.trans.toFun := by
  rw [apply, Vec3.toFun_add, toFun_rotate]

/-- `compose a b` maps a point first by `b`, then by `a`. -/
theorem apply_compose (a b : Transform K) (p : Vec3 K) :
    (a.compose b).apply p = a.apply (b.apply p) := by
  apply Vec3.toFun_injective
  have hrot : (a.compose b).rot.toMatrix = a.rot.toMatrix * b.rot.toMatrix :=
    Mat3.toMatrix_mul a.rot b.rot
  have htrans : (a.compose b).trans.toFun = a.rot.toMatrix *ᵥ b.trans.toFun + a.trans.toFun :=
    toFun_apply a b.trans
  simp only [toFun_apply, hrot, htrans, Matrix.mulVec_add, Matrix.mulVec_mulVec, add_assoc]

/-- A batch of points is mapped point by point. -/
theorem applyAll_eq_map (T : Transform K) (ps : List (Vec3 K)) :
    T.applyAll ps = ps.map T.apply := by
  unfold applyAll
  split
  · rfl
  · apply List.map_congr_left
    intro p _
    apply Vec3.toFun_injective
    rw [Vec3.toFun_add, Mat3.toFun_batchRow, toFun_apply]

@[simp] theorem inverse_rot (T : Transform K) : T.inverse.rot = T.rot.transpose := rfl

/-- The inverse's shift is `-(Rᵀ t)`. -/
theorem toFun_inverse_trans (T : Transform K) :
    T.inverse.trans.toFun = -(T.rot.toMatrixᵀ *ᵥ T.trans.toFun) := by
  simp only [inverse, toFun_rotate, Mat3.toMatrix_neg, Mat3.toMatrix_transpose, Matrix.neg_mulVec]

theorem toFun_inverse_apply (T : Transform K) (p : Vec3 K) :
    (T.inverse.apply p).toFun = T.rot.toMatrixᵀ *ᵥ (p.toFun - T.trans.toFun) := by
  rw [toFun_apply, inverse_rot, Mat3.toMatrix_transpose, toFun_inverse_trans, Matrix.mulVec_sub,
    sub_eq_add_neg]

section Orthogonal

variable {T : Transform K} (hT : T.rot.toMatrix ∈ Matrix.orthogonalGroup (Fin 3) K)
include hT

theorem inverse_apply_apply (p : Vec3 K) : T.inverse.apply (T.apply p) = p := by
  apply Vec3.toFun_injective
  have h : T.rot.toMatrixᵀ * T.rot.toMatrix = 1 := (Matrix.mem_orthogonalGroup_iff' (Fin 3) K).1 hT
  rw [toFun_inverse_apply, toFun_apply, add_sub_cancel_right, Matrix.mulVec_mulVec, h,
    Matrix.one_mulVec]

theorem apply_inverse_apply (p : Vec3 K) : T.apply (T.inverse.apply p) = p := by
  apply Vec3.toFun_injective
  have h : T.rot.toMatrix * T.rot.toMatrixᵀ = 1 := (Matrix.mem_orthogonalGroup_iff (Fin 3) K).1 hT
  rw [toFun_apply, toFun_inverse_apply, Matrix.mulVec_mulVec, h, Matrix.one_mulVec, sub_add_cancel]

/-- A transform composed with its inverse is the identity transform, matrix and shift alike. -/
theorem compose_inverse : T.compose T.inverse = Transform.identity := by
  have h : T.rot.toMatrix * T.rot.toMatrixᵀ = 1 := (Matrix.mem_orthogonalGroup_iff (Fin 3) K).1 hT
  have hrot : (T.rot.mul T.inverse.rot).toMatrix = (Mat3.identity : Mat3 K).toMatrix := by
    rw [Mat3.toMatrix_mul, inverse_rot, Mat3.toMatrix_transpose, h, Mat3.toMatrix_identity]
  have htrans : (T.rotate T.inverse.trans + T.trans).toFun = (Vec3.zero : Vec3 K).toFun := by
    rw [Vec3.toFun_add, toFun_rotate, toFun_inverse_trans, Matrix.mulVec_neg, Matrix.mulVec_mulVec,
      h, Matrix.one_mulVec, neg_add_cancel, Vec3.toFun_zero]
  unfold compose identity
  rw [Mat3.toMatrix_injective hrot, Vec3.toFun_injective htrans]

end Orthogonal

end Transform

namespace Submap

/-- Every exact coordinate is finite, so a submap is always made; its common-frame points are the
images of the vertex points one by one. -/
theorem make_ok (id : Value) (g : SkeletonGraph K) (pose : Option (Transform K)) :
    make id g pose = .ok
      { id, graph := g, pose := pose.getD .identity, poseInverse := (pose.getD .identity).inverse,
        vertexIds := g.vertexIds, localPoints := g.vertices.map (·.point),
        worldPoints := (g.vertices.map (·.point)).map (pose.getD .identity).apply } := by
  simp [make, Vec3.isFinite, Transform.applyAll_eq_map]

variable {id : Value} {g : SkeletonGraph K} {pose : Option (Transform K)} {s : Submap K}

theorem eq_of_make (hs : make id g pose = .ok s) :
    s = { id, graph := g, pose := pose.getD .identity,
          poseInverse := (pose.getD .identity).inverse, vertexIds := g.vertexIds,
          localPoints := g.vertices.map (·.point),
          worldPoints := (g.vertices.map (·.point)).map (pose.getD .identity).apply } :=
  (Except.ok.inj ((make_ok id g pose).symm.trans hs)).symm

/-- With an orthogonal pose the common frame is taken back to the region's frame. -/
theorem toLocal_toWorld (hs : make id g pose = .ok s)
    (hT : s.pose.rot.toMatrix ∈ Matrix.orthogonalGroup (Fin 3) K) (p : Vec3 K) :
    s.toLocal (s.toWorld p) = p := by
  obtain rfl := eq_of_make hs
  exact Transform.inverse_apply_apply hT p

/-- With an orthogonal pose the region's frame is taken back to the common frame. -/
theorem toWorld_toLocal (hs : make id g pose = .ok s)
    (hT : s.pose.rot.toMatrix ∈ Matrix.orthogonalGroup (Fin 3) K) (p : Vec3 K) :
    s.toWorld (s.toLocal p) = p := by
  obtain rfl := eq_of_make hs
  exact Transform.apply_inverse_apply hT p

/-- The cached pairs are the vertex ids with the images of the vertex points. -/
theorem worldVertices_of_make (hs : make id g pose = .ok s) :
    s.worldVertices = g.vertices.map fun x => (x.id, s.pose.apply x.point) := by
  obtain rfl := eq_of_make hs
  simp only [worldVertices, SkeletonGraph.vertexIds, List.map_map, List.zip_map']
  rfl

/-- With distinct integer vertex ids, the common-frame point of a vertex is the one cached for it
when the submap was made. -/
theorem vertexWorld_of_mem_worldVertices (hs : make id g pose = .ok s)
    (hint : ∀ x ∈ g.vertexIds, ∃ k : Int, x = .int k) (hnd : g.vertexIds.Nodup)
    {v : Value} {q : Vec3 K} (hmem : (v, q) ∈ s.worldVertices) : s.vertexWorld v = .ok q := by
  rw [worldVertices_of_make hs, List.mem_map] at hmem
  obtain ⟨x, hx, hxq⟩ := hmem
  obtain ⟨rfl, rfl⟩ := Prod.mk.inj hxq
  obtain rfl := eq_of_make hs
  simp [vertexWorld, SkeletonGraph.vertex_of_mem hint hnd hx, bind, Except.bind]

end Submap

/-- In exact arithmetic a composite transform maps as its parts one after the other, a batch is
mapped point by point, and an orthogonal transform is undone by its inverse on either side and
composes with it to the identity. A submap made with an orthogonal pose has mutually inverse frame
maps, and when its vertex ids are distinct integers, each vertex's common-frame point is the one
cached for it when the submap was made. -/
theorem exact_frame_laws (a b : Transform K) (p : Vec3 K) (ps : List (Vec3 K)) :
    (a.compose b).apply p = a.apply (b.apply p) ∧
    a.applyAll ps = ps.map a.apply ∧
    (a.rot.toMatrix ∈ Matrix.orthogonalGroup (Fin 3) K →
      a.inverse.apply (a.apply p) = p ∧ a.apply (a.inverse.apply p) = p ∧
        a.compose a.inverse = Transform.identity) ∧
    ∀ (id : Value) (g : SkeletonGraph K) (pose : Option (Transform K)) (s : Submap K),
      Submap.make id g pose = .ok s →
        (s.pose.rot.toMatrix ∈ Matrix.orthogonalGroup (Fin 3) K →
          s.toLocal (s.toWorld p) = p ∧ s.toWorld (s.toLocal p) = p) ∧
        ((∀ x ∈ g.vertexIds, ∃ k : Int, x = .int k) → g.vertexIds.Nodup →
          ∀ v q, (v, q) ∈ s.worldVertices → s.vertexWorld v = .ok q) := by
  refine ⟨Transform.apply_compose a b p, Transform.applyAll_eq_map a ps, fun hT => ?_,
    fun id g pose s hs => ⟨fun hT => ?_, fun hint hnd v q hmem => ?_⟩⟩
  · exact ⟨Transform.inverse_apply_apply hT p, Transform.apply_inverse_apply hT p,
      Transform.compose_inverse hT⟩
  · exact ⟨Submap.toLocal_toWorld hs hT p, Submap.toWorld_toLocal hs hT p⟩
  · exact Submap.vertexWorld_of_mem_worldVertices hs hint hnd hmem

end Exact

section Samples

/-- A quarter turn about the vertical axis followed by the shift `(1, 0, -1)`. -/
def quarterTurn : Transform ℝ := ⟨⟨⟨0, -1, 0⟩, ⟨1, 0, 0⟩, ⟨0, 0, 1⟩⟩, ⟨1, 0, -1⟩, false⟩

theorem quarterTurn_orthogonal :
    quarterTurn.rot.toMatrix ∈ Matrix.orthogonalGroup (Fin 3) ℝ := by
  rw [Matrix.mem_orthogonalGroup_iff]
  ext i j
  fin_cases i <;> fin_cases j <;>
    simp [quarterTurn, Mat3.toMatrix, Matrix.mul_apply, Fin.sum_univ_three]

/-- Two vertices of integer ids. -/
def pairGraph : SkeletonGraph ℝ :=
  { vertices := [{ id := .int 0, point := ⟨0, 0, 0⟩ }, { id := .int 1, point := ⟨1, 0, 0⟩ }] }

/-- The quarter turn composes with its inverse to the identity, and a submap posed by it takes
points back and forth and answers its second vertex's cached point. -/
theorem quarterTurn_frames :
    quarterTurn.compose quarterTurn.inverse = Transform.identity ∧
    ∃ s, Submap.make (.int 7) pairGraph (some quarterTurn) = .ok s ∧
      s.toLocal (s.toWorld ⟨1, 1, 1⟩) = ⟨1, 1, 1⟩ ∧
      s.vertexWorld (.int 1) = .ok (quarterTurn.apply ⟨1, 0, 0⟩) := by
  obtain ⟨-, -, hinv, hsub⟩ := exact_frame_laws quarterTurn quarterTurn ⟨1, 1, 1⟩ []
  have hs := Submap.make_ok (.int 7) pairGraph (some quarterTurn)
  obtain ⟨hframes, hcached⟩ := hsub _ _ _ _ hs
  have hint : ∀ x ∈ pairGraph.vertexIds, ∃ k : Int, x = .int k := by
    simp [pairGraph, SkeletonGraph.vertexIds]
  have hnd : pairGraph.vertexIds.Nodup := by
    simp [pairGraph, SkeletonGraph.vertexIds]
  refine ⟨(hinv quarterTurn_orthogonal).2.2, _, hs, (hframes quarterTurn_orthogonal).1,
    hcached hint hnd _ _ ?_⟩
  simp [Submap.worldVertices, pairGraph, SkeletonGraph.vertexIds]

end Samples

end Exploration
