import QuasiDefinite.Proofs.Exact.Solve
import QuasiDefinite.Proofs.Exact.SymmetricProduct
import QuasiDefinite.Proofs.Factor.Refine

namespace QuasiDefinite

open Matrix

variable {K : Type} [ExactField K] {pattern : Pattern} {values x : Array K}

/-- The array holds the vector, its components in the given order. -/
structure InOrder {α : Type} {size : Nat} (order : Array Nat) (v : Array α)
    (u : Fin size → α) : Prop where
  size_eq : v.size = size
  held : ∀ (place : Nat) (i : Fin size), order[place]? = some i.val →
    v[place]? = some (u i)

variable {plan : Plan} {signs : Array Sign} {settings : Settings K}
  {factor : Factor K} {numbers : Numbers K} {u : Fin pattern.size → K}
  {v : Array K}

theorem components_eq_some {size : Nat} {x : Array K} (x_size : x.size = size)
    (i : Fin size) : x[i.val]? = some (components size x i) := by
  have inside : i.val < x.size := Nat.lt_of_lt_of_eq i.isLt x_size.symm
  rw [components, Array.getElem?_eq_getElem inside, Array.getElem_eq_getD]

namespace InOrder

theorem components_eq (inOrder : InOrder plan.order.order v u)
    (valid : plan.order.Valid pattern.size) :
    components pattern.size v = u ∘ valid.equiv :=
  funext fun k => components_getElem? (inOrder.held k _ (valid.order_equiv k))

theorem of_components (valid : plan.order.Valid pattern.size)
    (v_size : v.size = pattern.size)
    (same : components pattern.size v = u ∘ valid.equiv) :
    InOrder plan.order.order v u := by
  refine ⟨v_size, fun place i found => ?_⟩
  obtain ⟨k, rfl⟩ := valid.equiv.surjective i
  obtain rfl : place = k.val :=
    valid.order_injective found (valid.order_equiv k)
  rw [components_eq_some v_size k, same, Function.comp]

theorem zipWith {α : Type} {size : Nat} {order : Array Nat} {v v' : Array α}
    {u u' : Fin size → α} (inOrder : InOrder order v u)
    (inOrder' : InOrder order v' u') (join : α → α → α) :
    InOrder order (Array.zipWith join v v') fun i => join (u i) (u' i) := by
  refine ⟨?_, fun place i found => ?_⟩
  · rw [Array.size_zipWith, inOrder.size_eq, inOrder'.size_eq, Nat.min_self]
  · rw [Array.getElem?_zipWith, inOrder.held place i found,
      inOrder'.held place i found]

theorem normSq_eq (inOrder : InOrder plan.order.order v u)
    (valid : plan.order.Valid pattern.size) : normSq v = u ⬝ᵥ u := by
  have listed : v.toList = List.ofFn (components pattern.size v) := by
    refine List.ext_getElem? fun k => ?_
    rw [Array.getElem?_toList, List.getElem?_ofFn]
    split
    · next inside => exact components_eq_some inOrder.size_eq ⟨k, inside⟩
    · next outside =>
      exact Array.getElem?_eq_none
        (inOrder.size_eq.trans_le (Nat.le_of_not_lt outside))
  calc normSq v
      = (v.toList.map fun value => value * value).sum := by
        rw [normSq, dot, Scalar.sum_exact, List.zip_eq_zipWith,
          List.map_zipWith, List.zipWith_self]
    _ = components pattern.size v ⬝ᵥ components pattern.size v := by
        rw [listed, List.map_ofFn, List.sum_ofFn]
        rfl
    _ = u ⬝ᵥ u := by
        rw [inOrder.components_eq valid]
        exact comp_equiv_dotProduct_comp_equiv u u valid.equiv

end InOrder

theorem Factor.permuted_inOrder (regular : plan.Regular pattern signs)
    (x_size : x.size = pattern.size) :
    ∃ new, Factor.permuted plan x = .ok new ∧
      InOrder plan.order.order new (components pattern.size x) := by
  obtain ⟨new, permutes, new_size, moved⟩ :=
    Factor.permuted_runs regular (x_size.trans regular.size_eq.symm)
  refine ⟨new, permutes, new_size.trans regular.size_eq,
    fun place i found => ?_⟩
  rw [moved place i found, components_eq_some x_size i]

theorem Factor.unpermuted_inOrder (regular : plan.Regular pattern signs)
    (inOrder : InOrder plan.order.order v u)
    (x_size : x.size = pattern.size) :
    ∃ new, Factor.unpermuted plan v x = .ok new ∧ new.size = pattern.size ∧
      components pattern.size new = u := by
  obtain ⟨new, writes, new_size, moved⟩ := Factor.unpermuted_runs regular
    (inOrder.size_eq.trans regular.size_eq.symm)
    (x_size.trans regular.size_eq.symm)
  refine ⟨new, writes, new_size.trans regular.size_eq, funext fun i => ?_⟩
  obtain ⟨place, inside, _, found⟩ := regular.valid.exists_place i.isLt
  refine components_getElem? ?_
  rw [moved place i found, inOrder.held place i found]

theorem Factor.Holds.product_inOrder (regular : plan.Regular pattern signs)
    (holds : factor.Holds plan settings values numbers)
    (inOrder : InOrder plan.order.order v u) {target : Array K}
    (target_size : target.size = pattern.size) :
    ∃ new, symmetricProduct plan.pattern.upper factor.matrix v target =
        .ok new ∧
      InOrder plan.order.order new (pattern.dense values *ᵥ u) := by
  have size_eq : plan.pattern.size = pattern.size := regular.size_eq
  have reads : Reads v plan.pattern.size fun k => v.getD k 0 :=
    reads_getD (inOrder.size_eq.trans size_eq.symm) 0
  obtain ⟨new, ran, readsNew⟩ := symmetricProduct_reads
    regular.relabels.wellFormed holds.fits.matrix_size reads
    (target_size.trans size_eq.symm)
  refine ⟨new, ran, readsNew.1.trans size_eq, fun place i found => ?_⟩
  have inside : place < plan.pattern.size := by
    rw [size_eq, ← regular.valid.order_size]
    exact (Array.getElem?_eq_some_iff.mp found).1
  refine (readsNew.2 place inside).trans (congrArg some ?_)
  dsimp only
  rw [size_eq, Finset.sum_range, Matrix.mulVec, dotProduct]
  refine Eq.trans ?_ (Equiv.sum_comp regular.valid.equiv fun other =>
    pattern.dense values i other * u other)
  refine Finset.sum_congr rfl fun k _ => ?_
  have here := regular.valid.order_equiv k
  have component : v.getD k 0 = u (regular.valid.equiv k) :=
    congrFun (inOrder.components_eq regular.valid) k
  rw [holds.dense_eq regular found here, component]
  rfl

theorem Factor.Holds.substitute_inOrder (regular : plan.Regular pattern signs)
    (signs_size : signs.size = pattern.size)
    (validated : settings.validate = .ok ())
    (holds : factor.Holds plan settings values numbers)
    {shift : Fin pattern.size → K}
    (shifts : Shifts plan.order.order signs settings
      (fun k : Fin pattern.size => numbers.move k) shift)
    (inOrder : InOrder plan.order.order v u) :
    ∃ new, Factor.substitute plan factor v = .ok new ∧
      InOrder plan.order.order new
        ((pattern.dense values + Matrix.diagonal shift)⁻¹ *ᵥ u) := by
  have valid := regular.valid
  obtain ⟨new, z, ran, reads, substitutes⟩ := Factor.substitute_runs regular
    holds.fits (reads_getD (inOrder.size_eq.trans regular.size_eq.symm) 0)
  have new_size := reads.1.trans regular.size_eq
  refine ⟨new, ran, .of_components valid new_size ?_⟩
  have only := holds.solution_ordered regular signs_size validated shifts
    substitutes (v := components pattern.size new ∘ valid.equiv.symm)
    (fun k => (congrFun (inOrder.components_eq valid) k).symm)
    fun k => by
      have inside : k.val < plan.size := by
        rw [regular.size_eq]
        exact k.isLt
      rw [Function.comp, Equiv.symm_apply_apply]
      exact components_getElem? (reads.2 k inside)
  have invertible := (holds.decomposes regular signs_size validated).det_ne_zero
    valid shifts
  rw [← only.solves, Matrix.mulVec_mulVec,
    Matrix.nonsing_inv_mul _ (isUnit_iff_ne_zero.mpr invertible),
    Matrix.one_mulVec]
  exact ((Equiv.comp_symm_eq ..).mp rfl)

/-! The residual and the correction. -/

theorem Factor.Holds.residualOf_inOrder (regular : plan.Regular pattern signs)
    (holds : factor.Holds plan settings values numbers) {rhs : Array K}
    (rhs_size : rhs.size = pattern.size)
    (inOrder : InOrder plan.order.order v u) :
    ∃ new, Factor.residualOf plan factor rhs v = .ok new ∧
      InOrder plan.order.order new
        (components pattern.size rhs - pattern.dense values *ᵥ u) := by
  obtain ⟨product, multiplies, ordered⟩ := holds.product_inOrder regular
    inOrder (Array.size_replicate.trans regular.size_eq)
  obtain ⟨moved, permutes, ordered'⟩ :=
    Factor.permuted_inOrder regular rhs_size
  refine ⟨_, ?_, ordered'.zipWith ordered (· - ·)⟩
  rw [Factor.residualOf, multiplies, Checked.ok_bind, permutes]
  rfl

theorem Factor.Holds.corrected_components (regular : plan.Regular pattern signs)
    (signs_size : signs.size = pattern.size)
    (validated : settings.validate = .ok ())
    (holds : factor.Holds plan settings values numbers)
    {shift : Fin pattern.size → K}
    (shifts : Shifts plan.order.order signs settings
      (fun k : Fin pattern.size => numbers.move k) shift)
    {rhs x' : Array K} (rhs_size : rhs.size = pattern.size)
    (x_size : x.size = pattern.size)
    (ran : Factor.corrected plan factor rhs x = .ok x') :
    components pattern.size x' = components pattern.size x +
      (pattern.dense values + Matrix.diagonal shift)⁻¹ *ᵥ
        (components pattern.size rhs -
          pattern.dense values *ᵥ components pattern.size x) := by
  obtain ⟨v, permutes, ordered⟩ := Factor.permuted_inOrder regular x_size
  obtain ⟨r, left, orderedLeft⟩ :=
    holds.residualOf_inOrder regular rhs_size ordered
  obtain ⟨c, solves, orderedCorrection⟩ := holds.substitute_inOrder regular
    signs_size validated shifts orderedLeft
  obtain ⟨new, writes, _, same⟩ := Factor.unpermuted_inOrder regular
    (ordered.zipWith orderedCorrection (· + ·)) x_size
  rw [Factor.corrected, permutes, Checked.ok_bind, left, Checked.ok_bind,
    solves, Checked.ok_bind, writes] at ran
  cases ran
  exact same

theorem Factor.Holds.residualNormSq_runs (regular : plan.Regular pattern signs)
    (holds : factor.Holds plan settings values numbers)
    {space : Workspace K} (fitsSpace : space.Fits plan.size) {rhs : Array K}
    (rhs_size : rhs.size = pattern.size) (x_size : x.size = pattern.size) :
    ∃ next, Factor.residualNormSq plan factor space rhs x =
      .ok (.answer next
        ((components pattern.size rhs -
            pattern.dense values *ᵥ components pattern.size x) ⬝ᵥ
          (components pattern.size rhs -
            pattern.dense values *ᵥ components pattern.size x))) := by
  have size_eq := regular.size_eq
  obtain ⟨v, permutes, ordered⟩ := Factor.permuted_inOrder regular x_size
  obtain ⟨r, left, orderedLeft⟩ :=
    holds.residualOf_inOrder regular rhs_size ordered
  rw [← orderedLeft.normSq_eq regular.valid]
  exact ⟨_, Factor.residualNormSq_eq fitsSpace (rhs_size.trans size_eq.symm)
    (x_size.trans size_eq.symm) (ordered.size_eq.trans size_eq.symm) permutes
    left⟩

end QuasiDefinite
