import Fluxion.Proofs.Calculus
import Mathlib

/-!
# A field with a calculus

Sine, logarithm and powers have poles, zeros and branches, so functions on any
fixed domain are no field that is closed under them. Here two functions count
as equal if they agree on a big set, where the big sets are those of an
ultrafilter that contains every dense open set. The functions that are
holomorphic on a big open set then make a field, and each of the functions of
the calculus can be applied to all of it.

## Main results

* `Smooth.eventually_deriv_eq` — equal functions have equal derivatives.
* `Germs.calculus` — the field of germs has a calculus.
-/

namespace Fluxion

open Filter Set

noncomputable section

/-! ## Big sets -/

instance neBot_residual : NeBot (residual ℂ) := by
  refine neBot_iff.2 fun hBot => ?_
  have hEmpty : ∅ ∈ residual ℂ := empty_mem_iff_bot.2 hBot
  exact not_nonempty_empty (dense_of_mem_residual hEmpty).nonempty

/-- The big sets. -/
def big : Ultrafilter ℂ :=
  Ultrafilter.of (residual ℂ)

/-- A closed set that is big has a big interior, because its boundary is
nowhere dense. -/
theorem interior_mem_big {s : Set ℂ} (hClosed : IsClosed s) (hs : s ∈ big) : interior s ∈ big := by
  have hFrontier : IsNowhereDense (frontier s) := by
    rw [IsNowhereDense, isClosed_frontier.closure_eq, interior_frontier hClosed]
  have hCompl : (frontier s)ᶜ ∈ big := Ultrafilter.of_le _ hFrontier.isMeagre
  refine mem_of_superset (inter_mem hs hCompl) ?_
  rw [hClosed.frontier_eq]
  rintro z ⟨hz, hNot⟩
  by_contra hInterior
  exact hNot ⟨hz, hInterior⟩

/-! ## Smooth functions -/

/-- A function that is holomorphic on a big open set. -/
def Smooth (f : ℂ → ℂ) : Prop :=
  ∃ U ∈ big, IsOpen U ∧ DifferentiableOn ℂ f U

namespace Smooth

variable {f g : ℂ → ℂ}

theorem of_differentiable (hf : Differentiable ℂ f) : Smooth f :=
  ⟨univ, univ_mem, isOpen_univ, hf.differentiableOn⟩

theorem derivative (hf : Smooth f) : Smooth (deriv f) := by
  obtain ⟨U, hU, hOpen, hDiff⟩ := hf
  exact ⟨U, hU, hOpen, hDiff.deriv hOpen⟩

/-- Two smooth functions are holomorphic on a common big open set. -/
theorem exists_common (hf : Smooth f) (hg : Smooth g) :
    ∃ U ∈ big, IsOpen U ∧ DifferentiableOn ℂ f U ∧ DifferentiableOn ℂ g U := by
  obtain ⟨U, hU, hOpenU, hDiffU⟩ := hf
  obtain ⟨V, hV, hOpenV, hDiffV⟩ := hg
  exact ⟨U ∩ V, inter_mem hU hV, hOpenU.inter hOpenV, hDiffU.mono inter_subset_left,
    hDiffV.mono inter_subset_right⟩

theorem add (hf : Smooth f) (hg : Smooth g) : Smooth (f + g) := by
  obtain ⟨U, hU, hOpen, hDiffF, hDiffG⟩ := hf.exists_common hg
  exact ⟨U, hU, hOpen, hDiffF.add hDiffG⟩

theorem mul (hf : Smooth f) (hg : Smooth g) : Smooth (f * g) := by
  obtain ⟨U, hU, hOpen, hDiffF, hDiffG⟩ := hf.exists_common hg
  exact ⟨U, hU, hOpen, hDiffF.mul hDiffG⟩

theorem neg (hf : Smooth f) : Smooth (-f) := by
  obtain ⟨U, hU, hOpen, hDiff⟩ := hf
  exact ⟨U, hU, hOpen, hDiff.neg⟩

/-- **Smooth functions that are equal on a big set are so on an open one.** -/
theorem exists_eqOn (hf : Smooth f) (hg : Smooth g) (hEq : ∀ᶠ z in big, f z = g z) :
    ∃ V ∈ big, IsOpen V ∧ EqOn f g V := by
  obtain ⟨U, hU, hOpen, hDiffF, hDiffG⟩ := hf.exists_common hg
  have hInterior : interior (closure (U ∩ {z | f z = g z})) ∈ big :=
    interior_mem_big isClosed_closure (mem_of_superset (inter_mem hU hEq) subset_closure)
  refine ⟨U ∩ interior (closure (U ∩ {z | f z = g z})), inter_mem hU hInterior,
    hOpen.inter isOpen_interior, ?_⟩
  rintro z ⟨hz, hClosure⟩
  -- the functions agree at points as close to z as wanted, and are continuous there
  have hSub : ContinuousAt (fun w => f w - g w) z :=
    ((hDiffF.differentiableAt (hOpen.mem_nhds hz)).continuousAt).sub
      ((hDiffG.differentiableAt (hOpen.mem_nhds hz)).continuousAt)
  have hMem := hSub.continuousWithinAt.mem_closure_image (interior_subset hClosure)
  have hZero : (fun w => f w - g w) '' (U ∩ {z | f z = g z}) ⊆ {0} := by
    rintro _ ⟨w, ⟨-, hw⟩, rfl⟩
    exact sub_eq_zero.2 hw
  exact sub_eq_zero.1 (closure_minimal hZero isClosed_singleton hMem)

/-- **Equal functions have equal derivatives.** -/
theorem eventually_deriv_eq (hf : Smooth f) (hg : Smooth g) (hEq : ∀ᶠ z in big, f z = g z) :
    ∀ᶠ z in big, deriv f z = deriv g z := by
  obtain ⟨V, hV, hOpen, hEqOn⟩ := hf.exists_eqOn hg hEq
  refine mem_of_superset hV fun z hz => ?_
  exact (hEqOn.eventuallyEq_of_mem (hOpen.mem_nhds hz)).deriv_eq

/-- The functions of the calculus are applied to smooth functions where they
are holomorphic themselves. -/
theorem comp {h : ℂ → ℂ} {W : Set ℂ} (hOpen : IsOpen W) (hDiff : DifferentiableOn ℂ h W)
    (hf : Smooth f) (hMem : ∀ᶠ z in big, f z ∈ W) :
    Smooth (h ∘ f) ∧ ∀ᶠ z in big, deriv (h ∘ f) z = deriv h (f z) * deriv f z := by
  obtain ⟨U, hU, hOpenU, hDiffU⟩ := hf
  have hOpenV : IsOpen (U ∩ preimage f W) := hDiffU.continuousOn.isOpen_inter_preimage hOpenU hOpen
  have hV : U ∩ preimage f W ∈ big := inter_mem hU hMem
  refine ⟨⟨U ∩ preimage f W, hV, hOpenV, ?_⟩, mem_of_superset hV ?_⟩
  · exact hDiff.comp (hDiffU.mono inter_subset_left) fun z hz => hz.2
  · rintro z ⟨hz, hw⟩
    exact deriv_comp z (hDiff.differentiableAt (hOpen.mem_nhds hw))
      (hDiffU.differentiableAt (hOpenU.mem_nhds hz))

theorem comp_entire {h : ℂ → ℂ} (hDiff : Differentiable ℂ h) (hf : Smooth f) :
    Smooth (h ∘ f) ∧ ∀ᶠ z in big, deriv (h ∘ f) z = deriv h (f z) * deriv f z :=
  comp isOpen_univ hDiff.differentiableOn hf (Eventually.of_forall fun _ => mem_univ _)

theorem inv (hf : Smooth f) (hNonzero : ∀ᶠ z in big, f z ≠ 0) : Smooth (f⁻¹) :=
  (comp isOpen_compl_singleton (differentiableOn_id.inv fun _ hz => hz) hf hNonzero).1

end Smooth

/-! ## The field of germs -/

/-- The germs of smooth functions. -/
def germs : Subfield (Germ (big : Filter ℂ) ℂ) where
  carrier := {x | ∃ f : ℂ → ℂ, Smooth f ∧ (f : Germ (big : Filter ℂ) ℂ) = x}
  zero_mem' := ⟨0, .of_differentiable (differentiable_const 0), rfl⟩
  one_mem' := ⟨1, .of_differentiable (differentiable_const 1), rfl⟩
  add_mem' := by
    rintro _ _ ⟨f, hf, rfl⟩ ⟨g, hg, rfl⟩
    exact ⟨f + g, hf.add hg, rfl⟩
  mul_mem' := by
    rintro _ _ ⟨f, hf, rfl⟩ ⟨g, hg, rfl⟩
    exact ⟨f * g, hf.mul hg, rfl⟩
  neg_mem' := by
    rintro _ ⟨f, hf, rfl⟩
    exact ⟨-f, hf.neg, rfl⟩
  inv_mem' := by
    rintro _ ⟨f, hf, rfl⟩
    by_cases hZero : ∀ᶠ z in big, f z = 0
    · have hGerm : (f : Germ (big : Filter ℂ) ℂ) = 0 := Germ.coe_eq.2 hZero
      rw [hGerm, inv_zero]
      exact ⟨0, .of_differentiable (differentiable_const 0), rfl⟩
    · exact ⟨f⁻¹, hf.inv (Ultrafilter.eventually_not.2 hZero), rfl⟩

namespace Germs

/-- The germ of a smooth function. -/
def mk (f : ℂ → ℂ) (hf : Smooth f) : germs :=
  ⟨f, f, hf, rfl⟩

theorem mk_eq_iff {f g : ℂ → ℂ} (hf : Smooth f) (hg : Smooth g) :
    mk f hf = mk g hg ↔ ∀ᶠ z in big, f z = g z :=
  Subtype.ext_iff.trans Germ.coe_eq

/-- A smooth function with the given germ. -/
def rep (x : germs) : ℂ → ℂ :=
  x.2.choose

theorem smooth_rep (x : germs) : Smooth (rep x) :=
  x.2.choose_spec.1

@[simp] theorem mk_rep (x : germs) : mk (rep x) (smooth_rep x) = x :=
  Subtype.ext x.2.choose_spec.2

/-- The germ that a function of the germs has been given by a representative
does not depend on the choice. -/
theorem eventually_rep_mk {f : ℂ → ℂ} (hf : Smooth f) : ∀ᶠ z in big, rep (mk f hf) z = f z :=
  (mk_eq_iff _ hf).1 (mk_rep _)

theorem eventually_rep_ne_zero {x : germs} (hx : x ≠ 0) : ∀ᶠ z in big, rep x z ≠ 0 := by
  rw [Ultrafilter.eventually_not]
  intro hZero
  refine hx ?_
  rw [← mk_rep x]
  exact (mk_eq_iff _ (.of_differentiable (differentiable_const 0))).2 hZero

/-! ## Differentiating germs -/

/-- The derivative of a germ. -/
def derivative (x : germs) : germs :=
  mk (deriv (rep x)) (smooth_rep x).derivative

theorem derivative_mk {f : ℂ → ℂ} (hf : Smooth f) :
    derivative (mk f hf) = mk (deriv f) hf.derivative :=
  (mk_eq_iff _ _).2 ((smooth_rep _).eventually_deriv_eq hf (eventually_rep_mk hf))

private theorem add_eq_mk (x y : germs) :
    x + y = mk (rep x + rep y) ((smooth_rep x).add (smooth_rep y)) := by
  conv_lhs => rw [← mk_rep x, ← mk_rep y]
  rfl

theorem derivative_add (x y : germs) : derivative (x + y) = derivative x + derivative y := by
  have hRight : derivative x + derivative y =
      mk (deriv (rep x) + deriv (rep y))
        ((smooth_rep x).derivative.add (smooth_rep y).derivative) := rfl
  rw [add_eq_mk, derivative_mk, hRight, mk_eq_iff]
  obtain ⟨U, hU, hOpen, hDiffX, hDiffY⟩ := (smooth_rep x).exists_common (smooth_rep y)
  refine mem_of_superset hU fun z hz => ?_
  exact deriv_add (hDiffX.differentiableAt (hOpen.mem_nhds hz))
    (hDiffY.differentiableAt (hOpen.mem_nhds hz))

theorem derivative_mul (x y : germs) :
    derivative (x * y) = x * derivative y + y * derivative x := by
  have hProduct : x * y = mk (rep x * rep y) ((smooth_rep x).mul (smooth_rep y)) := by
    conv_lhs => rw [← mk_rep x, ← mk_rep y]
    rfl
  have hRight : x * derivative y + y * derivative x =
      mk (rep x * deriv (rep y) + rep y * deriv (rep x))
        (((smooth_rep x).mul (smooth_rep y).derivative).add
          ((smooth_rep y).mul (smooth_rep x).derivative)) := by
    conv_lhs => rw [← mk_rep x, ← mk_rep y]
    rw [derivative_mk, derivative_mk]
    rfl
  rw [hProduct, derivative_mk, hRight, mk_eq_iff]
  obtain ⟨U, hU, hOpen, hDiffX, hDiffY⟩ := (smooth_rep x).exists_common (smooth_rep y)
  refine mem_of_superset hU fun z hz => ?_
  have hDeriv := deriv_mul (hDiffX.differentiableAt (hOpen.mem_nhds hz))
    (hDiffY.differentiableAt (hOpen.mem_nhds hz))
  show deriv (rep x * rep y) z = rep x z * deriv (rep y) z + rep y z * deriv (rep x) z
  rw [hDeriv]
  ring

/-- Differentiation is a derivation of the field of germs. -/
def D : Derivation ℤ germs germs :=
  Derivation.mk' (AddMonoidHom.mk' derivative derivative_add).toIntLinearMap fun x y => by
    show derivative (x * y) = x • derivative y + y • derivative x
    rw [derivative_mul, smul_eq_mul, smul_eq_mul]

theorem D_apply (x : germs) : D x = derivative x := rfl

/-! ## Constant germs -/

/-- The germ of a constant function. -/
def const (c : ℂ) : germs :=
  mk (fun _ => c) (.of_differentiable (differentiable_const c))

theorem const_eq_iff {c d : ℂ} : const c = const d ↔ c = d :=
  (mk_eq_iff _ _).trans eventually_const

theorem const_zero : const 0 = 0 := rfl

theorem const_one : const 1 = 1 := rfl

theorem const_two : const 2 = 2 := by
  have hSum : const (1 + 1) = const 1 + const 1 := rfl
  rw [← one_add_one_eq_two, hSum, const_one, one_add_one_eq_two]

theorem D_const (c : ℂ) : D (const c) = 0 := by
  rw [D_apply, const, derivative_mk, ← const_zero, const, mk_eq_iff]
  exact Eventually.of_forall fun z => deriv_const z c

private theorem germs_two_ne_zero : (2 : germs) ≠ 0 := by
  rw [← const_two, ← const_zero, Ne, const_eq_iff]
  norm_num

/-! ## Functions of germs -/

/-- An entire function applied to a germ. -/
def map (h : ℂ → ℂ) (hDiff : Differentiable ℂ h) (x : germs) : germs :=
  mk (h ∘ rep x) ((smooth_rep x).comp_entire hDiff).1

section

variable {h : ℂ → ℂ} (hDiff : Differentiable ℂ h)

theorem map_mk {f : ℂ → ℂ} (hf : Smooth f) :
    map h hDiff (mk f hf) = mk (h ∘ f) (hf.comp_entire hDiff).1 := by
  rw [map, mk_eq_iff]
  exact (eventually_rep_mk hf).mono fun z hz => congrArg h hz

/-- The chain rule. -/
theorem D_map {h' : ℂ → ℂ} (hDiff' : Differentiable ℂ h') (hDeriv : deriv h = h') (x : germs) :
    D (map h hDiff x) = map h' hDiff' x * D x := by
  obtain ⟨hSmooth, hChain⟩ := (smooth_rep x).comp_entire hDiff
  have hRight : map h' hDiff' x * D x =
      mk ((h' ∘ rep x) * deriv (rep x))
        (((smooth_rep x).comp_entire hDiff').1.mul (smooth_rep x).derivative) := rfl
  rw [D_apply, map, derivative_mk, hRight, mk_eq_iff]
  exact hDeriv ▸ hChain

end

def exp : germs → germs :=
  map Complex.exp Complex.differentiable_exp

def sin : germs → germs :=
  map Complex.sin Complex.differentiable_sin

def cos : germs → germs :=
  map Complex.cos Complex.differentiable_cos

theorem D_exp (u : germs) : D (exp u) = exp u * D u :=
  D_map _ _ Complex.deriv_exp u

theorem D_sin (u : germs) : D (sin u) = cos u * D u :=
  D_map _ _ Complex.deriv_sin u

theorem D_cos (u : germs) : D (cos u) = -sin u * D u :=
  D_map _ Complex.differentiable_sin.neg Complex.deriv_cos' u

theorem sin_sq_add_cos_sq (u : germs) : sin u ^ 2 + cos u ^ 2 = 1 :=
  Subtype.ext (Germ.coe_eq.2 (Eventually.of_forall fun _ => Complex.sin_sq_add_cos_sq _))

theorem exp_add (u v : germs) : exp (u + v) = exp u * exp v := by
  rw [add_eq_mk, exp, map_mk]
  exact Subtype.ext (Germ.coe_eq.2 (Eventually.of_forall fun z => Complex.exp_add _ _))

/-! ## Logarithms and powers -/

/-- A logarithm of a function, on the side of the cut on which most of its
values lie. -/
def logOf (f : ℂ → ℂ) : ℂ → ℂ :=
  open Classical in
  if ∀ᶠ z in big, f z ∈ Complex.slitPlane then Complex.log ∘ f
  else (fun w => Complex.log w + Real.pi * Complex.I) ∘ (-f)

private theorem differentiableOn_log : DifferentiableOn ℂ Complex.log Complex.slitPlane :=
  fun _ hw => (Complex.differentiableAt_log hw).differentiableWithinAt

section

variable {f : ℂ → ℂ} (hf : Smooth f) (hNonzero : ∀ᶠ z in big, f z ≠ 0)
include hNonzero

private theorem eventually_neg_mem (hSlit : ¬ ∀ᶠ z in big, f z ∈ Complex.slitPlane) :
    ∀ᶠ z in big, (-f) z ∈ Complex.slitPlane := by
  filter_upwards [Ultrafilter.eventually_not.2 hSlit, hNonzero] with z hCut hz
  exact (Complex.mem_slitPlane_or_neg_mem_slitPlane hz).resolve_left hCut

theorem exp_logOf : ∀ᶠ z in big, Complex.exp (logOf f z) = f z := by
  rw [logOf]
  split
  · filter_upwards [hNonzero] with z hz
    exact Complex.exp_log hz
  · filter_upwards [hNonzero] with z hz
    have hNeg : -f z ≠ 0 := neg_ne_zero.2 hz
    show Complex.exp (Complex.log (-f z) + Real.pi * Complex.I) = f z
    rw [Complex.exp_add, Complex.exp_log hNeg, Complex.exp_pi_mul_I]
    ring

include hf

theorem smooth_logOf : Smooth (logOf f) := by
  rw [logOf]
  split
  · next hSlit => exact (hf.comp Complex.isOpen_slitPlane differentiableOn_log hSlit).1
  · next hSlit =>
      exact (hf.neg.comp Complex.isOpen_slitPlane (differentiableOn_log.add_const _)
        (eventually_neg_mem hNonzero hSlit)).1

end

/-- The logarithm of a germ; zero has none. -/
def ln (u : germs) : germs :=
  open Classical in
  if hu : u = 0 then 0
  else mk (logOf (rep u)) (smooth_logOf (smooth_rep u) (eventually_rep_ne_zero hu))

theorem exp_ln {u : germs} (hu : u ≠ 0) : exp (ln u) = u := by
  rw [ln, dif_neg hu, exp, map_mk]
  conv_rhs => rw [← mk_rep u]
  rw [mk_eq_iff]
  exact exp_logOf (eventually_rep_ne_zero hu)

theorem D_ln {u : germs} (hu : u ≠ 0) : D (ln u) = D u / u := by
  have hExp := D_exp (ln u)
  rw [exp_ln hu] at hExp
  rw [hExp, mul_div_cancel_left₀ _ hu]

theorem ln_const {c : ℂ} (hc : c ∈ Complex.slitPlane) : ln (const c) = const (Complex.log c) := by
  have hNonzero : const c ≠ 0 := by
    rw [← const_zero, Ne, const_eq_iff]
    exact Complex.slitPlane_ne_zero hc
  have hRep : ∀ᶠ z in big, rep (const c) z = c := eventually_rep_mk _
  have hSlit : ∀ᶠ z in big, rep (const c) z ∈ Complex.slitPlane :=
    hRep.mono fun z hz => hz.symm ▸ hc
  rw [ln, dif_neg hNonzero]
  refine (mk_eq_iff _ (.of_differentiable (differentiable_const _))).2 ?_
  rw [logOf, if_pos hSlit]
  exact hRep.mono fun z hz => congrArg Complex.log hz

/-- A power of a germ. -/
def pow (u v : germs) : germs :=
  open Classical in
  if u = 0 then if v = 0 then 1 else 0
  else exp (v * ln u)

theorem pow_of_ne_zero {u : germs} (hu : u ≠ 0) (v : germs) : pow u v = exp (v * ln u) := by
  rw [pow, if_neg hu]

theorem D_pow {u : germs} (hu : u ≠ 0) (v : germs) : D (pow u v) = pow u v * D (v * ln u) := by
  rw [pow_of_ne_zero hu, D_exp]

theorem pow_two (u : germs) : pow u 2 = u * u := by
  by_cases hu : u = 0
  · rw [pow, if_pos hu, if_neg germs_two_ne_zero, hu, mul_zero]
  · rw [pow_of_ne_zero hu, two_mul, exp_add, exp_ln hu]

theorem D_pow_const (u : germs) {c : germs} (hc : D c = 0) :
    D (pow u c) = c * pow u (c - 1) * D u := by
  by_cases hu : u = 0
  · have hConstant : D (pow u c) = 0 := by
      rw [pow, if_pos hu]
      split
      · exact D.map_one_eq_zero
      · exact map_zero D
    rw [hConstant, hu, map_zero, mul_zero]
  · have hLess : pow u c = pow u (c - 1) * u := by
      have hSplit : c * ln u = (c - 1) * ln u + ln u := by ring
      rw [pow_of_ne_zero hu, pow_of_ne_zero hu, hSplit, exp_add, exp_ln hu]
    rw [D_pow hu, D.leibniz, hc, smul_zero, add_zero, smul_eq_mul, D_ln hu, hLess]
    field_simp

/-- The germ of the identity. -/
def identity : germs :=
  mk id (.of_differentiable differentiable_id)

theorem D_identity : D identity = 1 := by
  rw [D_apply, identity, derivative_mk, ← const_one, const, mk_eq_iff]
  exact Eventually.of_forall fun z => deriv_id z

/-- **The field of germs has a calculus.** -/
def calculus : Calculus germs where
  D := D
  sin := sin
  cos := cos
  tan u := sin u / cos u
  exp := exp
  ln := ln
  log u b := ln u / ln b
  pow := pow
  D_sin := D_sin
  D_cos := D_cos
  sin_sq_add_cos_sq := sin_sq_add_cos_sq
  tan_eq _ := rfl
  D_exp := D_exp
  D_ln := D_ln
  log_eq _ _ := rfl
  pow_two := pow_two
  D_pow_const := D_pow_const
  D_pow := D_pow

end Germs

end

end Fluxion
