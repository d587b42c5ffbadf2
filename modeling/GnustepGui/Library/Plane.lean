import Mathlib.Algebra.Order.Field.Basic
import Mathlib.Tactic.FieldSimp
import Mathlib.Tactic.Ring
import Mathlib.Tactic.Linarith

/-!
# The plane

Points, rectangles and affine maps over a field, with exact arithmetic. A point `(x, y)` goes to
`(m11 x + m21 y + tX, m12 x + m22 y + tY)`, and `f.comp g` applies `g` first (`invert_apply`).
-/

namespace Plane

@[ext]
structure Point (K : Type*) where
  x : K
  y : K
  deriving DecidableEq, Repr

@[ext]
structure Size (K : Type*) where
  width : K
  height : K
  deriving DecidableEq, Repr

@[ext]
structure Rect (K : Type*) where
  origin : Point K
  size : Size K
  deriving DecidableEq, Repr

@[ext]
structure Affine (K : Type*) where
  m11 : K
  m12 : K
  m21 : K
  m22 : K
  tX : K
  tY : K
  deriving DecidableEq, Repr

/-! ## Affine maps -/

namespace Affine

section Ring

variable {K : Type*} [CommRing K]

def one : Affine K :=
  ⟨1, 0, 0, 1, 0, 0⟩

def apply (f : Affine K) (p : Point K) : Point K :=
  ⟨f.m11 * p.x + f.m21 * p.y + f.tX, f.m12 * p.x + f.m22 * p.y + f.tY⟩

def comp (f g : Affine K) : Affine K where
  m11 := f.m11 * g.m11 + f.m21 * g.m12
  m12 := f.m12 * g.m11 + f.m22 * g.m12
  m21 := f.m11 * g.m21 + f.m21 * g.m22
  m22 := f.m12 * g.m21 + f.m22 * g.m22
  tX := f.m11 * g.tX + f.m21 * g.tY + f.tX
  tY := f.m12 * g.tX + f.m22 * g.tY + f.tY

def translation (x y : K) : Affine K :=
  ⟨1, 0, 0, 1, x, y⟩

def scaling (x y : K) : Affine K :=
  ⟨x, 0, 0, y, 0, 0⟩

def det (f : Affine K) : K :=
  f.m11 * f.m22 - f.m12 * f.m21

@[simp] theorem one_apply (p : Point K) : one.apply p = p := by
  ext
  · simp [one, apply]
  · simp [one, apply]

@[simp] theorem comp_one (f : Affine K) : f.comp one = f := by
  ext <;> simp [comp, one]

@[simp] theorem one_comp (f : Affine K) : one.comp f = f := by
  ext <;> simp [comp, one]

theorem comp_assoc (f g h : Affine K) : (f.comp g).comp h = f.comp (g.comp h) := by
  ext
  all_goals
    simp only [comp]
    ring

theorem det_comp (f g : Affine K) : (f.comp g).det = f.det * g.det := by
  simp only [comp, det]
  ring

@[simp] theorem det_translation (x y : K) : (translation x y).det = 1 := by
  simp [translation, det]

@[simp] theorem det_one : (one : Affine K).det = 1 := by
  simp [one, det]

end Ring

section Field

variable {K : Type*} [Field K] [DecidableEq K]

/-- The inverse map, and a map without one as it is. -/
def invert (f : Affine K) : Affine K :=
  if f.det = 0 then f
  else
    { m11 := f.m22 / f.det
      m12 := -f.m12 / f.det
      m21 := -f.m21 / f.det
      m22 := f.m11 / f.det
      tX := (f.m21 * f.tY - f.m22 * f.tX) / f.det
      tY := (f.m12 * f.tX - f.m11 * f.tY) / f.det }

@[simp] theorem invert_one : (one : Affine K).invert = one := by
  rw [invert, if_neg (by simp)]
  ext <;> simp [one, det]

theorem invert_apply {f : Affine K} (h : f.det ≠ 0) (p : Point K) : f.invert.apply (f.apply p) = p := by
  rw [invert, if_neg h]
  ext
  · simp only [apply]
    field_simp
    simp only [det]
    ring
  · simp only [apply]
    field_simp
    simp only [det]
    ring

theorem apply_invert {f : Affine K} (h : f.det ≠ 0) (p : Point K) : f.apply (f.invert.apply p) = p := by
  rw [invert, if_neg h]
  ext
  · simp only [apply]
    field_simp
    simp only [det]
    ring
  · simp only [apply]
    field_simp
    simp only [det]
    ring

end Field

end Affine

/-! ## Rectangles -/

section Order

variable {K : Type*} [Field K] [LinearOrder K] [IsStrictOrderedRing K]

/-- The points of a rectangle, with its edges. -/
def Rect.Contains (r : Rect K) (p : Point K) : Prop :=
  r.origin.x ≤ p.x ∧ p.x ≤ r.origin.x + r.size.width ∧ r.origin.y ≤ p.y ∧ p.y ≤ r.origin.y + r.size.height

/-- The smallest rectangle around the images of the four corners. -/
def boundingRect (f : Point K → Point K) (r : Rect K) : Rect K :=
  let p := f r.origin
  let q := f ⟨r.origin.x + r.size.width, r.origin.y⟩
  let s := f ⟨r.origin.x, r.origin.y + r.size.height⟩
  let t := f ⟨r.origin.x + r.size.width, r.origin.y + r.size.height⟩
  let minX := min (min (min p.x q.x) s.x) t.x
  let minY := min (min (min p.y q.y) s.y) t.y
  { origin := ⟨minX, minY⟩
    size := ⟨max (max (max p.x q.x) s.x) t.x - minX, max (max (max p.y q.y) s.y) t.y - minY⟩ }

/-- A map that scales and translates takes a rectangle to a rectangle. -/
theorem boundingRect_of_scaling {f : Point K → Point K} {a b c d : K}
    (hf : ∀ p, f p = ⟨a * p.x + c, b * p.y + d⟩) (ha : 0 ≤ a) (hb : 0 ≤ b) {r : Rect K} (hw : 0 ≤ r.size.width)
    (hh : 0 ≤ r.size.height) :
    boundingRect f r = ⟨⟨a * r.origin.x + c, b * r.origin.y + d⟩, ⟨a * r.size.width, b * r.size.height⟩⟩ := by
  have hwd : a * r.origin.x + c ≤ a * (r.origin.x + r.size.width) + c := by
    have := mul_nonneg ha hw
    linarith
  have hht : b * r.origin.y + d ≤ b * (r.origin.y + r.size.height) + d := by
    have := mul_nonneg hb hh
    linarith
  simp only [boundingRect, hf, min_self, max_self, min_eq_left hwd, min_eq_left hht, max_eq_right hwd,
    max_eq_right hht, max_eq_left hwd]
  ext
  · rfl
  · rfl
  · simp only
    ring
  · simp only
    ring

theorem boundingRect_size_nonneg (f : Point K → Point K) (r : Rect K) :
    0 ≤ (boundingRect f r).size.width ∧ 0 ≤ (boundingRect f r).size.height := by
  simp only [boundingRect, sub_nonneg]
  constructor
  · exact (min_le_left _ _).trans ((min_le_left _ _).trans ((min_le_left _ _).trans
      ((le_max_left _ _).trans ((le_max_left _ _).trans (le_max_left _ _)))))
  · exact (min_le_left _ _).trans ((min_le_left _ _).trans ((min_le_left _ _).trans
      ((le_max_left _ _).trans ((le_max_left _ _).trans (le_max_left _ _)))))

omit [IsStrictOrderedRing K] in
theorem boundingRect_of_axes {f : Point K → Point K} {fx fy : K → K} (hf : ∀ p, f p = ⟨fx p.x, fy p.y⟩) (r : Rect K) :
    boundingRect f r =
      ⟨⟨min (fx r.origin.x) (fx (r.origin.x + r.size.width)), min (fy r.origin.y) (fy (r.origin.y + r.size.height))⟩,
        ⟨max (fx r.origin.x) (fx (r.origin.x + r.size.width)) - min (fx r.origin.x) (fx (r.origin.x + r.size.width)),
          max (fy r.origin.y) (fy (r.origin.y + r.size.height)) -
            min (fy r.origin.y) (fy (r.origin.y + r.size.height))⟩⟩ := by
  have hm (a b : K) : min (min (min a b) a) b = min a b := by
    rw [min_eq_left (min_le_left a b), min_eq_left (min_le_right a b)]
  have hmax (a b : K) : max (max (max a b) a) b = max a b := by
    rw [max_eq_left (le_max_left a b), max_eq_left (le_max_right a b)]
  have hm' (a b : K) : min (min (min a a) b) b = min a b := by rw [min_self, min_assoc, min_self]
  have hmax' (a b : K) : max (max (max a a) b) b = max a b := by rw [max_self, max_assoc, max_self]
  simp only [boundingRect, hf, hm, hmax, hm', hmax']

theorem boundingRect_boundingRect {f g : Point K → Point K} {fx fy gx gy : K → K} (hf : ∀ p, f p = ⟨fx p.x, fy p.y⟩)
    (hg : ∀ p, g p = ⟨gx p.x, gy p.y⟩) (hx : ∀ t, gx (fx t) = t) (hy : ∀ t, gy (fy t) = t) {r : Rect K}
    (hw : 0 ≤ r.size.width) (hh : 0 ≤ r.size.height) : boundingRect g (boundingRect f r) = r := by
  have ha (fz gz : K → K) (hz : ∀ t, gz (fz t) = t) (z l : K) (hl : 0 ≤ l) :
      min (gz (min (fz z) (fz (z + l)))) (gz (max (fz z) (fz (z + l)))) = z ∧
        max (gz (min (fz z) (fz (z + l)))) (gz (max (fz z) (fz (z + l)))) = z + l := by
    have hle : z ≤ z + l := le_add_of_nonneg_right hl
    obtain h | h := le_total (fz z) (fz (z + l))
    · rw [min_eq_left h, max_eq_right h, hz, hz]
      exact ⟨min_eq_left hle, max_eq_right hle⟩
    · rw [min_eq_right h, max_eq_left h, hz, hz]
      exact ⟨min_eq_right hle, max_eq_left hle⟩
  obtain ⟨hm, hmx⟩ := ha fx gx hx r.origin.x r.size.width hw
  obtain ⟨hmy, hma⟩ := ha fy gy hy r.origin.y r.size.height hh
  rw [boundingRect_of_axes hg, boundingRect_of_axes hf]
  simp only [add_sub_cancel, hm, hmx, hmy, hma, add_sub_cancel_left]

end Order

end Plane
