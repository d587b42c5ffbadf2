import GnustepGui.Table.Table
import Mathlib.Algebra.BigOperators.Group.List.Basic
import Mathlib.Tactic.Linarith
import Mathlib.Tactic.Ring

/-!
# The geometry of one axis

Where the lines of an axis are, and how large they have to be. Every operation keeps the origins and the minimum size.
-/

namespace GnustepGui.Table

/-! ## Origins -/

/-- Each line starts where the one before it ends. -/
def OriginsFrom : ℚ → List Line → Prop
  | _, [] => True
  | s, l :: lines => l.origin = s ∧ OriginsFrom (s + l.dimension) lines

def extentOf (lines : List Line) : ℚ := (lines.map Line.dimension).sum

theorem originsFrom_iff (s : ℚ) (lines : List Line) :
    OriginsFrom s lines ↔ ∀ i l, lines[i]? = some l → l.origin = s + extentOf (lines.take i) := by
  induction lines generalizing s with
  | nil => simp [OriginsFrom]
  | cons l lines ih =>
    rw [OriginsFrom, ih]
    constructor
    · rintro ⟨hl, hlin⟩ i l' hl'
      cases i with
      | zero =>
        obtain rfl := Option.some.inj hl'
        simpa [extentOf] using hl
      | succ i =>
        rw [hlin i l' hl']
        simp [extentOf, add_assoc]
    · intro h
      refine ⟨by simpa [extentOf] using h 0 l rfl, fun i l' hl' => ?_⟩
      rw [h (i + 1) l' hl']
      simp [extentOf, add_assoc]

theorem originsFrom_append (s : ℚ) (pre post : List Line) :
    OriginsFrom s (pre ++ post) ↔ OriginsFrom s pre ∧ OriginsFrom (s + extentOf pre) post := by
  induction pre generalizing s with
  | nil => simp [OriginsFrom, extentOf]
  | cons l pre ih =>
    rw [List.cons_append, OriginsFrom, OriginsFrom, ih, and_assoc]
    simp [extentOf, add_assoc]

theorem OriginsFrom.shift {s : ℚ} {lines : List Line} (h : OriginsFrom s lines) (d : ℚ) :
    OriginsFrom (s + d) (lines.map (Axis.shift d)) := by
  induction lines generalizing s with
  | nil => trivial
  | cons l lines ih =>
    refine ⟨congrArg (· + d) h.1, ?_⟩
    have hr := ih h.2
    rwa [add_right_comm] at hr

theorem originsFrom_fitLines (s : ℚ) (lines : List Line) : OriginsFrom s (Axis.fitLines s lines) := by
  induction lines generalizing s with
  | nil => trivial
  | cons l lines ih => exact ⟨rfl, ih _⟩

theorem OriginsFrom.expandLines {s : ℚ} {lines : List Line} (h : OriginsFrom s lines) (d originShift : ℚ) :
    OriginsFrom (s + originShift) (Axis.expandLines d originShift lines) := by
  induction lines generalizing s originShift with
  | nil => trivial
  | cons l lines ih =>
    refine ⟨congrArg (· + originShift) h.1, ?_⟩
    cases hexpand : l.expand with
    | true =>
      have hr := ih h.2 (originShift + d)
      simp only [if_true]
      rwa [show s + l.dimension + (originShift + d) = s + originShift + (l.dimension + d) by ring] at hr
    | false =>
      have hr := ih h.2 originShift
      simp only [Bool.false_eq_true, if_false]
      rwa [add_right_comm] at hr

/-! ## Minimums -/

def minimumOf (lines : List Line) : ℚ := (lines.map Line.minDimension).sum

theorem minimumOf_append (pre post : List Line) : minimumOf (pre ++ post) = minimumOf pre + minimumOf post := by
  simp [minimumOf]

theorem minimumOf_congr {lines lines' : List Line}
    (h : lines'.map Line.minDimension = lines.map Line.minDimension) : minimumOf lines' = minimumOf lines :=
  congrArg List.sum h

theorem map_minDimension_shift (d : ℚ) (lines : List Line) :
    (lines.map (Axis.shift d)).map Line.minDimension = lines.map Line.minDimension := by
  rw [List.map_map]
  rfl

theorem map_minDimension_fitLines (s : ℚ) (lines : List Line) :
    (Axis.fitLines s lines).map Line.minDimension = lines.map Line.minDimension := by
  induction lines generalizing s with
  | nil => rfl
  | cons l lines ih => rw [Axis.fitLines, List.map_cons, ih, List.map_cons]

theorem map_minDimension_expandLines (d s : ℚ) (lines : List Line) :
    (Axis.expandLines d s lines).map Line.minDimension = lines.map Line.minDimension := by
  induction lines generalizing s with
  | nil => rfl
  | cons l lines ih => rw [Axis.expandLines, List.map_cons, ih, List.map_cons]

/-! ## What has been put in the lines -/

/-- The largest extent put in a line, of the lines and the extents given; 0 if there is none. -/
def largest (puts : List (Nat × ℚ)) (i : Nat) : ℚ :=
  puts.foldl (fun m p => if p.1 = i then max m p.2 else m) 0

theorem largest_put_self (puts : List (Nat × ℚ)) (i : Nat) (extent : ℚ) :
    largest (puts ++ [(i, extent)]) i = max (largest puts i) extent := by
  rw [largest, List.foldl_append, List.foldl_cons, List.foldl_nil, if_pos rfl, largest]

theorem largest_put_ne (puts : List (Nat × ℚ)) {i j : Nat} (h : i ≠ j) (extent : ℚ) :
    largest (puts ++ [(i, extent)]) j = largest puts j := by
  rw [largest, List.foldl_append, List.foldl_cons, List.foldl_nil, if_neg h, largest]

theorem largest_of_forall_lt {puts : List (Nat × ℚ)} {i : Nat} (h : ∀ p ∈ puts, p.1 < i) : largest puts i = 0 := by
  rw [largest]
  induction puts with
  | nil => rfl
  | cons p puts ih =>
    obtain ⟨hp, h⟩ := List.forall_mem_cons.mp h
    rw [List.foldl_cons, if_neg (Nat.ne_of_lt hp), ih h]

/-! ## An axis that is laid out -/

/-- Origins, minimum size and minimum dimensions are as they have to be for what has been put in the lines. -/
structure Laid (a : Axis) (puts : List (Nat × ℚ)) : Prop where
  origins : ∀ i l, a.lines[i]? = some l → l.origin = a.minBorder + extentOf (a.lines.take i)
  minimum : a.minimum = a.minBorder + a.maxBorder + minimumOf a.lines
  dimensions : ∀ l ∈ a.lines, l.minDimension ≤ l.dimension
  minDimensions : ∀ i l, a.lines[i]? = some l → l.minDimension = largest puts i

/-- There are lines, and views have been put in them only. -/
structure Fits (a : Axis) (puts : List (Nat × ℚ)) : Prop where
  nonempty : a.lines ≠ []
  puts_lt : ∀ p ∈ puts, p.1 < a.lines.length

namespace Axis

variable {a : Axis} {puts : List (Nat × ℚ)}

variable {lines lines' : List Line}

theorem minDimensions_congr (h : lines'.map Line.minDimension = lines.map Line.minDimension)
    (hlar : ∀ i l, lines[i]? = some l → l.minDimension = largest puts i) :
    ∀ i l, lines'[i]? = some l → l.minDimension = largest puts i := by
  intro i l hl
  have hi : (lines.map Line.minDimension)[i]? = some l.minDimension := by
    rw [← h, List.getElem?_map, hl]
    rfl
  rw [List.getElem?_map] at hi
  obtain ⟨l', hl', heq⟩ := Option.map_eq_some_iff.mp hi
  rw [← heq]
  exact hlar i l' hl'

variable {i : Nat}

theorem map_set_same {β : Type*} {f : Line → β} {lines : List Line} {l l' : Line} (hl : lines[i]? = some l)
    (h : f l' = f l) : (lines.set i l').map f = lines.map f := by
  have hi : (lines.map f)[i]? = some (f l) := by
    rw [List.getElem?_map, hl]
    rfl
  obtain ⟨hlt, hg⟩ := List.getElem?_eq_some_iff.mp hi
  rw [List.map_set, h, ← hg, List.set_getElem_self]

theorem originsFrom_congr
    (h : lines'.map (fun l => (l.origin, l.dimension)) = lines.map fun l => (l.origin, l.dimension)) {s : ℚ}
    (hlin : OriginsFrom s lines) : OriginsFrom s lines' := by
  induction lines generalizing lines' s with
  | nil =>
    rw [List.map_nil, List.map_eq_nil_iff] at h
    rw [h]
    trivial
  | cons l lines ih =>
    cases lines' with
    | nil => cases h
    | cons l' lines' =>
      obtain ⟨hl, hr⟩ := List.cons.inj h
      obtain ⟨ho, hd⟩ := Prod.mk.inj hl
      refine ⟨ho.trans hlin.1, ?_⟩
      rw [hd]
      exact ih hr hlin.2

/-! ## Operations that keep the geometry -/

theorem init_laid (number : Int) : Laid (init number) [] ∧ Fits (init number) [] := by
  have hlin (n : Nat) : ∀ l ∈ List.replicate n (⟨true, 0, 0, 0⟩ : Line), l = ⟨true, 0, 0, 0⟩ :=
    fun l hl => (List.mem_replicate.mp hl).2
  have hextent (n : Nat) : extentOf (List.replicate n ⟨true, 0, 0, 0⟩) = 0 := by simp [extentOf]
  refine ⟨⟨fun i l hl => ?_, ?_, fun l hl => ?_, fun i l hl => ?_⟩, fun h => ?_, nofun⟩
  · rw [hlin _ l (List.mem_of_getElem? hl), init, List.take_replicate, hextent]
    exact (add_zero 0).symm
  · simp [init, minimumOf]
  · rw [hlin _ l hl]
  · rw [hlin _ l (List.mem_of_getElem? hl)]
    rfl
  · rw [init, List.replicate_eq_nil_iff] at h
    split at h <;> omega

theorem setMinBorder_laid (h : Laid a puts) (border : ℚ) : Laid (a.setMinBorder border) puts := by
  have ho := ((originsFrom_iff _ _).mpr h.origins).shift ((if border < 0 then 0 else border) - a.minBorder)
  have hm := map_minDimension_shift ((if border < 0 then 0 else border) - a.minBorder) a.lines
  refine ⟨?_, ?_, ?_, minDimensions_congr hm h.minDimensions⟩
  · rw [← originsFrom_iff]
    rwa [add_sub_cancel] at ho
  · show a.minimum + ((if border < 0 then 0 else border) - a.minBorder) =
      (if border < 0 then 0 else border) + a.maxBorder + minimumOf (a.lines.map _)
    rw [h.minimum, minimumOf_congr hm]
    ring
  · intro l hl
    obtain ⟨l', hl', rfl⟩ := List.mem_map.mp hl
    exact h.dimensions l' hl'

theorem setMaxBorder_laid (h : Laid a puts) (border : ℚ) : Laid (a.setMaxBorder border) puts := by
  refine ⟨h.origins, ?_, h.dimensions, h.minDimensions⟩
  show a.minimum + ((if border < 0 then 0 else border) - a.maxBorder) =
    a.minBorder + (if border < 0 then 0 else border) + minimumOf a.lines
  rw [h.minimum]
  ring

theorem dimension_fitLines (s : ℚ) (lines : List Line) : ∀ l ∈ fitLines s lines, l.minDimension ≤ l.dimension := by
  induction lines generalizing s with
  | nil => exact nofun
  | cons l lines ih => exact List.forall_mem_cons.mpr ⟨le_rfl, ih _⟩

theorem fit_laid (h : Laid a puts) (frame : ℚ) :
    Laid { a with lines := fitLines a.minBorder a.lines, frame := frame } puts := by
  have hm := map_minDimension_fitLines a.minBorder a.lines
  refine ⟨(originsFrom_iff _ _).mp (originsFrom_fitLines _ _), ?_, dimension_fitLines _ _,
    minDimensions_congr hm h.minDimensions⟩
  exact h.minimum.trans (congrArg (a.minBorder + a.maxBorder + ·) (minimumOf_congr hm).symm)

/-- Nothing but the flags of the lines is different. -/
theorem laid_congr {a' : Axis} (h : Laid a puts) (hb : (a'.minBorder, a'.maxBorder, a'.minimum) =
    (a.minBorder, a.maxBorder, a.minimum)) (hlin : a'.lines.map (fun l => (l.origin, l.dimension, l.minDimension)) =
      a.lines.map fun l => (l.origin, l.dimension, l.minDimension)) : Laid a' puts := by
  obtain ⟨hmn, hr⟩ := Prod.mk.inj hb
  obtain ⟨hmx, hmi⟩ := Prod.mk.inj hr
  have ho : a'.lines.map (fun l => (l.origin, l.dimension)) = a.lines.map fun l => (l.origin, l.dimension) := by
    have hp := congrArg (List.map fun t : ℚ × ℚ × ℚ => (t.1, t.2.1)) hlin
    rwa [List.map_map, List.map_map] at hp
  have hm : a'.lines.map Line.minDimension = a.lines.map Line.minDimension := by
    have hms := congrArg (List.map fun t : ℚ × ℚ × ℚ => t.2.2) hlin
    rwa [List.map_map, List.map_map] at hms
  refine ⟨?_, ?_, fun l hl => ?_, minDimensions_congr hm h.minDimensions⟩
  · rw [← originsFrom_iff, hmn]
    exact originsFrom_congr ho ((originsFrom_iff _ _).mpr h.origins)
  · rw [hmi, hmn, hmx, minimumOf_congr hm, h.minimum]
  · have hmem := List.mem_map_of_mem (f := fun l : Line => (l.origin, l.dimension, l.minDimension)) hl
    rw [hlin] at hmem
    obtain ⟨l', hl', heq⟩ := List.mem_map.mp hmem
    have hd : l'.dimension = l.dimension := congrArg (fun t : ℚ × ℚ × ℚ => t.2.1) heq
    have hmd : l'.minDimension = l.minDimension := congrArg (fun t : ℚ × ℚ × ℚ => t.2.2) heq
    rw [← hd, ← hmd]
    exact h.dimensions l' hl'

theorem setResizingEnabled_laid (h : Laid a puts) (flag : Bool) (i : Int) :
    Laid (a.setResizingEnabled flag i) puts := by
  unfold setResizingEnabled
  split
  · exact h
  · cases hl : a.lines[i.toNat]? with
    | none => exact h
    | some l =>
      dsimp only
      split
      · exact laid_congr h rfl (map_set_same hl rfl)
      · split
        · exact laid_congr h rfl (map_set_same hl rfl)
        · exact h

theorem length_setResizingEnabled (flag : Bool) (i : Int) :
    (a.setResizingEnabled flag i).lines.length = a.lines.length := by
  unfold setResizingEnabled
  split
  · rfl
  · cases a.lines[i.toNat]? with
    | none => rfl
    | some l =>
      dsimp only
      split
      · exact List.length_set
      · split
        · exact List.length_set
        · rfl

theorem extentOf_append (pre post : List Line) : extentOf (pre ++ post) = extentOf pre + extentOf post := by
  simp [extentOf]

theorem addLine_laid (h : Laid a puts) (hf : Fits a puts) : Laid a.addLine puts := by
  have hls := List.getLast?_eq_some_getLast hf.nonempty
  obtain ⟨pre, hpre⟩ := List.getLast?_eq_some_iff.mp hls
  generalize a.lines.getLast hf.nonempty = last at hls hpre
  have ho : OriginsFrom a.minBorder a.lines := (originsFrom_iff _ _).mpr h.origins
  have hb : last.origin + last.dimension = a.minBorder + extentOf a.lines := by
    rw [hpre, originsFrom_append] at ho
    rw [ho.2.1, hpre, extentOf_append]
    simp [extentOf, add_assoc]
  have hlin : a.addLine.lines = a.lines ++ [⟨true, 0, last.origin + last.dimension, 0⟩] := by
    rw [addLine, hls]
    rfl
  refine ⟨?_, ?_, ?_, fun i l hl => ?_⟩
  · rw [← originsFrom_iff, hlin, originsFrom_append]
    exact ⟨ho, hb, trivial⟩
  · rw [hlin, minimumOf_append]
    exact h.minimum.trans (by simp [minimumOf]; rfl)
  · rw [hlin, List.forall_mem_append]
    refine ⟨h.dimensions, fun l hl => ?_⟩
    rw [List.mem_singleton.mp hl]
  · rw [hlin, List.getElem?_append] at hl
    split at hl
    · exact h.minDimensions i l hl
    · next hi =>
      rw [List.getElem?_singleton] at hl
      split at hl
      · obtain rfl := Option.some.inj hl
        exact (largest_of_forall_lt fun p hp => Nat.lt_of_lt_of_le (hf.puts_lt p hp) (Nat.le_of_not_lt hi)).symm
      · cases hl

/-! ## Larger and smaller frames -/

/-- What an expanding line gives when the frame is reduced: its share of the reduction. -/
def share (a : Axis) (size : ℚ) : ℚ := -a.dimensionIncrement size

/-- No line gives more than it has beyond its minimum. -/
def Affords (a : Axis) (size : ℚ) : Prop :=
  a.minimum < size → a.expandingNumber ≠ 0 → ∀ l ∈ a.lines, l.expand = true → a.share size ≤ l.dimension - l.minDimension

theorem dimension_expandLines (d s : ℚ) (lines : List Line) :
    (∀ l ∈ expandLines d s lines, l.minDimension ≤ l.dimension) ↔
      ∀ l ∈ lines, l.minDimension ≤ if l.expand then l.dimension + d else l.dimension := by
  induction lines generalizing s with
  | nil => exact iff_of_true nofun nofun
  | cons l lines ih => rw [expandLines, List.forall_mem_cons, List.forall_mem_cons, ih]

/-- A frame that is at least of the minimum size. -/
theorem setFrameSize_laid_iff (h : Laid a puts) (size : ℚ) : Laid (a.setFrameSize size) puts ↔ a.Affords size := by
  unfold setFrameSize
  by_cases hs : size ≤ a.minimum
  · rw [if_pos hs]
    refine iff_of_true ?_ fun hlrg => absurd hlrg (not_lt.mpr hs)
    split
    · exact fit_laid h size
    · exact laid_congr h rfl rfl
  · rw [if_neg hs]
    have hlrg := not_le.mp hs
    by_cases hexpand : size ≠ (if a.frame < a.minimum then a.minimum else a.frame) ∧ a.expandingNumber ≠ 0
    · rw [if_pos hexpand]
      have hm := map_minDimension_expandLines (a.dimensionIncrement size) 0 a.lines
      have ho := ((originsFrom_iff _ _).mpr h.origins).expandLines (a.dimensionIncrement size) 0
      have ha : a.Affords size ↔
          ∀ l ∈ a.lines, l.minDimension ≤ if l.expand then l.dimension + a.dimensionIncrement size else l.dimension := by
        rw [Affords, forall_prop_of_true hlrg, forall_prop_of_true hexpand.2]
        refine forall₂_congr fun l hl => ?_
        have hd := h.dimensions l hl
        cases l.expand with
        | true =>
          simp only [forall_const, if_true, share]
          rw [neg_le_sub_iff_le_add]
        | false => simpa using hd
      rw [ha, ← dimension_expandLines _ 0]
      refine ⟨fun hld => hld.dimensions, fun hdm => ⟨?_, ?_, hdm, ?_⟩⟩
      · rw [← originsFrom_iff]
        rwa [add_zero] at ho
      · exact h.minimum.trans (congrArg (a.minBorder + a.maxBorder + ·) (minimumOf_congr hm).symm)
      · exact minDimensions_congr hm h.minDimensions
    · rw [if_neg hexpand]
      refine iff_of_true (laid_congr h rfl rfl) fun _ hn l hl _ => ?_
      have hsm : size = if a.frame < a.minimum then a.minimum else a.frame := not_not.mp fun hne => hexpand ⟨hne, hn⟩
      rw [share, dimensionIncrement, ← hsm, sub_self, zero_div, neg_zero]
      exact sub_nonneg.mpr (h.dimensions l hl)

/-! ## Views -/

/-- The view fills the line, or the line is at its minimum. -/
def Filled (a : Axis) (i : Nat) (extent : ℚ) : Prop :=
  ∀ l, a.lines[i]? = some l → l.dimension ≤ extent ∨ l.dimension = l.minDimension

/-- One minimum is different. -/
theorem minDimensions_set_iff {m extent : ℚ} (hi : i < lines.length)
    (h : lines'.map Line.minDimension = (lines.map Line.minDimension).set i m)
    (hlar : ∀ j l, lines[j]? = some l → l.minDimension = largest puts j) :
    (∀ j l, lines'[j]? = some l → l.minDimension = largest (puts ++ [(i, extent)]) j) ↔
      m = max (largest puts i) extent := by
  have hg (j : Nat) : (lines'[j]?).map Line.minDimension = ((lines.map Line.minDimension).set i m)[j]? := by
    rw [← h, List.getElem?_map]
  have hs : (lines'[i]?).map Line.minDimension = some m := by
    rw [hg, List.getElem?_set_self (by rwa [List.length_map])]
  obtain ⟨l', hl', hm⟩ := Option.map_eq_some_iff.mp hs
  constructor
  · intro ha
    rw [← hm, ha i l' hl', largest_put_self]
  · intro hmax j l hl
    by_cases hij : i = j
    · subst hij
      rw [hl'] at hl
      obtain rfl := Option.some.inj hl
      rw [hm, hmax, largest_put_self]
    · have hj := hg j
      rw [hl, List.getElem?_set_ne hij, List.getElem?_map] at hj
      obtain ⟨l'', hl'', heq⟩ := Option.map_eq_some_iff.mp hj.symm
      rw [← heq, hlar j l'' hl'', largest_put_ne _ hij]

theorem take_cons_drop {lines : List Line} {l : Line} (hl : lines[i]? = some l) :
    lines.take i ++ l :: lines.drop (i + 1) = lines := by
  obtain ⟨hi, hg⟩ := List.getElem?_eq_some_iff.mp hl
  rw [← hg, List.getElem_cons_drop, List.take_append_drop]

theorem minimumOf_set {l : Line} {d : ℚ} (hl : lines[i]? = some l)
    (h : lines'.map Line.minDimension = (lines.map Line.minDimension).set i (l.minDimension + d)) :
    minimumOf lines' = minimumOf lines + d := by
  have hi := (List.getElem?_eq_some_iff.mp hl).1
  rw [minimumOf, h, minimumOf]
  have hs : (lines.map Line.minDimension).set i (l.minDimension + d) =
      (lines.take i).map Line.minDimension ++ (l.minDimension + d) :: (lines.drop (i + 1)).map Line.minDimension := by
    rw [List.set_eq_take_append_cons_drop, if_pos (by rwa [List.length_map]), List.map_take, List.map_drop]
  rw [hs]
  conv_rhs => rw [← take_cons_drop hl]
  rw [List.map_append, List.map_cons, List.sum_append, List.sum_append, List.sum_cons, List.sum_cons]
  ring

theorem origins_grow {s extent : ℚ} {lines : List Line} {l l' : Line} (h : OriginsFrom s lines)
    (hl : lines[i]? = some l) (ho : l'.origin = l.origin) (hd : l'.dimension = extent) :
    OriginsFrom s (lines.take i ++ l' :: (lines.drop (i + 1)).map (shift (extent - l.dimension))) := by
  rw [← take_cons_drop hl, originsFrom_append] at h
  obtain ⟨hp, hln, hps⟩ := h
  rw [originsFrom_append]
  refine ⟨hp, ho.trans hln, ?_⟩
  have hs := hps.shift (extent - l.dimension)
  rw [hd]
  rwa [add_assoc, add_sub_cancel] at hs

theorem put_laid_iff (h : Laid a puts) (hi : i < a.lines.length) (extent : ℚ) :
    Laid (a.put i extent) (puts ++ [(i, extent)]) ↔ a.Filled i extent := by
  have hl : a.lines[i]? = some a.lines[i] := List.getElem?_eq_getElem hi
  have hlar := h.minDimensions i _ hl
  have hd := h.dimensions _ (List.mem_of_getElem? hl)
  have ho : OriginsFrom a.minBorder a.lines := (originsFrom_iff _ _).mpr h.origins
  have hfld : a.Filled i extent ↔ a.lines[i].dimension ≤ extent ∨ a.lines[i].dimension = a.lines[i].minDimension := by
    rw [Filled]
    simp only [hl, Option.some.injEq, forall_eq']
  rw [hfld, put, hl]
  dsimp only
  generalize a.lines[i] = l at hl hlar hd
  by_cases hg : l.dimension < extent
  · have hov : l.minDimension < extent := hd.trans_lt hg
    rw [if_pos hg, if_pos hov]
    refine iff_of_true ?_ (.inl hg.le)
    have hm : (a.lines.take i ++ { l with dimension := extent, minDimension := l.minDimension + (extent - l.minDimension) } ::
        (a.lines.drop (i + 1)).map (shift (extent - l.dimension))).map Line.minDimension =
          (a.lines.map Line.minDimension).set i (l.minDimension + (extent - l.minDimension)) := by
      rw [List.map_append, List.map_cons, map_minDimension_shift, List.set_eq_take_append_cons_drop,
        if_pos (by rwa [List.length_map]), List.map_take, List.map_drop]
    refine ⟨?_, ?_, ?_, ?_⟩
    · rw [← originsFrom_iff]
      exact origins_grow ho hl rfl rfl
    · show a.minimum + _ = a.minBorder + a.maxBorder + minimumOf _
      rw [minimumOf_set hl hm, h.minimum, add_assoc]
    · rw [List.forall_mem_append, List.forall_mem_cons]
      refine ⟨fun l' hl' => h.dimensions l' (List.mem_of_mem_take hl'), ?_, fun l' hl' => ?_⟩
      · show l.minDimension + (extent - l.minDimension) ≤ extent
        rw [add_sub_cancel]
      · obtain ⟨l'', hl'', rfl⟩ := List.mem_map.mp hl'
        exact h.dimensions l'' (List.mem_of_mem_drop hl'')
    · refine (minDimensions_set_iff hi hm h.minDimensions).mpr ?_
      rw [add_sub_cancel, ← hlar, max_eq_right hov.le]
  · rw [if_neg hg]
    have hgn : l.minDimension + (if l.minDimension < l.dimension then l.dimension - l.minDimension else 0) =
        l.dimension := by
      split
      · exact add_sub_cancel _ _
      · next hn => rw [add_zero, le_antisymm hd (not_lt.mp hn)]
    generalize (if l.minDimension < l.dimension then l.dimension - l.minDimension else 0) = grown at hgn
    have hm : (a.lines.set i { l with minDimension := l.minDimension + grown }).map Line.minDimension =
        (a.lines.map Line.minDimension).set i (l.minDimension + grown) := List.map_set
    have hiff : _ ↔ l.minDimension + grown = max (largest puts i) extent := minDimensions_set_iff hi hm h.minDimensions
    have hk : Laid { a with
        minimum := a.minimum + grown
        lines := a.lines.set i { l with minDimension := l.minDimension + grown } } (puts ++ [(i, extent)]) ↔
          l.minDimension + grown = max (largest puts i) extent := by
      refine ⟨fun hld => hiff.mp hld.minDimensions, fun hmax => ⟨?_, ?_, fun l' hl' => ?_, hiff.mpr hmax⟩⟩
      · rw [← originsFrom_iff]
        refine originsFrom_congr ?_ ho
        exact map_set_same hl rfl
      · show a.minimum + _ = a.minBorder + a.maxBorder + minimumOf _
        rw [minimumOf_set hl hm, h.minimum, add_assoc]
      · rcases List.mem_or_eq_of_mem_set hl' with hmem | rfl
        · exact h.dimensions l' hmem
        · exact hgn.le
    rw [hk, hgn, ← hlar]
    have hle := not_lt.mp hg
    constructor
    · intro hmax
      rcases max_choice l.minDimension extent with hc | hc
      · exact .inr (hmax.trans hc)
      · exact .inl (hmax.trans hc).le
    · rintro (hf | hm)
      · rw [max_eq_right (hd.trans hf), le_antisymm hf hle]
      · rw [← hm, max_eq_left hle]

end Axis

end GnustepGui.Table
