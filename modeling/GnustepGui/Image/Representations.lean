import Mathlib.Data.NNRat.Floor
import Mathlib.Tactic.Linarith
import Mathlib.Tactic.Positivity

/-!
# The representations of an image

An `NSImage` passes its representations through three filters for the device, and of those that are left
`bestRepresentationForRect:context:hints:` takes the smallest one that is large enough. It keeps one that is as large in
one direction and larger in the other, when that comes first.
-/

namespace GnustepGui.Image

structure NSSize where
  width : ℚ≥0
  height : ℚ≥0
  deriving DecidableEq

/-- Less in both directions. -/
abbrev NSSize.Below (s t : NSSize) : Prop := s.width < t.width ∧ s.height < t.height

/-- No pixels, or no bits, match every device. -/
structure NSImageRep where
  size : NSSize
  pixelsWide : Nat
  pixelsHigh : Nat
  colorSpaceName : Option String
  bitsPerSample : Int
  deriving DecidableEq

structure DeviceDescription where
  colorSpaceName : Option String
  resolution : Option NSSize
  bitsPerSample : Option Int

/-- The flags of an image. -/
structure MatchFlags where
  colorMatchPreferred : Bool
  matchesOnMultipleResolution : Bool
  usesEPSOnResolutionMismatch : Bool

def numberOfColorComponents (colorSpaceName : String) : Nat :=
  if colorSpaceName = "NSCalibratedRGBColorSpace" ∨ colorSpaceName = "NSDeviceRGBColorSpace" then 3
  else if colorSpaceName = "NSDeviceCMYKColorSpace" then 4
  else 1

/-- All of them where a filter keeps none. -/
def orAll (breps reps : List NSImageRep) : List NSImageRep := if breps = [] then reps else breps

def bestRepWithColorMatch (dev : DeviceDescription) (reps : List NSImageRep) : List NSImageRep :=
  match dev.colorSpaceName with
  | none => orAll [] reps
  | some deviceColorSpace =>
    let matching := fun rep : NSImageRep => rep.colorSpaceName.all fun name =>
      numberOfColorComponents name = numberOfColorComponents deviceColorSpace
    orAll (reps.filter matching) reps

/-- In floating point a number is a multiple of 0 unless it is 0. -/
def isMultiple (x y : ℚ≥0) : Bool := if y = 0 then x ≠ 0 else x / y = ⌊x / y⌋₊

def isIntegerMultiple (size baseSize : NSSize) : Bool :=
  size = baseSize || (isMultiple size.width baseSize.width && isMultiple size.height baseSize.height)

def resolution (rep : NSImageRep) : NSSize :=
  if rep.size.width = 0 ∨ rep.size.height = 0 then ⟨0, 0⟩
  else if rep.pixelsWide = 0 ∨ rep.pixelsHigh = 0 then ⟨0, 0⟩
  else ⟨72 * rep.pixelsWide / rep.size.width, 72 * rep.pixelsHigh / rep.size.height⟩

/-- `none` is `CGFLOAT_MAX`. -/
def closer (dres : NSSize) (closestRes : Option NSSize) (rep : NSImageRep) : Option NSSize :=
  let repRes := resolution rep
  let difference := fun x y : ℚ≥0 => |(x : ℚ) - y|
  if ∀ c ∈ closestRes, difference repRes.width dres.width < difference c.width dres.width ∧
      difference repRes.height dres.height < difference c.height dres.height then some repRes
  else closestRes

/-- The representations that match the resolution of the device. -/
def deviceMatches (im : MatchFlags) (dev : DeviceDescription) (reps : List NSImageRep) : List NSImageRep :=
  match dev.resolution with
  | none => []
  | some dres =>
    if im.matchesOnMultipleResolution = false then reps.filter fun rep => resolution rep = dres
    else
      let integerMultiples := reps.filter fun rep => isIntegerMultiple (resolution rep) dres
      integerMultiples.filter fun rep => integerMultiples.foldl (closer dres) none = some (resolution rep)

def isVector (rep : NSImageRep) : Bool := rep.pixelsWide = 0 && rep.pixelsHigh = 0

def maxRes (reps : List NSImageRep) : NSSize :=
  reps.foldl (fun best rep => if best.Below (resolution rep) then resolution rep else best) ⟨0, 0⟩

def bestRepWithResolutionMatch (im : MatchFlags) (dev : DeviceDescription) (reps : List NSImageRep) :
    List NSImageRep :=
  let breps := deviceMatches im dev reps
  let breps := if breps = [] ∧ im.usesEPSOnResolutionMismatch then reps.filter isVector else breps
  let breps := if breps = [] then reps.filter fun rep => resolution rep = maxRes reps else breps
  orAll breps reps

def bestRepWithBpsMatch (dev : DeviceDescription) (reps : List NSImageRep) : List NSImageRep :=
  match dev.bitsPerSample with
  | none => orAll [] reps
  | some deviceBps =>
    let maxBps := reps.foldl (fun best rep => if best < rep.bitsPerSample then rep.bitsPerSample else best) (-1)
    let haveDeviceBps := reps.any fun rep => rep.bitsPerSample = deviceBps
    let matching := fun rep : NSImageRep => rep.bitsPerSample = 0 ∨
      (!haveDeviceBps ∧ rep.bitsPerSample = maxBps) ∨ (haveDeviceBps ∧ rep.bitsPerSample = deviceBps)
    orAll (reps.filter fun rep => matching rep) reps

def bestRepresentationsForDevice (im : MatchFlags) (dev : DeviceDescription) (reps : List NSImageRep) :
    List NSImageRep :=
  let reps :=
    if im.colorMatchPreferred then bestRepWithResolutionMatch im dev (bestRepWithColorMatch dev reps)
    else bestRepWithColorMatch dev (bestRepWithResolutionMatch im dev reps)
  bestRepWithBpsMatch dev reps

abbrev Fits (desiredSize : NSSize) (rep : NSImageRep) : Prop :=
  desiredSize.width ≤ rep.size.width ∧ desiredSize.height ≤ rep.size.height

/-- It is large enough and below the best one so far; without one that has the size `CGFLOAT_MAX`. -/
abbrev Better (desiredSize : NSSize) (best : Option NSImageRep) (rep : NSImageRep) : Prop :=
  Fits desiredSize rep ∧ ∀ b ∈ best, rep.size.Below b.size

def smallestFitting (desiredSize : NSSize) (best : Option NSImageRep) (reps : List NSImageRep) : Option NSImageRep :=
  reps.foldl (fun best rep => if Better desiredSize best rep then some rep else best) best

def bestRepresentationForRect (im : MatchFlags) (dev : DeviceDescription) (desiredSize : NSSize)
    (reps : List NSImageRep) : Option NSImageRep :=
  let reps := bestRepresentationsForDevice im dev reps
  match smallestFitting desiredSize none reps with
  | some rep => some rep
  | none => reps.getLast?

/-- Smaller in one direction and not larger in the other. -/
def Smaller (s t : NSSize) : Prop := s.width < t.width ∧ s.height ≤ t.height ∨ s.width ≤ t.width ∧ s.height < t.height

/-- A good choice, from filters that never drop everything. -/
structure ChoosesWell (im : MatchFlags) (dev : DeviceDescription) (desiredSize : NSSize) (reps : List NSImageRep) :
    Prop where
  filters : ∀ f ∈ [bestRepWithColorMatch dev, bestRepWithResolutionMatch im dev, bestRepWithBpsMatch dev],
    ∀ l, (f l).Sublist l ∧ (l ≠ [] → f l ≠ [])
  bitmaps : ∀ l, deviceMatches im dev l = [] → ∀ rep ∈ bestRepWithResolutionMatch im dev l, isVector rep = false →
    ∀ rep' ∈ l, ¬ (resolution rep).Below (resolution rep')
  survives : reps ≠ [] → ∃ rep ∈ bestRepresentationsForDevice im dev reps,
    bestRepresentationForRect im dev desiredSize reps = some rep
  smallest : (∃ rep ∈ bestRepresentationsForDevice im dev reps, Fits desiredSize rep) →
    ∃ rep ∈ bestRepresentationsForDevice im dev reps, bestRepresentationForRect im dev desiredSize reps = some rep ∧
      Fits desiredSize rep ∧
      ∀ rep' ∈ bestRepresentationsForDevice im dev reps, Fits desiredSize rep' → ¬ Smaller rep'.size rep.size

/-- Where one that fits is smaller than the best one so far in one direction only, and as large in the other, one that
is smaller in both comes later. -/
def Replaced (desiredSize : NSSize) : Option NSImageRep → List NSImageRep → Prop
  | _, [] => True
  | best, rep :: reps =>
    if Better desiredSize best rep then Replaced desiredSize (some rep) reps
    else
      (∀ b ∈ best, Fits desiredSize rep → Smaller rep.size b.size →
        ∃ rep' ∈ reps, Fits desiredSize rep' ∧ rep'.size.Below b.size) ∧ Replaced desiredSize best reps

/-! ## The filters -/

theorem orAll_spec {breps reps : List NSImageRep} (h : breps.Sublist reps) :
    (orAll breps reps).Sublist reps ∧ (reps ≠ [] → orAll breps reps ≠ []) := by
  unfold orAll
  split
  · exact ⟨List.Sublist.refl _, id⟩
  · rename_i hne
    exact ⟨h, fun _ => hne⟩

theorem color_spec (dev : DeviceDescription) (l : List NSImageRep) :
    (bestRepWithColorMatch dev l).Sublist l ∧ (l ≠ [] → bestRepWithColorMatch dev l ≠ []) := by
  unfold bestRepWithColorMatch
  split
  · exact orAll_spec (List.nil_sublist _)
  · exact orAll_spec List.filter_sublist

theorem bps_spec (dev : DeviceDescription) (l : List NSImageRep) :
    (bestRepWithBpsMatch dev l).Sublist l ∧ (l ≠ [] → bestRepWithBpsMatch dev l ≠ []) := by
  unfold bestRepWithBpsMatch
  split
  · exact orAll_spec (List.nil_sublist _)
  · exact orAll_spec List.filter_sublist

theorem deviceMatches_sublist (im : MatchFlags) (dev : DeviceDescription) (l : List NSImageRep) :
    (deviceMatches im dev l).Sublist l := by
  unfold deviceMatches
  split
  · exact List.nil_sublist _
  · split
    · exact List.filter_sublist
    · exact List.filter_sublist.trans List.filter_sublist

theorem resolution_spec (im : MatchFlags) (dev : DeviceDescription) (l : List NSImageRep) :
    (bestRepWithResolutionMatch im dev l).Sublist l ∧ (l ≠ [] → bestRepWithResolutionMatch im dev l ≠ []) := by
  have h := deviceMatches_sublist im dev l
  refine orAll_spec ?_
  split_ifs <;> first | exact List.filter_sublist | exact h

/-- A resolution is 0, or it is positive in both directions. -/
theorem resolution_cases (rep : NSImageRep) : resolution rep = ⟨0, 0⟩ ∨ NSSize.Below ⟨0, 0⟩ (resolution rep) := by
  unfold resolution
  split
  · exact .inl rfl
  · rename_i hs
    split
    · exact .inl rfl
    · rename_i hp
      push Not at hs hp
      have hw := pos_of_ne_zero hs.1
      have hh := pos_of_ne_zero hs.2
      have hpw : (0 : ℚ≥0) < rep.pixelsWide := by exact_mod_cast Nat.pos_of_ne_zero hp.1
      have hph : (0 : ℚ≥0) < rep.pixelsHigh := by exact_mod_cast Nat.pos_of_ne_zero hp.2
      exact .inr ⟨by positivity, by positivity⟩

theorem NSSize.Below.trans {s t u : NSSize} (h : s.Below t) (h' : t.Below u) : s.Below u :=
  ⟨h.1.trans h'.1, h.2.trans h'.2⟩

/-- The loop ends at a resolution that none is above. -/
theorem foldl_maxRes (l : List NSImageRep) (best : NSSize) :
    let m := l.foldl (fun best rep => if best.Below (resolution rep) then resolution rep else best) best
    (m = best ∨ best.Below m ∧ ∃ rep ∈ l, resolution rep = m) ∧ ∀ rep ∈ l, ¬ m.Below (resolution rep) := by
  induction l generalizing best with
  | nil => exact ⟨.inl rfl, fun _ h => absurd h List.not_mem_nil⟩
  | cons rep l ih =>
    obtain ⟨hm, ha⟩ := ih (if best.Below (resolution rep) then resolution rep else best)
    rw [List.foldl_cons]
    generalize hres : l.foldl (fun best rep => if best.Below (resolution rep) then resolution rep else best)
      (if best.Below (resolution rep) then resolution rep else best) = m at hm ha ⊢
    have hn : ¬ m.Below (resolution rep) := by
      intro hlt
      split at hm
      · rcases hm with rfl | ⟨hb, -⟩
        · exact lt_irrefl _ hlt.1
        · exact lt_irrefl _ (hb.trans hlt).1
      · rename_i hnb
        rcases hm with rfl | ⟨hb, -⟩
        · exact hnb hlt
        · exact hnb (hb.trans hlt)
    refine ⟨?_, List.forall_mem_cons.mpr ⟨hn, ha⟩⟩
    split at hm
    · rename_i hb
      rcases hm with rfl | ⟨hb', rep', hmem, hr⟩
      · exact .inr ⟨hb, rep, List.mem_cons_self, rfl⟩
      · exact .inr ⟨hb.trans hb', rep', List.mem_cons_of_mem _ hmem, hr⟩
    · rcases hm with rfl | ⟨hb', rep', hmem, hr⟩
      · exact .inl rfl
      · exact .inr ⟨hb', rep', List.mem_cons_of_mem _ hmem, hr⟩

/-- Some representation has the highest resolution, which is 0 where there are no bitmaps. -/
theorem exists_maxRes {l : List NSImageRep} (h : l ≠ []) : l.filter (fun rep => resolution rep = maxRes l) ≠ [] := by
  obtain ⟨hm, ha⟩ := foldl_maxRes l ⟨0, 0⟩
  suffices hex : ∃ rep ∈ l, resolution rep = maxRes l by
    obtain ⟨rep, hmem, hr⟩ := hex
    exact List.ne_nil_of_mem (List.mem_filter.mpr ⟨hmem, decide_eq_true hr⟩)
  rcases hm with hm | ⟨-, rep, hmem, hr⟩
  · obtain ⟨rep, hmem⟩ := List.exists_mem_of_ne_nil l h
    refine ⟨rep, hmem, ?_⟩
    rcases resolution_cases rep with hzr | hp
    · exact hzr.trans hm.symm
    · have hz : maxRes l = ⟨0, 0⟩ := hm
      have hn : ¬ (maxRes l).Below (resolution rep) := ha rep hmem
      rw [hz] at hn
      exact absurd hp hn
  · exact ⟨rep, hmem, hr⟩

theorem bitmaps_highest (im : MatchFlags) (dev : DeviceDescription) {l : List NSImageRep}
    (hn : deviceMatches im dev l = []) {rep : NSImageRep} (hm : rep ∈ bestRepWithResolutionMatch im dev l)
    (hb : isVector rep = false) : ∀ rep' ∈ l, ¬ (resolution rep).Below (resolution rep') := by
  intro rep' hr'
  have hmax := exists_maxRes (List.ne_nil_of_mem hr')
  unfold bestRepWithResolutionMatch at hm
  simp only [hn, true_and] at hm
  by_cases hv : (if im.usesEPSOnResolutionMismatch then l.filter isVector else []) = []
  · simp only [hv, if_true, orAll, if_neg hmax] at hm
    rw [of_decide_eq_true (List.mem_filter.mp hm).2]
    exact (foldl_maxRes l ⟨0, 0⟩).2 rep' hr'
  · simp only [if_neg hv, orAll] at hm
    split at hm
    · rw [(List.mem_filter.mp hm).2] at hb
      cases hb
    · cases hm

/-! ## The choice -/

variable {desiredSize : NSSize} {rep b : NSImageRep} {reps : List NSImageRep}

/-- From a best one so far: it stays, or one that is below it is chosen. -/
theorem smallestFitting_some (reps : List NSImageRep) (hb : Fits desiredSize b) : ∃ c, smallestFitting desiredSize (some b) reps = some c ∧
    Fits desiredSize c ∧ (c = b ∧ (∀ rep ∈ reps, Fits desiredSize rep → ¬ rep.size.Below b.size) ∨
      c.size.Below b.size ∧ c ∈ reps) := by
  induction reps generalizing b with
  | nil => exact ⟨b, rfl, hb, .inl ⟨rfl, fun _ h => absurd h List.not_mem_nil⟩⟩
  | cons rep reps ih =>
    rw [smallestFitting, List.foldl_cons]
    split
    · rename_i hbt
      obtain ⟨c, hc, hf, hcs⟩ := ih hbt.1
      have hlt := hbt.2 b rfl
      refine ⟨c, hc, hf, .inr ?_⟩
      rcases hcs with ⟨rfl, -⟩ | ⟨hlt', hm⟩
      · exact ⟨hlt, List.mem_cons_self⟩
      · exact ⟨hlt'.trans hlt, List.mem_cons_of_mem _ hm⟩
    · rename_i hn
      obtain ⟨c, hc, hf, hcs⟩ := ih hb
      refine ⟨c, hc, hf, hcs.imp (fun h => ⟨h.1, ?_⟩) fun h => ⟨h.1, List.mem_cons_of_mem _ h.2⟩⟩
      refine List.forall_mem_cons.mpr ⟨fun hr hlt => hn ⟨hr, ?_⟩, h.2⟩
      rintro b' ⟨⟩
      exact hlt

theorem not_smaller_of_below {s t : NSSize} (h : s = t ∨ t.Below s) : ¬ Smaller s t := by
  rintro (hs | hs) <;> rcases h with rfl | h
  · exact lt_irrefl _ hs.1
  · exact lt_irrefl _ (hs.1.trans h.1)
  · exact lt_irrefl _ hs.2
  · exact lt_irrefl _ (hs.2.trans h.2)

theorem Smaller.trans_below {s t u : NSSize} (h : Smaller s t) (h' : t.Below u) : s.Below u := by
  rcases h with h | h
  · exact ⟨h.1.trans h'.1, h.2.trans_lt h'.2⟩
  · exact ⟨h.1.trans_lt h'.1, h.2.trans h'.2⟩

/-- What fits and is smaller than the chosen one has been as large as it in one direction, when it was met. -/
theorem smallest_iff (hb : Fits desiredSize b) {c : NSImageRep}
    (hc : smallestFitting desiredSize (some b) reps = some c) :
    (∀ rep ∈ reps, Fits desiredSize rep → ¬ Smaller rep.size c.size) ↔ Replaced desiredSize (some b) reps := by
  induction reps generalizing b with
  | nil => exact iff_of_true (fun _ h => absurd h List.not_mem_nil) trivial
  | cons rep reps ih =>
    rw [Replaced, List.forall_mem_cons]
    rw [smallestFitting, List.foldl_cons] at hc
    split
    · rename_i hbt
      rw [if_pos hbt] at hc
      obtain ⟨c', hc', -, hcs⟩ := smallestFitting_some reps hbt.1
      cases hc'.symm.trans hc
      refine (and_iff_right fun _ => not_smaller_of_below ?_).trans (ih hbt.1 hc)
      exact hcs.imp (fun h => by rw [h.1]) And.left
    · rename_i hn
      rw [if_neg hn] at hc
      obtain ⟨c', hc', hf, hcs⟩ := smallestFitting_some reps hb
      cases hc'.symm.trans hc
      refine and_congr ?_ (ih hb hc)
      rcases hcs with ⟨rfl, hnn⟩ | ⟨hlt, hm⟩
      · constructor
        · rintro h b' ⟨⟩ hr hs
          exact absurd hs (h hr)
        · intro h hr hs
          obtain ⟨rep', hm, hr', hlt⟩ := h c rfl hr hs
          exact hnn rep' hm hr' hlt
      · refine iff_of_true (fun hr hs => hn ⟨hr, ?_⟩) ?_
        · rintro b' ⟨⟩
          exact hs.trans_below hlt
        · rintro b' ⟨⟩ - -
          exact ⟨c, hm, hf, hlt⟩

/-- From the start: nothing fits, or something that does is chosen. -/
theorem smallestFitting_none (desiredSize : NSSize) (reps : List NSImageRep) :
    (∀ rep ∈ reps, ¬ Fits desiredSize rep) ∧ smallestFitting desiredSize none reps = none ∧
        Replaced desiredSize none reps ∨
      ∃ c ∈ reps, smallestFitting desiredSize none reps = some c ∧ Fits desiredSize c ∧
        ((∀ rep ∈ reps, Fits desiredSize rep → ¬ Smaller rep.size c.size) ↔ Replaced desiredSize none reps) := by
  induction reps with
  | nil => exact .inl ⟨fun _ h => absurd h List.not_mem_nil, rfl, trivial⟩
  | cons rep reps ih =>
    rw [smallestFitting, List.foldl_cons, Replaced]
    by_cases hr : Fits desiredSize rep
    · have hb : Better desiredSize none rep := ⟨hr, fun _ h => nomatch h⟩
      rw [if_pos hb, if_pos hb]
      obtain ⟨c, hc, hf, hcs⟩ := smallestFitting_some reps hr
      refine .inr ⟨c, ?_, hc, hf, ?_⟩
      · rcases hcs with ⟨rfl, -⟩ | ⟨-, hm⟩
        · exact List.mem_cons_self
        · exact List.mem_cons_of_mem _ hm
      · rw [List.forall_mem_cons, smallest_iff hr hc]
        exact and_iff_right fun _ => not_smaller_of_below (hcs.imp (fun h => by rw [h.1]) And.left)
    · have hn : ¬ Better desiredSize none rep := fun h => hr h.1
      have hv : ∀ b ∈ (none : Option NSImageRep), Fits desiredSize rep → Smaller rep.size b.size →
          ∃ rep' ∈ reps, Fits desiredSize rep' ∧ rep'.size.Below b.size := fun _ h => nomatch h
      rw [if_neg hn, if_neg hn]
      rcases ih with ⟨hnn, hc, hrpl⟩ | ⟨c, hm, hc, hf, hi⟩
      · exact .inl ⟨List.forall_mem_cons.mpr ⟨hr, hnn⟩, hc, hv, hrpl⟩
      · refine .inr ⟨c, List.mem_cons_of_mem _ hm, hc, hf, ?_⟩
        rw [List.forall_mem_cons, and_iff_right fun h => absurd h hr, and_iff_right hv]
        exact hi

theorem filters_spec (im : MatchFlags) (dev : DeviceDescription) :
    ∀ f ∈ [bestRepWithColorMatch dev, bestRepWithResolutionMatch im dev, bestRepWithBpsMatch dev],
      ∀ l, (f l).Sublist l ∧ (l ≠ [] → f l ≠ []) := by
  refine List.forall_mem_cons.mpr ⟨color_spec dev, List.forall_mem_cons.mpr ⟨resolution_spec im dev, ?_⟩⟩
  exact List.forall_mem_singleton.mpr (bps_spec dev)

theorem survivors_ne_nil (im : MatchFlags) (dev : DeviceDescription) (h : reps ≠ []) :
    bestRepresentationsForDevice im dev reps ≠ [] := by
  refine (bps_spec dev _).2 ?_
  split
  · exact (resolution_spec im dev _).2 ((color_spec dev _).2 h)
  · exact (color_spec dev _).2 ((resolution_spec im dev _).2 h)

/-- The choice is a good one exactly where one that is hidden behind the best one so far is replaced along with it. -/
theorem choosesWell_iff (im : MatchFlags) (dev : DeviceDescription) (desiredSize : NSSize) (reps : List NSImageRep) :
    ChoosesWell im dev desiredSize reps ↔
      Replaced desiredSize none (bestRepresentationsForDevice im dev reps) := by
  have hbs : bestRepresentationForRect im dev desiredSize reps =
      match smallestFitting desiredSize none (bestRepresentationsForDevice im dev reps) with
      | some rep => some rep
      | none => (bestRepresentationsForDevice im dev reps).getLast? := rfl
  rcases smallestFitting_none desiredSize (bestRepresentationsForDevice im dev reps) with
    ⟨hn, hc, hrpl⟩ | ⟨c, hm, hc, hf, hi⟩ <;> rw [hc] at hbs
  · refine iff_of_true ⟨filters_spec im dev, fun l hd rep hr hb => bitmaps_highest im dev hd hr hb, ?_, ?_⟩ hrpl
    · intro hne
      have hne := survivors_ne_nil im dev hne
      exact ⟨_, List.getLast_mem hne, hbs.trans (List.getLast?_eq_some_getLast hne)⟩
    · rintro ⟨rep, hr, hf⟩
      exact absurd hf (hn rep hr)
  · rw [← hi]
    constructor
    · intro h
      obtain ⟨rep, -, hrep, -, hs⟩ := h.smallest ⟨c, hm, hf⟩
      cases hrep.symm.trans hbs
      exact hs
    · intro hs
      exact ⟨filters_spec im dev, fun l hd rep hr hb => bitmaps_highest im dev hd hr hb,
        fun _ => ⟨c, hm, hbs⟩, fun _ => ⟨c, hm, hbs, hf, hs⟩⟩

def drawn (width height : ℚ≥0) : NSImageRep := ⟨⟨width, height⟩, 0, 0, none, 0⟩

/-- The one of 10 by 10 is chosen for 5 by 5, and the one of 10 by 8 is not. -/
theorem not_choosesWell : ¬ ChoosesWell ⟨true, false, false⟩ ⟨none, none, none⟩ ⟨5, 5⟩ [drawn 10 10, drawn 10 8] := by
  intro h
  obtain ⟨rep, -, hr, -, hs⟩ := h.smallest ⟨drawn 10 10, by decide, by decide⟩
  have hb : bestRepresentationForRect ⟨true, false, false⟩ ⟨none, none, none⟩ ⟨5, 5⟩ [drawn 10 10, drawn 10 8] =
      some (drawn 10 10) := by decide
  cases hr.symm.trans hb
  exact hs (drawn 10 8) (by decide) (by decide) (.inr ⟨le_refl _, by decide⟩)

end GnustepGui.Image
