import Mathlib.Data.List.Forall2
import Mathlib.Data.List.TakeWhile

/-!
# Scanners

A scanner reads a text from its front: what is left is the text after the scan location. Before each
token it skips characters of a set. `scanString` reads a fixed text, `scanCharacters` the longest run of
characters of a set, `scanUpTo` the longest run without one.
-/

namespace Scanner

variable {α : Type} (skipped : α → Bool)

/-- What is left once the skipped characters in front are. -/
def skip (s : List α) : List α := s.dropWhile skipped

def isAtEnd (s : List α) : Bool := (skip skipped s).isEmpty

/-- What is left of `s` after the text `t`, whose characters match up to `same`. -/
def stripPrefix (same : α → α → Bool) : List α → List α → Option (List α)
  | [], s => some s
  | _ :: _, [] => none
  | c :: t, d :: s => if same c d then stripPrefix same t s else none

def scanString (same : α → α → Bool) (t s : List α) : Option (List α) :=
  stripPrefix same t (skip skipped s)

def scanCharacters (set : α → Bool) (s : List α) : Option (List α × List α) :=
  let t := skip skipped s
  if (t.takeWhile set).isEmpty then none else some (t.takeWhile set, t.dropWhile set)

def scanUpTo (set : α → Bool) (s : List α) : Option (List α × List α) :=
  scanCharacters skipped (fun c => !set c) s

theorem skip_length_le (s : List α) : (skip skipped s).length ≤ s.length := (List.dropWhile_suffix skipped).length_le

variable {skipped}

theorem skip_cons_of_not {c : α} (h : skipped c = false) (s : List α) : skip skipped (c :: s) = c :: s := by
  simp [skip, h]

theorem isAtEnd_iff {s : List α} : isAtEnd skipped s = true ↔ skip skipped s = [] := List.isEmpty_iff

/-! ## Fixed texts -/

theorem stripPrefix_eq_some_iff {same : α → α → Bool} {t s rest : List α} :
    stripPrefix same t s = some rest ↔ ∃ u, s = u ++ rest ∧ List.Forall₂ (fun c d => same c d) t u := by
  induction t generalizing s with
  | nil =>
    simp only [stripPrefix, Option.some_inj, List.forall₂_nil_left_iff]
    constructor
    · rintro rfl
      exact ⟨[], rfl, rfl⟩
    · rintro ⟨u, rfl, rfl⟩
      rfl
  | cons c t ih =>
    cases s with
    | nil =>
      simp only [stripPrefix, List.forall₂_cons_left_iff]
      constructor
      · intro h
        cases h
      · rintro ⟨u, hu, d, u', -, -, rfl⟩
        cases hu
    | cons d s =>
      by_cases h : same c d = true
      · simp only [stripPrefix, h, if_true, ih, List.forall₂_cons_left_iff]
        constructor
        · rintro ⟨u, rfl, hu⟩
          exact ⟨d :: u, rfl, d, u, h, hu, rfl⟩
        · rintro ⟨u, hs, e, u', he, hu, rfl⟩
          cases hs
          exact ⟨u', rfl, hu⟩
      · simp only [stripPrefix, h, Bool.false_eq_true, if_false, List.forall₂_cons_left_iff]
        constructor
        · intro h'
          cases h'
        · rintro ⟨u, hs, e, u', he, hu, rfl⟩
          cases hs
          exact absurd he h

/-- A text whose characters match themselves alone is read where it stands. -/
theorem scanString_eq_some_iff {same : α → α → Bool} {t s rest : List α} (h : ∀ c ∈ t, ∀ d, same c d = true ↔ c = d) :
    scanString skipped same t s = some rest ↔ skip skipped s = t ++ rest := by
  have hsm : ∀ u, List.Forall₂ (fun c d => same c d) t u ↔ t = u := by
    intro u
    induction t generalizing u with
    | nil =>
      rw [List.forall₂_nil_left_iff]
      exact eq_comm
    | cons c t ih =>
      cases u with
      | nil => simp
      | cons d u =>
        simp [h c (by simp), ih fun c' hc' => h c' (List.mem_cons_of_mem _ hc')]
  simp only [scanString, stripPrefix_eq_some_iff, hsm]
  constructor
  · rintro ⟨u, hs, rfl⟩
    exact hs
  · intro hs
    exact ⟨t, hs, rfl⟩

/-! ## Runs of characters -/

variable {set : α → Bool} {s t rest : List α}

theorem takeWhile_eq_self_append (ht : ∀ c ∈ t, set c = true) (hr : ∀ c ∈ rest.head?, set c = false) :
    (t ++ rest).takeWhile set = t ∧ (t ++ rest).dropWhile set = rest := by
  cases rest with
  | nil =>
    rw [List.append_nil]
    exact ⟨List.takeWhile_eq_self_iff.2 ht, List.dropWhile_eq_nil_iff.2 ht⟩
  | cons c rest =>
    have hc := hr c rfl
    rw [List.takeWhile_append_of_pos ht, List.dropWhile_append_of_pos ht]
    simp [hc]

theorem scanCharacters_eq_some_iff : scanCharacters skipped set s = some (t, rest) ↔
      t ≠ [] ∧ (∀ c ∈ t, set c = true) ∧ (∀ c ∈ rest.head?, set c = false) ∧ skip skipped s = t ++ rest := by
  unfold scanCharacters
  constructor
  · intro h
    simp only [List.isEmpty_iff] at h
    split at h
    · cases h
    · rename_i hne
      obtain ⟨rfl, rfl⟩ := Prod.mk.inj (Option.some.inj h)
      refine ⟨hne, fun c hc => List.mem_takeWhile_imp hc, fun c hc => ?_, (List.takeWhile_append_dropWhile).symm⟩
      have hh := List.head?_dropWhile_not set (skip skipped s)
      rw [Option.mem_def.1 hc] at hh
      exact hh
  · rintro ⟨hne, ht, hr, hs⟩
    obtain ⟨htk, hd⟩ := takeWhile_eq_self_append ht hr
    simp [hs, htk, hd, hne]

theorem scanCharacters_eq_none_iff :
    scanCharacters skipped set s = none ↔ ∀ c ∈ (skip skipped s).head?, set c = false := by
  unfold scanCharacters
  cases h : skip skipped s with
  | nil => simp
  | cons c rest => cases hc : set c <;> simp [hc]

theorem scanUpTo_eq_some_iff : scanUpTo skipped set s = some (t, rest) ↔
      t ≠ [] ∧ (∀ c ∈ t, set c = false) ∧ (∀ c ∈ rest.head?, set c = true) ∧ skip skipped s = t ++ rest := by
  simp only [scanUpTo, scanCharacters_eq_some_iff, Bool.not_eq_true', Bool.not_eq_false']

theorem scanUpTo_eq_none_iff : scanUpTo skipped set s = none ↔ ∀ c ∈ (skip skipped s).head?, set c = true := by
  simp only [scanUpTo, scanCharacters_eq_none_iff, Bool.not_eq_false']

theorem length_lt_of_skip (ht : t ≠ []) (h : skip skipped s = t ++ rest) : rest.length < s.length := by
  have hle := skip_length_le skipped s
  have hp := List.length_pos_of_ne_nil ht
  rw [h, List.length_append] at hle
  omega

end Scanner
