import GnustepGui.BitmapImageRep.PNM

/-!
# What the PNM reader does

`1 << 31` is `INT_MIN`, and every product of two sizes is larger: no file is ever accepted. A file
that is not well formed is rejected, unless its header ends before a line does (then the loop of
`GET_LINE` reads behind the data) or a size overflows an `int`.
-/

namespace GnustepGui.BitmapImageRep

/-! ## The file format -/

structure PNMFile where
  samples : Nat
  width : Nat
  height : Nat
  maxval : Nat
  raster : List UInt8

/-- A line with its end. -/
def IsLine (line body : List UInt8) : Prop :=
  ∃ eol, isEol eol ∧ line = body ++ [eol] ∧ ∀ c ∈ body, !isEol c

def Numeral (n : Nat) (digits : List UInt8) : Prop :=
  digits ≠ [] ∧ (∀ c ∈ digits, isDigit c) ∧ decimalValue digits = n

def IsMagic (samples : Nat) (line : List UInt8) : Prop :=
  (samples = 1 ∧ IsLine line [80, 53]) ∨ (samples = 3 ∧ IsLine line [80, 54])

def IsComment (line : List UInt8) : Prop := ∃ body, IsLine line (35 :: body)

def IsSize (width height : Nat) (line : List UInt8) : Prop :=
  ∃ w blanks h, IsLine line (w ++ blanks ++ h) ∧ Numeral width w ∧ Numeral height h ∧
    blanks ≠ [] ∧ ∀ c ∈ blanks, c = 32

def IsMaxval (maxval : Nat) (line : List UInt8) : Prop := ∃ m, IsLine line m ∧ Numeral maxval m

/-- The data is a raw P5 or P6 file. -/
def WellFormed (data : List UInt8) (f : PNMFile) : Prop :=
  ∃ (magic size maxval : List UInt8) (comments : List (List UInt8)), data = magic ++ comments.flatten ++ size ++ maxval ++ f.raster ∧
    IsMagic f.samples magic ∧ (∀ line ∈ comments, IsComment line) ∧ IsSize f.width f.height size ∧
    IsMaxval f.maxval maxval ∧ 0 < f.width ∧ 0 < f.height ∧ f.maxval < 256 ∧
    f.width * f.height * f.samples ≤ f.raster.length

/-- The bitmap holds exactly the raster, with the stated dimensions. -/
structure Bitmap.Shows (rep : Bitmap) (f : PNMFile) : Prop where
  pixelsWide : rep.pixelsWide = f.width
  pixelsHigh : rep.pixelsHigh = f.height
  bitsPerSample : rep.bitsPerSample = 8
  samplesPerPixel : rep.samplesPerPixel = f.samples
  bitmapData : rep.bitmapData = f.raster.take (f.width * f.height * f.samples)

def Rejects (result : Except Fault Bitmap) : Prop :=
  result = .error .notPNM ∨ ∃ message, result = .error (.rejected message)

/-- Well-formed files are read, all other data is rejected, and nothing outside of the data is read. -/
structure ReadsCorrectly (data : List UInt8) : Prop where
  accepts : ∀ f, WellFormed data f → ∃ rep, readPNM data = .ok rep ∧ rep.Shows f
  rejects : (∀ f, ¬ WellFormed data f) → Rejects (readPNM data)
  inside : ∀ i, readPNM data ≠ .error (.outside i)

/-! ## When that is so -/

/-- After the magic line and comments the data ends in the middle of a line that fits the buffer. -/
def Truncated (data : List UInt8) : Prop :=
  9 ≤ data.length ∧ data.length < 2 ^ 32 ∧
    ∃ (magic rest : List UInt8) (comments : List (List UInt8)), data = magic ++ comments.flatten ++ rest ∧
      (∃ samples, IsMagic samples magic) ∧ (∀ line ∈ comments, IsComment line ∧ line.length ≤ 256) ∧
      (∀ c ∈ rest, !isEol c) ∧ rest.length < 256

/-- A number of the line, or the product of two sizes, is no `int`. -/
def SizeOverflows (line : List UInt8) : Prop :=
  match scanTwoInts (cString line) with
  | .error _ => True
  | .ok none => False
  | .ok (some (x, y)) => 0 < x ∧ 0 < y ∧ INT_MAX < x * y

/-- The size line of the data, as the reader finds it behind the magic line and the comments. -/
def sizeLineOf (data : List UInt8) : Except Fault (List UInt8 × Nat) :=
  match getLine data (data.length % 2 ^ 32) 256 0 with
  | .error e => .error e
  | .ok (_, ptr) => skipComments data (data.length % 2 ^ 32) ptr

/-- The reader comes to a size line with an overflow. -/
def Overflows (data : List UInt8) : Prop :=
  bitmapIsPNM data ∧ ∃ line ptr, sizeLineOf data = .ok (line, ptr) ∧ SizeOverflows line

/-! ## Lines -/

variable {data : List UInt8} {length room ptr : Nat}

theorem getLine_succ {c : UInt8}
    (hc : data[ptr]? = some c) :
    getLine data length (room + 1) ptr =
      if !isEol c && ptr < length then
        (getLine data length room (ptr + 1)).map fun r => (c :: r.1, r.2)
      else .ok ([], ptr + 1) := by
  simp only [getLine, byteAt, hc, bind, Except.bind]
  split
  · cases getLine data length room (ptr + 1) <;> rfl
  · rfl

theorem getLine_end (hp : data.length ≤ ptr) : getLine data length (room + 1) ptr = .error (.outside ptr) := by
  simp [getLine, byteAt, List.getElem?_eq_none hp, bind, Except.bind]

/-- The loop of `GET_LINE` runs out of the data. -/
theorem getLine_outside_iff (data : List UInt8) (length room ptr : Nat) :
    (∃ i, getLine data length room ptr = .error (.outside i)) ↔
      (data.drop ptr).length < room ∧ (∀ c ∈ data.drop ptr, !isEol c) ∧ (ptr < data.length → data.length ≤ length) := by
  induction room generalizing ptr with
  | zero => simp [getLine]
  | succ room ih =>
    rcases Nat.lt_or_ge ptr data.length with hp | hp
    · rw [getLine_succ (List.getElem?_eq_getElem hp), List.drop_eq_getElem_cons hp]
      cases hg : !isEol data[ptr] && ptr < length with
      | true =>
        simp only [Bool.and_eq_true, decide_eq_true_eq] at hg
        have hm : (∃ i, (getLine data length room (ptr + 1)).map (fun r => (data[ptr] :: r.1, r.2)) =
            .error (.outside i)) ↔ ∃ i, getLine data length room (ptr + 1) = .error (.outside i) := by
          cases getLine data length room (ptr + 1) <;> simp [Except.map]
        rw [if_pos rfl, hm, ih, List.forall_mem_cons, List.length_cons]
        refine and_congr (Nat.succ_lt_succ_iff).symm (and_congr ?_ ?_)
        · exact (and_iff_right hg.1).symm
        · have hlt := hg.2
          omega
      | false =>
        simp only [Bool.and_eq_false_iff, decide_eq_false_iff_not] at hg
        refine iff_of_false (by simp) ?_
        rintro ⟨-, ha, hl⟩
        rcases hg with he | hlt
        · exact absurd (ha _ List.mem_cons_self) (by simp [he])
        · have hle := hl hp
          omega
    · rw [getLine_end hp, List.drop_of_length_le hp]
      simp
      omega

variable {e : Fault}

theorem getLine_error (h : getLine data length room ptr = .error e) :
    (∃ i, e = .outside i) ∨ ∃ message, e = .rejected message := by
  induction room generalizing ptr with
  | zero =>
    cases h
    exact .inr ⟨_, rfl⟩
  | succ room ih =>
    rcases Nat.lt_or_ge ptr data.length with hp | hp
    · rw [getLine_succ (List.getElem?_eq_getElem hp)] at h
      split at h
      · cases hr : getLine data length room (ptr + 1) with
        | ok r => simp [hr, Except.map] at h
        | error e' =>
          simp only [hr, Except.map, Except.error.injEq] at h
          subst h
          exact ih hr
      · cases h
    · rw [getLine_end hp] at h
      cases h
      exact .inl ⟨_, rfl⟩

theorem getLine_eq_ok_iff (hlg : data.length ≤ length) {line : List UInt8} {ptr' : Nat} :
    getLine data length room ptr = .ok (line, ptr') ↔
      line.length < room ∧ (∀ c ∈ line, !isEol c) ∧ ptr' = ptr + line.length + 1 ∧
        ∃ eol, isEol eol ∧ data.drop ptr = line ++ eol :: data.drop ptr' := by
  induction room generalizing ptr line with
  | zero => simp [getLine]
  | succ room ih =>
    rcases Nat.lt_or_ge ptr data.length with hp | hp
    · have hlt : ptr < length := by omega
      rw [getLine_succ (List.getElem?_eq_getElem hp), List.drop_eq_getElem_cons hp]
      simp only [hlt, decide_true, Bool.and_true]
      cases heol : isEol data[ptr] with
      | true =>
        cases line with
        | nil =>
          simp only [Bool.not_true, Bool.false_eq_true, if_false, Except.ok.injEq, Prod.mk.injEq, true_and]
          constructor
          · rintro rfl
            exact ⟨Nat.succ_pos _, by simp, rfl, _, heol, rfl⟩
          · rintro ⟨-, -, h, -⟩
            exact h.symm
        | cons c line =>
          refine iff_of_false (by simp) ?_
          rintro ⟨-, hl, -, eol, -, hd⟩
          rw [List.cons_append, List.cons.injEq] at hd
          have hc := hl c List.mem_cons_self
          rw [← hd.1, heol] at hc
          cases hc
      | false =>
        rw [Bool.not_false, if_pos rfl]
        cases line with
        | nil =>
          refine iff_of_false ?_ ?_
          · cases getLine data length room (ptr + 1) <;> simp [Except.map]
          · rintro ⟨-, -, -, eol, he, hd⟩
            rw [List.nil_append, List.cons.injEq] at hd
            rw [← hd.1, heol] at he
            cases he
        | cons c line =>
          have hm : (getLine data length room (ptr + 1)).map (fun r => (data[ptr] :: r.1, r.2)) =
                .ok (c :: line, ptr') ↔ data[ptr] = c ∧ getLine data length room (ptr + 1) = .ok (line, ptr') := by
            cases getLine data length room (ptr + 1) with
            | error e => simp [Except.map]
            | ok r => simp [Except.map, Prod.ext_iff, and_assoc]
          rw [hm, ih, List.forall_mem_cons, List.length_cons]
          simp only [List.cons_append, List.cons.injEq]
          constructor
          · rintro ⟨rfl, hr, hl, hp', eol, he, hd⟩
            exact ⟨by omega, ⟨by simp [heol], hl⟩, by omega, eol, he, rfl, hd⟩
          · rintro ⟨hr, ⟨-, hl⟩, hp', eol, he, rfl, hd⟩
            exact ⟨rfl, by omega, hl, by omega, eol, he, hd⟩
    · rw [getLine_end hp, List.drop_of_length_le hp]
      simp

theorem getLine_ok_le {line : List UInt8} {ptr' : Nat}
    (h : getLine data length room ptr = .ok (line, ptr')) : ptr' ≤ max (ptr + 1) (length + 1) ∧
      (line ≠ [] → ptr' ≤ length + 1) := by
  induction room generalizing ptr line ptr' with
  | zero => cases h
  | succ room ih =>
    rcases Nat.lt_or_ge ptr data.length with hp | hp
    · rw [getLine_succ (List.getElem?_eq_getElem hp)] at h
      cases hg : !isEol data[ptr] && ptr < length with
      | true =>
        rw [if_pos hg] at h
        cases hr : getLine data length room (ptr + 1) with
        | error e => simp [hr, Except.map] at h
        | ok r =>
          obtain ⟨rest, q⟩ := r
          simp only [hr, Except.map, Except.ok.injEq, Prod.mk.injEq] at h
          obtain ⟨rfl, rfl⟩ := h
          have hle := (ih hr).1
          simp only [Bool.and_eq_true, decide_eq_true_eq] at hg
          omega
      | false =>
        rw [hg, if_neg (by simp)] at h
        simp only [Except.ok.injEq, Prod.mk.injEq] at h
        obtain ⟨rfl, rfl⟩ := h
        exact ⟨Nat.le_max_left _ _, fun h => absurd rfl h⟩
    · rw [getLine_end hp] at h
      cases h

/-! ## Comments -/

theorem skipComments_eq (data : List UInt8) (length ptr : Nat) :
    skipComments data length ptr =
      match getLine data length 256 ptr with
      | .error e => .error e
      | .ok (line, ptr') =>
        if line.head? = some 35 then skipComments data length ptr' else .ok (line, ptr') := by
  rw [skipComments]
  split <;> rename_i h <;> simp only [h]

theorem skipComments_error {length ptr : Nat} (h : skipComments data length ptr = .error e) :
    (∃ i, e = .outside i) ∨ ∃ message, e = .rejected message := by
  induction ptr using skipComments.induct data length with
  | case1 ptr e' hl =>
    rw [skipComments_eq, hl] at h
    cases h
    exact getLine_error hl
  | case2 ptr line ptr' hl hc ih =>
    rw [skipComments_eq, hl] at h
    simp only [hc, if_true] at h
    exact ih h
  | case3 ptr line ptr' hl hc =>
    rw [skipComments_eq, hl] at h
    simp [hc] at h

/-- The data ends in the middle of a line, after comments. -/
def EndsInLine (bytes : List UInt8) : Prop :=
  ∃ (comments : List (List UInt8)) (rest : List UInt8), bytes = comments.flatten ++ rest ∧
    (∀ line ∈ comments, IsComment line ∧ line.length ≤ 256) ∧ (∀ c ∈ rest, !isEol c) ∧ rest.length < 256

theorem skipComments_outside_iff {length : Nat} (hlg : data.length ≤ length) {ptr : Nat} :
    (∃ i, skipComments data length ptr = .error (.outside i)) ↔ EndsInLine (data.drop ptr) := by
  constructor
  · rintro ⟨i, h⟩
    induction ptr using skipComments.induct data length with
    | case1 ptr e hln =>
      rw [skipComments_eq, hln] at h
      cases h
      obtain ⟨hrm, hr, -⟩ := (getLine_outside_iff data length 256 ptr).1 ⟨i, hln⟩
      exact ⟨[], data.drop ptr, rfl, by simp, hr, hrm⟩
    | case2 ptr line ptr' hln hc ih =>
      rw [skipComments_eq, hln] at h
      simp only [hc, if_true] at h
      obtain ⟨comments, rest, hd, hcm, hr⟩ := ih h
      obtain ⟨hrm, hn, -, eol, he, hp⟩ := (getLine_eq_ok_iff hlg).1 hln
      obtain ⟨body, rfl⟩ := List.head?_eq_some_iff.1 hc
      refine ⟨(35 :: body ++ [eol]) :: comments, rest, ?_, ?_, hr⟩
      · rw [hp, hd]
        simp
      · rw [List.forall_mem_cons]
        refine ⟨⟨⟨body, eol, he, rfl, hn⟩, ?_⟩, hcm⟩
        rw [List.length_append, List.length_singleton]
        omega
    | case3 ptr line ptr' hln hc =>
      rw [skipComments_eq, hln] at h
      simp [hc] at h
  · rintro ⟨comments, rest, hd, hcm, hr, hrm⟩
    induction comments generalizing ptr with
    | nil =>
      have hb : data.drop ptr = rest := hd
      obtain ⟨i, hi⟩ := (getLine_outside_iff data length 256 ptr).2
        ⟨hb ▸ hrm, hb ▸ hr, fun _ => hlg⟩
      exact ⟨i, by rw [skipComments_eq, hi]⟩
    | cons line comments ih =>
      rw [List.forall_mem_cons] at hcm
      obtain ⟨⟨⟨body, eol, he, rfl, hn⟩, hl⟩, hcm⟩ := hcm
      have hlg' : (35 :: body).length < 256 := by
        rw [List.length_append, List.length_singleton] at hl
        omega
      have hnx : data.drop (ptr + (35 :: body).length + 1) = comments.flatten ++ rest := by
        rw [Nat.add_assoc, ← List.drop_drop, hd]
        simp
      have hln : getLine data length 256 ptr = .ok (35 :: body, ptr + (35 :: body).length + 1) := by
        refine (getLine_eq_ok_iff hlg).2 ⟨hlg', hn, rfl, eol, he, ?_⟩
        rw [hnx, hd]
        simp
      obtain ⟨i, hi⟩ := ih hnx hcm
      exact ⟨i, by rw [skipComments_eq, hln]; simpa using hi⟩

theorem skipComments_inside {length ptr : Nat} (hlg : length + 2 ≤ data.length)
    (hp : ptr ≤ length + 1) (i : Nat) : skipComments data length ptr ≠ .error (.outside i) := by
  intro h
  induction ptr using skipComments.induct data length with
  | case1 ptr e hl =>
    rw [skipComments_eq, hl] at h
    cases h
    have hle := ((getLine_outside_iff data length 256 ptr).1 ⟨i, hl⟩).2.2
    omega
  | case2 ptr line ptr' hl hc ih =>
    rw [skipComments_eq, hl] at h
    simp only [hc, if_true] at h
    refine ih ((getLine_ok_le hl).2 ?_) h
    rintro rfl
    cases hc
  | case3 ptr line ptr' hl hc =>
    rw [skipComments_eq, hl] at h
    simp [hc] at h

/-! ## The reader -/

theorem bitmapIsPNM_iff (data : List UInt8) :
    bitmapIsPNM data ↔ 9 ≤ data.length ∧ ∃ ptype eol rest, data = 80 :: ptype :: eol :: rest ∧
      (ptype = 53 ∨ ptype = 54) ∧ isEol eol := by
  match data with
  | [] => simp [bitmapIsPNM]
  | [_] => simp [bitmapIsPNM]
  | [_, _] => simp [bitmapIsPNM]
  | c₀ :: c₁ :: c₂ :: rest =>
    simp only [bitmapIsPNM, isEol, Bool.and_eq_true, Bool.or_eq_true, beq_iff_eq, decide_eq_true_eq, List.cons.injEq]
    constructor
    · rintro ⟨⟨⟨hl, rfl⟩, he⟩, ht⟩
      exact ⟨hl, c₁, c₂, rest, ⟨rfl, rfl, rfl, rfl⟩, ht, he⟩
    · rintro ⟨hl, _, _, _, ⟨rfl, rfl, rfl, rfl⟩, ht, he⟩
      exact ⟨⟨⟨hl, rfl⟩, he⟩, ht⟩

theorem oneShiftedBy31_eq : oneShiftedBy31 = INT_MIN := by decide

variable {s : List UInt8}

theorem scanDigits_error {negative : Bool} (h : scanDigits negative s = .error e) : e = .undefined := by
  unfold scanDigits storeInt at h
  split at h
  · cases h
  · simp only at h
    generalize (if negative then _ else _ : Int) = value at h
    split at h <;> cases h
    rfl

theorem scanInt_error (h : scanInt s = .error e) : e = .undefined := by
  unfold scanInt at h
  split at h <;> exact scanDigits_error h

theorem scanTwoInts_error (h : scanTwoInts s = .error e) : e = .undefined := by
  unfold scanTwoInts at h
  cases hx : scanInt s with
  | error e' =>
    simp only [hx, bind, Except.bind, Except.error.injEq] at h
    exact h ▸ scanInt_error hx
  | ok x =>
    simp only [hx, bind, Except.bind] at h
    cases x with
    | none => cases h
    | some x =>
      obtain ⟨x, rest⟩ := x
      cases hy : scanInt rest with
      | error e' =>
        simp only [hy, Except.error.injEq] at h
        exact h ▸ scanInt_error hy
      | ok y =>
        simp only [hy] at h
        cases y <;> cases h

theorem mulInt_sizes {x y : Int} (hx : 0 < x) (hy : 0 < y) : (INT_MAX < x * y ∧ mulInt x y = .error .undefined) ∨
      (¬ INT_MAX < x * y ∧ mulInt x y = .ok (x * y) ∧ x * y > oneShiftedBy31) := by
  have hp := Int.mul_pos hx hy
  have hm : INT_MIN ≤ x * y := by
    rw [INT_MIN]
    omega
  unfold mulInt
  by_cases hl : INT_MAX < x * y
  · exact .inl ⟨hl, if_neg fun h => by omega⟩
  · refine .inr ⟨hl, if_pos ⟨hm, by omega⟩, ?_⟩
    rw [oneShiftedBy31_eq, INT_MIN]
    omega

/-- Behind the size line nothing is read any more: a size is too large, or not defined. -/
theorem readRaster_eq (data : List UInt8) (length : Nat) (ptype : UInt8) (line : List UInt8) (ptr : Nat) :
    (SizeOverflows line ∧ readRaster data length ptype line ptr = .error .undefined) ∨
      (¬ SizeOverflows line ∧ ∃ message, readRaster data length ptype line ptr = .error (.rejected message)) := by
  unfold SizeOverflows readRaster
  cases hs : scanTwoInts (cString line) with
  | error e =>
    obtain rfl := scanTwoInts_error hs
    exact .inl ⟨trivial, rfl⟩
  | ok sizes =>
    cases sizes with
    | none => exact .inr ⟨id, _, rfl⟩
    | some sizes =>
      obtain ⟨x, y⟩ := sizes
      simp only [bind, Except.bind]
      by_cases hn : x ≤ 0 ∨ y ≤ 0
      · exact .inr ⟨by omega, _, if_pos hn⟩
      · rw [if_neg hn]
        rcases mulInt_sizes (show 0 < x by omega) (show 0 < y by omega) with ⟨hl, hm⟩ | ⟨hsml, hm, hgt⟩
        · exact .inl ⟨⟨by omega, by omega, hl⟩, by simp only [hm]⟩
        · refine .inr ⟨fun h => hsml h.2.2,
            "Invalid PNM header (image size:xsize*ysize too large)", ?_⟩
          simp only [hm]
          exact if_pos hgt

theorem readPNM_eq (h : bitmapIsPNM data) :
    ∃ ptype, readPNM data =
      match sizeLineOf data with
      | .error e => .error e
      | .ok (line, ptr) => readRaster data (data.length % 2 ^ 32) ptype line ptr := by
  obtain ⟨-, ptype, eol, rest, hd, ht, -⟩ := (bitmapIsPNM_iff data).1 h
  refine ⟨ptype, ?_⟩
  have hm : byteAt data 0 = .ok 80 := by rw [hd]; rfl
  have hp : byteAt data 1 = .ok ptype := by rw [hd]; rfl
  have hn : ¬ (ptype ≠ 53 ∧ ptype ≠ 54) := fun hne => ht.elim hne.1 hne.2
  unfold readPNM initBitmapFromPNM sizeLineOf
  rw [if_pos h]
  simp only [bind, Except.bind, hm, hp]
  cases getLine data (data.length % 2 ^ 32) 256 0 with
  | error e => rfl
  | ok first =>
    simp only [ne_eq, not_true_eq_false, if_false]
    rw [if_neg hn]
    cases skipComments data (data.length % 2 ^ 32) first.2 <;> rfl

theorem sizeLineOf_error (h : sizeLineOf data = .error e) :
    (∃ i, e = .outside i) ∨ ∃ message, e = .rejected message := by
  unfold sizeLineOf at h
  cases hf : getLine data (data.length % 2 ^ 32) 256 0 with
  | error e' =>
    simp only [hf, Except.error.injEq] at h
    exact h ▸ getLine_error hf
  | ok first =>
    simp only [hf] at h
    exact skipComments_error h

theorem isMagic_of_header {ptype eol : UInt8} (ht : ptype = 53 ∨ ptype = 54) (he : isEol eol) :
    ∃ samples, IsMagic samples [80, ptype, eol] := by
  rcases ht with rfl | rfl
  · exact ⟨1, .inl ⟨rfl, eol, he, rfl, List.all_eq_true.1 rfl⟩⟩
  · exact ⟨3, .inr ⟨rfl, eol, he, rfl, List.all_eq_true.1 rfl⟩⟩

theorem header_of_isMagic {samples : Nat} {magic : List UInt8} (h : IsMagic samples magic) :
    ∃ ptype eol, magic = [80, ptype, eol] ∧ (ptype = 53 ∨ ptype = 54) ∧ isEol eol := by
  rcases h with ⟨-, eol, he, rfl, -⟩ | ⟨-, eol, he, rfl, -⟩
  · exact ⟨53, eol, rfl, .inl rfl, he⟩
  · exact ⟨54, eol, rfl, .inr rfl, he⟩

theorem sizeLineOf_outside_iff (h : bitmapIsPNM data) :
    (∃ i, sizeLineOf data = .error (.outside i)) ↔ Truncated data := by
  obtain ⟨hn, ptype, eol, rest, hd, ht, he⟩ := (bitmapIsPNM_iff data).1 h
  have hp : !isEol ptype := by rcases ht with rfl | rfl <;> rfl
  rcases Nat.lt_or_ge data.length (2 ^ 32) with hs | hl
  · have hln : data.length % 2 ^ 32 = data.length := Nat.mod_eq_of_lt hs
    have hf : getLine data data.length 256 0 = .ok ([80, ptype], 3) := by
      refine (getLine_eq_ok_iff (Nat.le_refl _)).2 ⟨by simp, ?_, rfl, eol, he, by simp [hd]⟩
      simpa [show isEol 80 = false from rfl] using hp
    have ho : (∃ i, sizeLineOf data = .error (.outside i)) ↔ EndsInLine (data.drop 3) := by
      unfold sizeLineOf
      rw [hln, hf]
      exact skipComments_outside_iff (Nat.le_refl _)
    rw [ho]
    constructor
    · rintro ⟨comments, rest', hdr, hc, hr⟩
      refine ⟨hn, hs, [80, ptype, eol], rest', comments, ?_, ?_, hc, hr⟩
      · rw [List.append_assoc, ← hdr, hd]
        rfl
      · exact isMagic_of_header ht he
    · rintro ⟨-, -, magic, rest', comments, hspl, ⟨samples, hm⟩, hc, hr⟩
      obtain ⟨_, _, rfl, -⟩ := header_of_isMagic hm
      refine ⟨comments, rest', ?_, hc, hr⟩
      rw [hspl, List.append_assoc]
      rfl
  · refine iff_of_false ?_ fun htr => ?_
    · rintro ⟨i, hi⟩
      have hmod := Nat.mod_lt data.length (show 0 < 2 ^ 32 by decide)
      unfold sizeLineOf at hi
      cases hf : getLine data (data.length % 2 ^ 32) 256 0 with
      | error e =>
        simp only [hf, Except.error.injEq] at hi
        subst hi
        have hle := ((getLine_outside_iff data _ 256 0).1 ⟨i, hf⟩).2.2
        omega
      | ok first =>
        simp only [hf] at hi
        have hptr := (getLine_ok_le hf).1
        exact skipComments_inside (by omega) (by omega) i hi
    · have hlt := htr.2.1
      omega

theorem truncated_isPNM (h : Truncated data) : bitmapIsPNM data := by
  obtain ⟨hn, -, magic, rest, comments, rfl, ⟨samples, hm⟩, -⟩ := h
  obtain ⟨ptype, eol, rfl, ht, he⟩ := header_of_isMagic hm
  exact (bitmapIsPNM_iff _).2 ⟨hn, ptype, eol, _, rfl, ht, he⟩

theorem readPNM_outcome (data : List UInt8) : (Truncated data ∧ ∃ i, readPNM data = .error (.outside i)) ∨
      (Overflows data ∧ readPNM data = .error .undefined) ∨
      (¬ Truncated data ∧ ¬ Overflows data ∧ Rejects (readPNM data)) := by
  by_cases hp : bitmapIsPNM data
  · obtain ⟨ptype, hrd⟩ := readPNM_eq hp
    cases hl : sizeLineOf data with
    | error e =>
      rw [hl] at hrd
      rcases sizeLineOf_error hl with ⟨i, rfl⟩ | ⟨message, rfl⟩
      · exact .inl ⟨(sizeLineOf_outside_iff hp).1 ⟨i, hl⟩, i, hrd⟩
      · refine .inr (.inr ⟨fun ht => ?_, fun ho => ?_, .inr ⟨message, hrd⟩⟩)
        · obtain ⟨i, hi⟩ := (sizeLineOf_outside_iff hp).2 ht
          rw [hl] at hi
          cases hi
        · obtain ⟨-, line, ptr, hs, -⟩ := ho
          rw [hl] at hs
          cases hs
    | ok found =>
      obtain ⟨line, ptr⟩ := found
      rw [hl] at hrd
      simp only at hrd
      rcases readRaster_eq data (data.length % 2 ^ 32) ptype line ptr with ⟨ho, hr⟩ | ⟨ho, message, hr⟩
      · exact .inr (.inl ⟨⟨hp, line, ptr, hl, ho⟩, hrd.trans hr⟩)
      · refine .inr (.inr ⟨fun ht => ?_, fun h => ?_, .inr ⟨message, hrd.trans hr⟩⟩)
        · obtain ⟨i, hi⟩ := (sizeLineOf_outside_iff hp).2 ht
          rw [hl] at hi
          cases hi
        · obtain ⟨-, line', ptr', hs, ho'⟩ := h
          rw [hl] at hs
          cases hs
          exact ho ho'
  · refine .inr (.inr ⟨fun h => hp (truncated_isPNM h), fun h => hp h.1, .inl ?_⟩)
    rw [readPNM, if_neg hp]

/-- The PNM reader meets its specification exactly on data that is not well formed, does not end
inside the header, and has no size that overflows. -/
theorem readsCorrectly_iff (data : List UInt8) :
    ReadsCorrectly data ↔
      (∀ f, ¬ WellFormed data f) ∧ ¬ Truncated data ∧ ¬ Overflows data := by
  constructor
  · rintro ⟨ha, hr, hins2⟩
    have hn : ∀ f, ¬ WellFormed data f := by
      intro f hf
      obtain ⟨rep, hrep, -⟩ := ha f hf
      rcases readPNM_outcome data with ⟨-, i, h⟩ | ⟨-, h⟩ | ⟨-, -, h | ⟨message, h⟩⟩ <;>
        (rw [hrep] at h; cases h)
    rcases readPNM_outcome data with ⟨-, i, h⟩ | ⟨-, h⟩ | ⟨ht, ho, -⟩
    · exact absurd h (hins2 i)
    · rcases hr hn with h' | ⟨message, h'⟩ <;> (rw [h] at h'; cases h')
    · exact ⟨hn, ht, ho⟩
  · rintro ⟨hn, ht, ho⟩
    have hr : Rejects (readPNM data) := by
      rcases readPNM_outcome data with ⟨h, -⟩ | ⟨h, -⟩ | ⟨-, -, h⟩
      · exact absurd h ht
      · exact absurd h ho
      · exact h
    refine ⟨fun f hf => absurd hf (hn f), fun _ => hr, fun i hi => ?_⟩
    rcases hr with h | ⟨message, h⟩ <;> (rw [hi] at h; cases h)

/-- `P5`, one black pixel. -/
def onePixel : List UInt8 := [80, 53, 10, 49, 32, 49, 10, 50, 53, 53, 10, 0]

theorem onePixel_wellFormed : WellFormed onePixel ⟨1, 1, 1, 255, [0]⟩ := by
  have hm : IsMagic 1 [80, 53, 10] := .inl ⟨rfl, 10, rfl, rfl, List.all_eq_true.1 rfl⟩
  have ho : Numeral 1 [49] := ⟨List.cons_ne_nil _ _, List.all_eq_true.1 rfl, rfl⟩
  have hs : IsSize 1 1 [49, 32, 49, 10] :=
    ⟨[49], [32], [49], ⟨10, rfl, rfl, List.all_eq_true.1 rfl⟩, ho, ho, List.cons_ne_nil _ _,
      fun c hc => List.mem_singleton.1 hc⟩
  have hmax : IsMaxval 255 [50, 53, 53, 10] :=
    ⟨[50, 53, 53], ⟨10, rfl, rfl, List.all_eq_true.1 rfl⟩,
      List.cons_ne_nil _ _, List.all_eq_true.1 rfl, rfl⟩
  refine ⟨[80, 53, 10], [49, 32, 49, 10], [50, 53, 53, 10], [], rfl, hm, nofun, hs, hmax, ?_⟩
  decide

/-- A well-formed file of one pixel is rejected as too large. -/
theorem not_readsCorrectly_onePixel :
    readPNM onePixel =
        .error (.rejected "Invalid PNM header (image size:xsize*ysize too large)") ∧
      ¬ ReadsCorrectly onePixel := by
  have hs : skipComments onePixel (onePixel.length % 2 ^ 32) 3 = .ok ([49, 32, 49], 7) := by
    rw [skipComments_eq]
    rfl
  have hrd : readPNM onePixel =
      .error (.rejected "Invalid PNM header (image size:xsize*ysize too large)") := by
    have hf : getLine onePixel (onePixel.length % 2 ^ 32) 256 0 = .ok ([80, 53], 3) := rfl
    simp only [readPNM, initBitmapFromPNM, hf, hs, bind, Except.bind]
    rfl
  refine ⟨hrd, fun h => ?_⟩
  obtain ⟨rep, hr, -⟩ := h.accepts _ onePixel_wellFormed
  rw [hrd] at hr
  cases hr

end GnustepGui.BitmapImageRep
