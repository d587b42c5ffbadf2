import Mathlib.Data.List.Nodup
import Mathlib.Data.Rat.Init
import Mathlib.Logic.Function.Basic

/-!
# Colour lists

An `NSColorList` has its colours in a dictionary and the order of the keys in an array. A call that inserts changes the
dictionary first and takes the key out of the array, so that the index may be behind its end when it is used.

    insertColor:key:atIndex: raises and loses the key  ⟺  index > number of the other keys
-/

namespace GnustepGui.ColorList

inductive ColorListFailure
  | notEditable
  | rangeException
  deriving DecidableEq, Repr

structure NSColorList (Color : Type) where
  colorDictionary : String → Option Color
  orderedColorKeys : List String
  isEditable : Bool

inductive ColorCall (Color : Type)
  | insertColor (color : Color) (key : String) (location : Nat)
  | removeColorWithKey (key : String)
  | setColor (color : Color) (key : String)

/-- What the methods of `NSScanner` that the reader of text files uses do; they come from Foundation. -/
structure NSScanner (σ : Type) where
  scanInt : σ → Option (Int × σ)
  scanFloat : σ → Option (ℚ × σ)
  scanUpToNewline : σ → Option (String × σ)

/-- What is archived, with keys or without. -/
inductive Archive (Color : Type)
  | keyed (keys : List String) (colors : List Color)
  | plain (colorDictionary : String → Option Color) (orderedColorKeys : List String)

variable {Color σ : Type}

namespace NSColorList

def empty : NSColorList Color := ⟨fun _ => none, [], true⟩

/-- The keys without one of them. -/
def otherKeys (l : NSColorList Color) (key : String) : List String := l.orderedColorKeys.filter (· != key)

/-- What there is after a call, and what it has raised. -/
def insertColor (l : NSColorList Color) (color : Color) (key : String) (location : Nat) :
    NSColorList Color × Option ColorListFailure :=
  if l.isEditable = false then (l, some .notEditable)
  else
    let colorDictionary := Function.update l.colorDictionary key (some color)
    if location ≤ (l.otherKeys key).length then
      ({ l with colorDictionary, orderedColorKeys := (l.otherKeys key).insertIdx location key }, none)
    else ({ l with colorDictionary, orderedColorKeys := l.otherKeys key }, some .rangeException)

def removeColorWithKey (l : NSColorList Color) (key : String) : NSColorList Color × Option ColorListFailure :=
  if l.isEditable = false then (l, some .notEditable)
  else
    ({ l with
      colorDictionary := Function.update l.colorDictionary key none, orderedColorKeys := l.otherKeys key }, none)

def setColor (l : NSColorList Color) (color : Color) (key : String) : NSColorList Color × Option ColorListFailure :=
  if l.isEditable = false then (l, some .notEditable)
  else
    let orderedColorKeys := if key ∈ l.orderedColorKeys then l.orderedColorKeys else l.orderedColorKeys ++ [key]
    ({ l with colorDictionary := Function.update l.colorDictionary key (some color), orderedColorKeys }, none)

def perform (l : NSColorList Color) : ColorCall Color → NSColorList Color × Option ColorListFailure
  | .insertColor color key location => l.insertColor color key location
  | .removeColorWithKey key => l.removeColorWithKey key
  | .setColor color key => l.setColor color key

/-! ## Text files and archives -/

section Files

variable (sc : NSScanner σ) (rgba : ℚ → ℚ → ℚ → ℚ → Color)

/-- What the loop of `_readTextColorFile:` scans for one colour. -/
def scanColor (text : σ) : Option ((ℚ × ℚ × ℚ × ℚ × String) × σ) :=
  match sc.scanInt text with
  | none => none
  | some (method, text) =>
    if method ≠ 0 then none
    else do
      let (r, text) ← sc.scanFloat text
      let (g, text) ← sc.scanFloat text
      let (b, text) ← sc.scanFloat text
      let (alpha, text) ← sc.scanFloat text
      let (cname, text) ← sc.scanUpToNewline text
      some ((r, g, b, alpha, cname), text)

/-- The loop, for up to `n` colours from index `i` on. It gives the index that it stops at. -/
def readColors : Nat → Nat → σ → NSColorList Color → Except ColorListFailure (Nat × NSColorList Color)
  | 0, i, _, l => .ok (i, l)
  | n + 1, i, text, l =>
    match scanColor sc text with
    | none => .ok (i, l)
    | some ((r, g, b, alpha, cname), text) =>
      match l.insertColor (rgba r g b alpha) cname i with
      | (_, some failure) => .error failure
      | (l, none) => readColors n (i + 1) text l

/-- `_readTextColorFile:` of a list. -/
def readTextColorFile (text : σ) (l : NSColorList Color) : Except ColorListFailure (Bool × NSColorList Color) :=
  match sc.scanInt text with
  | none => .ok (false, l)
  | some (nColors, text) =>
    (readColors sc rgba nColors.toNat 0 text l).map fun (i, l) => ((i : Int) = nColors, l)

/-- `initWithName:fromFile:` for a file that is no archive: whether it could be loaded, and the list. -/
def initFromTextFile (text : σ) (isWritable : Bool) : Except ColorListFailure (Bool × NSColorList Color) :=
  (readTextColorFile sc rgba text empty).map fun (couldLoad, l) =>
    if couldLoad then (true, { l with isEditable := isWritable }) else (false, empty)

end Files

/-- Nothing where a key has no colour. -/
def encodeWithCoder (l : NSColorList Color) (allowsKeyedCoding : Bool) : Option (Archive Color) :=
  if allowsKeyedCoding then (l.orderedColorKeys.mapM l.colorDictionary).map fun colors => .keyed l.orderedColorKeys colors
  else some (.plain l.colorDictionary l.orderedColorKeys)

/-- A list that has been decoded is not editable. -/
def initWithCoder : Archive Color → NSColorList Color
  | .keyed keys colors =>
    let add := fun (d : String → Option Color) (entry : String × Color) => Function.update d entry.1 (some entry.2)
    ⟨(keys.zip colors).foldl add fun _ => none, keys, false⟩
  | .plain colorDictionary orderedColorKeys => ⟨colorDictionary, orderedColorKeys, false⟩

/-- The keys are distinct, and those of the dictionary. -/
structure Consistent (l : NSColorList Color) : Prop where
  nodup : l.orderedColorKeys.Nodup
  mem_iff : ∀ key, key ∈ l.orderedColorKeys ↔ (l.colorDictionary key).isSome

end NSColorList

open NSColorList

/-- Where a list comes from. -/
inductive Origin (σ Color : Type)
  | empty
  | textFile (text : σ) (isWritable : Bool)
  | archive (l : { l : NSColorList Color // l.Consistent }) (allowsKeyedCoding : Bool)

/-- Whether the list could be loaded, and the list; nothing where that raises. -/
def Origin.load (sc : NSScanner σ) (rgba : ℚ → ℚ → ℚ → ℚ → Color) :
    Origin σ Color → Option (Bool × NSColorList Color)
  | .empty => some (true, NSColorList.empty)
  | .textFile text isWritable => (initFromTextFile sc rgba text isWritable).toOption
  | .archive l allowsKeyedCoding => (l.val.encodeWithCoder allowsKeyedCoding).map fun a => (true, initWithCoder a)

/-- The names of up to `n` colours that are scanned. -/
def names (sc : NSScanner σ) : Nat → σ → List String
  | 0, _ => []
  | n + 1, text =>
    match scanColor sc text with
    | none => []
    | some ((_, _, _, _, cname), text) => cname :: names sc n text

/-- In a run of calls the list is consistent throughout, and a call that raises changes nothing. -/
def Sound (l : NSColorList Color) : List (ColorCall Color) → Prop
  | [] => l.Consistent
  | call :: calls =>
    l.Consistent ∧ ((l.perform call).2 ≠ none → (l.perform call).1 = l) ∧ Sound (l.perform call).1 calls

/-- The index of an insertion is at most the number of the other keys. -/
def Suits (l : NSColorList Color) : ColorCall Color → Prop
  | .insertColor _ key location => l.isEditable → location ≤ (l.otherKeys key).length
  | _ => True

def AllSuit (l : NSColorList Color) : List (ColorCall Color) → Prop
  | [] => True
  | call :: calls => Suits l call ∧ AllSuit (l.perform call).1 calls

def Origin.NamesDiffer (sc : NSScanner σ) : Origin σ Color → Prop
  | .textFile text _ =>
    ∀ nColors rest, sc.scanInt text = some (nColors, rest) → (names sc nColors.toNat rest).Nodup
  | _ => True

/-- The list can be loaded without raising, is empty where it could not be, and its runs are sound. -/
def Origin.Holds (sc : NSScanner σ) (rgba : ℚ → ℚ → ℚ → ℚ → Color) (o : Origin σ Color)
    (calls : List (ColorCall Color)) : Prop :=
  ∃ couldLoad l, o.load sc rgba = some (couldLoad, l) ∧ (couldLoad = false → l = NSColorList.empty) ∧ Sound l calls

/-- A text file has no name twice, as far as it is read, and the calls that are made on the list suit it. -/
def Origin.AllSuit (sc : NSScanner σ) (rgba : ℚ → ℚ → ℚ → ℚ → Color) (o : Origin σ Color)
    (calls : List (ColorCall Color)) : Prop :=
  o.NamesDiffer sc ∧ ∀ couldLoad l, o.load sc rgba = some (couldLoad, l) → ColorList.AllSuit l calls

/-! ## Single calls -/

namespace NSColorList

variable {l : NSColorList Color} {color : Color} {key : String} {location : Nat}

theorem mem_otherKeys {k : String} : k ∈ l.otherKeys key ↔ k ∈ l.orderedColorKeys ∧ k ≠ key := by
  rw [otherKeys, List.mem_filter, bne_iff_ne]

theorem otherKeys_eq (h : key ∉ l.orderedColorKeys) : l.otherKeys key = l.orderedColorKeys := by
  refine List.filter_eq_self.mpr fun k hk => bne_iff_ne.mpr ?_
  rintro rfl
  exact h hk

theorem consistent_empty : (empty : NSColorList Color).Consistent := ⟨List.nodup_nil, fun _ => by simp [empty]⟩

/-- Keys that are the others and one that has a colour now. -/
theorem Consistent.update (h : l.Consistent) (color : Color) (isEditable : Bool) {keys : List String}
    (hky : keys.Perm (key :: l.otherKeys key)) :
    Consistent ⟨Function.update l.colorDictionary key (some color), keys, isEditable⟩ := by
  refine ⟨hky.nodup_iff.mpr (List.nodup_cons.mpr ⟨?_, h.nodup.filter _⟩), fun k => ?_⟩
  · exact fun hm => (mem_otherKeys.mp hm).2 rfl
  · rw [hky.mem_iff, List.mem_cons, mem_otherKeys]
    by_cases hk : k = key
    · simp [hk]
    · simp [hk, h.mem_iff]

theorem consistent_perform (h : l.Consistent) {call : ColorCall Color} (hs : Suits l call) :
    (l.perform call).1.Consistent ∧ ((l.perform call).2 ≠ none → (l.perform call).1 = l) := by
  by_cases he : l.isEditable = false
  · cases call <;> simp [perform, insertColor, removeColorWithKey, setColor, he, h]
  cases call with
  | insertColor color key location =>
    have hle := hs (by simpa using he)
    rw [perform, insertColor, if_neg he]
    simp only [if_pos hle]
    exact ⟨h.update color _ (List.perm_insertIdx _ _ hle), fun hne => absurd rfl hne⟩
  | removeColorWithKey key =>
    rw [perform, removeColorWithKey, if_neg he]
    refine ⟨⟨h.nodup.filter _, fun k => ?_⟩, fun hne => absurd rfl hne⟩
    rw [mem_otherKeys]
    by_cases hk : k = key
    · simp [hk]
    · simp [hk, h.mem_iff]
  | setColor color key =>
    rw [perform, setColor, if_neg he]
    refine ⟨h.update color _ ?_, fun hne => absurd rfl hne⟩
    split
    · rename_i hm
      have := List.perm_cons_erase hm
      rwa [h.nodup.erase_eq_filter] at this
    · rename_i hm
      rw [otherKeys_eq hm]
      exact List.perm_append_singleton _ _

/-- An insertion with too large an index raises, and the key has a colour then and is no key. -/
theorem perform_of_not_suits (h : l.Consistent) {call : ColorCall Color} (hn : ¬ Suits l call) :
    (l.perform call).2 ≠ none ∧ (l.perform call).1 ≠ l := by
  cases call with
  | removeColorWithKey key => exact absurd trivial hn
  | setColor color key => exact absurd trivial hn
  | insertColor color key location =>
    obtain ⟨he, hlt⟩ := Classical.not_imp.mp hn
    rw [perform, insertColor, if_neg (by simp [he])]
    simp only [if_neg hlt]
    refine ⟨Option.some_ne_none _, fun heq => ?_⟩
    have hk : key ∈ l.orderedColorKeys := by
      rw [h.mem_iff, ← heq]
      simp
    rw [← heq] at hk
    exact (mem_otherKeys.mp hk).2 rfl

end NSColorList

theorem sound_iff {l : NSColorList Color} (h : l.Consistent) {calls : List (ColorCall Color)} :
    Sound l calls ↔ AllSuit l calls := by
  induction calls generalizing l with
  | nil => exact iff_of_true h trivial
  | cons call calls ih =>
    constructor
    · rintro ⟨-, hsm, hr⟩
      have hs : Suits l call := by
        by_contra hn
        obtain ⟨hne, hd⟩ := perform_of_not_suits h hn
        exact hd (hsm hne)
      exact ⟨hs, (ih (consistent_perform h hs).1).mp hr⟩
    · rintro ⟨hs, hr⟩
      obtain ⟨hc, hsm⟩ := consistent_perform h hs
      exact ⟨h, hsm, (ih hc).mpr hr⟩

/-! ## Lists that are loaded -/

/-- The index is the number of colours so far, and fits as long as their names differ. -/
theorem readColors_cases (sc : NSScanner σ) (rgba : ℚ → ℚ → ℚ → ℚ → Color) (n : Nat) (text : σ)
    {l : NSColorList Color} (h : l.Consistent) (he : l.isEditable = true) :
    ((l.orderedColorKeys ++ names sc n text).Nodup ∧
        ∃ r, readColors sc rgba n l.orderedColorKeys.length text l = .ok r ∧ r.2.Consistent) ∨
      (¬ (l.orderedColorKeys ++ names sc n text).Nodup ∧
        ∃ e, readColors sc rgba n l.orderedColorKeys.length text l = .error e) := by
  induction n generalizing text l with
  | zero =>
    rw [names, List.append_nil]
    exact .inl ⟨h.nodup, _, rfl, h⟩
  | succ n ih =>
    rw [names, readColors]
    rcases hs : scanColor sc text with _ | ⟨⟨r, g, b, alpha, cname⟩, text'⟩
    · rw [List.append_nil]
      exact .inl ⟨h.nodup, _, rfl, h⟩
    by_cases hm : cname ∈ l.orderedColorKeys
    · have hlt : (l.otherKeys cname).length < l.orderedColorKeys.length :=
        List.length_filter_lt_length_iff_exists.mpr ⟨cname, hm, by simp⟩
      refine .inr ⟨fun hnd => (List.disjoint_of_nodup_append hnd) hm List.mem_cons_self, .rangeException, ?_⟩
      simp only [insertColor, if_neg (show ¬ l.isEditable = false by simp [he]), if_neg (Nat.not_le_of_lt hlt)]
    · have hi : l.insertColor (rgba r g b alpha) cname l.orderedColorKeys.length =
          (⟨Function.update l.colorDictionary cname (some (rgba r g b alpha)), l.orderedColorKeys ++ [cname],
            l.isEditable⟩, none) := by
        rw [insertColor, if_neg (by simp [he])]
        simp only [otherKeys_eq hm, Nat.le_refl, if_true, List.insertIdx_length_self]
      have hp : (l.orderedColorKeys ++ [cname]).Perm (cname :: l.otherKeys cname) := by
        rw [otherKeys_eq hm]
        exact List.perm_append_singleton _ _
      have hr := ih text' (h.update (rgba r g b alpha) l.isEditable hp) he
      rw [List.length_append, List.length_singleton, List.append_assoc, List.singleton_append] at hr
      simp only [hi]
      exact hr

theorem isSome_addAll (entries : List (String × Color)) (d : String → Option Color) (k : String) :
    ((entries.foldl (fun (d : String → Option Color) (entry : String × Color) =>
      Function.update d entry.1 (some entry.2)) d) k).isSome ↔
      (d k).isSome ∨ k ∈ entries.map Prod.fst := by
  induction entries generalizing d with
  | nil => simp
  | cons entry entries ih =>
    rw [List.foldl_cons, ih, List.map_cons, List.mem_cons]
    by_cases hk : k = entry.1
    · simp [hk]
    · simp [hk]

theorem mapM_of_isSome {f : String → Option Color} {keys : List String} (h : ∀ k ∈ keys, (f k).isSome) :
    ∃ colors, keys.mapM f = some colors ∧ colors.length = keys.length := by
  induction keys with
  | nil => exact ⟨[], rfl, rfl⟩
  | cons k keys ih =>
    obtain ⟨color, hc⟩ := Option.isSome_iff_exists.mp (h k List.mem_cons_self)
    obtain ⟨colors, hcl, hl⟩ := ih fun k' hk' => h k' (List.mem_cons_of_mem _ hk')
    exact ⟨color :: colors, by simp [List.mapM_cons, hc, hcl], by simp [hl]⟩

theorem consistent_decode {l : NSColorList Color} (h : l.Consistent) (keyed : Bool) :
    ∃ a, l.encodeWithCoder keyed = some a ∧ (initWithCoder a).Consistent := by
  cases keyed with
  | false => exact ⟨_, rfl, h.nodup, h.mem_iff⟩
  | true =>
    obtain ⟨colors, hc, hl⟩ := mapM_of_isSome fun k hk => (h.mem_iff k).mp hk
    refine ⟨.keyed l.orderedColorKeys colors, by rw [encodeWithCoder, hc]; rfl, h.nodup, fun k => ?_⟩
    have hky : (l.orderedColorKeys.zip colors).map Prod.fst = l.orderedColorKeys :=
      List.map_fst_zip (Nat.le_of_eq hl.symm)
    rw [initWithCoder, isSome_addAll, hky]
    simp

/-- Loading raises just where the names of a text file do not differ. -/
theorem load_cases (sc : NSScanner σ) (rgba : ℚ → ℚ → ℚ → ℚ → Color) (o : Origin σ Color) :
    (o.NamesDiffer sc ∧ ∃ couldLoad l, o.load sc rgba = some (couldLoad, l) ∧
        (couldLoad = false → l = NSColorList.empty) ∧ l.Consistent) ∨ (¬ o.NamesDiffer sc ∧ o.load sc rgba = none) := by
  cases o with
  | empty => exact .inl ⟨trivial, true, _, rfl, fun h => absurd h (by simp), consistent_empty⟩
  | archive l keyed =>
    obtain ⟨a, ha, hc⟩ := consistent_decode l.property keyed
    exact .inl ⟨trivial, true, _, by rw [Origin.load, ha]; rfl, fun h => absurd h (by simp), hc⟩
  | textFile text isWritable =>
    rw [Origin.load, initFromTextFile, readTextColorFile, Origin.NamesDiffer]
    rcases hs : sc.scanInt text with _ | ⟨nColors, rest⟩
    · exact .inl ⟨fun _ _ h => absurd h (by simp), false, _, rfl, fun _ => rfl, consistent_empty⟩
    have hd : (∀ nColors' rest', some (nColors, rest) = some (nColors', rest') →
        (names sc nColors'.toNat rest').Nodup) ↔ (names sc nColors.toNat rest).Nodup := by
      refine ⟨fun h => h nColors rest rfl, fun h nColors' rest' heq => ?_⟩
      cases heq
      exact h
    rw [hd]
    rcases readColors_cases sc rgba nColors.toNat rest consistent_empty rfl with
      ⟨hnd, r, hr, hc⟩ | ⟨hnd, e, hr⟩
    · refine .inl ⟨hnd, ?_⟩
      have hr : readColors sc rgba nColors.toNat 0 rest empty = .ok r := hr
      simp only [hr, Except.map]
      by_cases hall : (r.1 : Int) = nColors
      · exact ⟨true, { r.2 with isEditable := isWritable }, by simp [hall, Except.toOption],
          fun h => absurd h (by simp), hc.nodup, hc.mem_iff⟩
      · exact ⟨false, _, by simp [hall, Except.toOption], fun _ => rfl, consistent_empty⟩
    · have hr : readColors sc rgba nColors.toNat 0 rest empty = .error e := hr
      simp only [hr]
      exact .inr ⟨hnd, rfl⟩

/-- The runs of a list are sound exactly where its file has no name twice and its calls suit it. -/
theorem holds_iff (sc : NSScanner σ) (rgba : ℚ → ℚ → ℚ → ℚ → Color) (o : Origin σ Color)
    (calls : List (ColorCall Color)) : o.Holds sc rgba calls ↔ o.AllSuit sc rgba calls := by
  rcases load_cases sc rgba o with ⟨hd, couldLoad, l, hl, he, hc⟩ | ⟨hd, hl⟩
  · constructor
    · rintro ⟨couldLoad', l', hl', -, hs⟩
      refine ⟨hd, fun couldLoad'' l'' hl'' => ?_⟩
      cases hl'.symm.trans hl
      cases hl''.symm.trans hl
      exact (sound_iff hc).mp hs
    · rintro ⟨-, hst⟩
      exact ⟨couldLoad, l, hl, he, (sound_iff hc).mpr (hst couldLoad l hl)⟩
  · refine iff_of_false ?_ fun h => hd h.1
    rintro ⟨couldLoad, l, hl', -⟩
    cases hl'.symm.trans hl

/-- A key inserted again behind itself, which was the end before the call. -/
theorem not_holds_reinsert : ¬ (Origin.empty : Origin Unit Unit).Holds
    ⟨fun _ => none, fun _ => none, fun _ => none⟩ (fun _ _ _ _ => ())
    [.insertColor () "Red" 0, .insertColor () "Red" 1] := by
  rintro ⟨couldLoad, l, hl, -, -, -, -, hs, -⟩
  cases hl
  exact absurd (congrArg orderedColorKeys (hs (by decide))) (by decide)

/-! ## Archives -/

theorem addAll_colors {f : String → Option Color} {keys : List String} (hn : keys.Nodup) {colors : List Color}
    (hc : keys.mapM f = some colors) (d : String → Option Color) (k : String) :
    (keys.zip colors).foldl (fun (d : String → Option Color) entry => Function.update d entry.1 (some entry.2)) d k =
      if k ∈ keys then f k else d k := by
  induction keys generalizing colors d with
  | nil => rfl
  | cons key keys ih =>
    obtain ⟨color, hf, rest, hr, rfl⟩ : ∃ c, f key = some c ∧ ∃ rest, keys.mapM f = some rest ∧
        c :: rest = colors := by
      simpa [List.mapM_cons, Option.bind_eq_some_iff] using hc
    rw [List.zip_cons_cons, List.foldl_cons, ih (List.nodup_cons.mp hn).2 hr]
    by_cases hk : k = key
    · simp [hk, hf, (List.nodup_cons.mp hn).1]
    · simp [hk]

end GnustepGui.ColorList
