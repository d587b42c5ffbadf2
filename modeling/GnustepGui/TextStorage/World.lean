import GnustepGui.TextStorage.ReplaceCharacters

/-!
# Runs of calls on many storages

`WorldInvariant w leaks` says that every live storage meets the run invariant and that the shared
cache accounts for the runs of all of them, the permanent blank dictionary and the leaked references
`leaks`. Every call keeps it (`WorldInvariant.perform`), and only `setAttributes:range:` beyond the
text adds to `leaks` (`LeaksAt`).
-/

namespace GnustepGui.TextStorage

open RunMap StateExcept Positions

variable {D : Type} [DecidableEq D]

/-! ## Initialisers -/

/-- After some turns of the loop the runs cover the source up to `stop`. -/
structure Covered (source : AttributedString D) (infoArray : List (GSTextInfo D)) (stop : Nat) :
    Prop where
  first : infoArray.head?.map (·.loc) = some 0
  increasing : infoArray.Pairwise fun a b => a.loc < b.loc
  below : ∀ info ∈ infoArray, info.loc < stop
  value : ∀ k < stop, valueAt (runsOf infoArray) k = some (source.attributesAtIndex k).1

omit [DecidableEq D] in
/-- The next run starts where the last effective range ends. -/
theorem Covered.snoc {source : AttributedString D} {infoArray : List (GSTextInfo D)} {stop : Nat}
    (h : Covered source infoArray stop) (hlt : stop < source.string.length)
    (p : CachedDictionary D) (hp : p.contents = (source.attributesAtIndex stop).1) :
    Covered source (infoArray ++ [⟨stop, p⟩]) (source.attributesAtIndex stop).2.max := by
  obtain ⟨-, hlo, -⟩ := source.effective _ hlt
  refine ⟨?_, ?_, ?_, fun k hk => ?_⟩
  · have := h.first
    cases infoArray with
    | nil => simp at this
    | cons a rest => simpa using this
  · refine List.pairwise_append.mpr ⟨h.increasing, by simp, fun a ha b hb => ?_⟩
    rw [List.mem_singleton.mp hb]
    exact h.below a ha
  · intro a ha
    rcases List.mem_append.mp ha with ha | ha
    · exact Nat.lt_trans (h.below a ha) hlo
    · rw [List.mem_singleton.mp ha]; exact hlo
  · rw [valueAt_snoc]
    split
    · next hle => rw [hp, source.constant _ hlt k hle hk]
    · next hgt => exact h.value k (Nat.lt_of_not_le hgt)

theorem accounts_snoc {cache : AttributeCache D} {infoArray : List (GSTextInfo D)}
    {others : Multiset (CachedDictionary D)} (ha : Accounts cache (refsOf infoArray + others)) (attr : D) (loc : Nat) :
    Accounts (cacheAttributes attr cache).2
      (refsOf (infoArray ++ [⟨loc, (cacheAttributes attr cache).1⟩]) + others) := by
  have hr : ∀ p, refsOf (infoArray ++ [⟨loc, p⟩]) + others = p ::ₘ (refsOf infoArray + others) := by
    intro p
    rw [refsOf_append, refsOf_cons, refsOf_nil, Multiset.add_cons, Multiset.cons_add, add_zero]
  rw [hr]
  exact accounts_cacheAttributes ha attr

theorem setAttributesFromLoop_spec (source : AttributedString D) (textChars : List UInt16)
    (others : Multiset (CachedDictionary D)) :
    ∀ (fuel : Nat) (range : NSRange) (cache : AttributeCache D) (infoArray : List (GSTextInfo D)),
      source.string.length - range.max < fuel → range.max ≤ source.string.length →
      Covered source infoArray range.max → Accounts cache (refsOf infoArray + others) → ∃ cache' infoArray',
        setAttributesFromLoop source fuel range ⟨cache, infoArray, textChars⟩ = .ok () ⟨cache', infoArray', textChars⟩ ∧
        Covered source infoArray' source.string.length ∧ Accounts cache' (refsOf infoArray' + others) := by
  intro fuel
  induction fuel with
  | zero => intro range _ _ hf; omega
  | succ fuel ih =>
    intro range cache infoArray hf hle hc ha
    unfold setAttributesFromLoop
    simp only
    rcases Nat.lt_or_eq_of_le hle with hlt | heq
    · obtain ⟨-, hlo, hhi⟩ := source.effective _ hlt
      rw [if_pos hlt, bind_ok (cacheM_run _ _), bind_ok (modify_run _)]
      have hf' : source.string.length - (source.attributesAtIndex range.max).2.max < fuel := by omega
      exact ih _ _ _ hf' hhi (hc.snoc hlt _ (cacheAttributes_contents ha _)) (accounts_snoc ha _ _)
    · rw [if_neg (by omega)]
      exact ⟨cache, infoArray, rfl, heq ▸ hc, ha⟩

theorem initWithAttributedString_spec {cache : AttributeCache D}
    {others : Multiset (CachedDictionary D)} (blank : CachedDictionary D)
    (source : AttributedString D) (hacc : Accounts cache others) : ∃ cache' infoArray',
      initWithAttributedString blank source ⟨cache, [], []⟩ = .ok () ⟨cache', infoArray', source.string⟩ ∧
      RunInvariant infoArray' source.string.length ∧ Accounts cache' (refsOf infoArray' + others) ∧
      ∀ k < source.string.length, valueAt (runsOf infoArray') k = some (source.attributesAtIndex k).1 := by
  have hacc0 : Accounts cache (refsOf ([] : List (GSTextInfo D)) + others) := by simpa using hacc
  have hr : ∀ {cache' infoArray'}, setAttributesFrom blank source ⟨cache, [], []⟩ =
      .ok () ⟨cache', infoArray', []⟩ → initWithAttributedString blank source ⟨cache, [], []⟩ =
        .ok () ⟨cache', infoArray', source.string⟩ := by
    intro cache' infoArray' h
    unfold initWithAttributedString
    rw [bind_ok h, modify_run]
  by_cases hl : source.string.length = 0
  · refine ⟨_, [⟨0, (cacheAttributes blank.contents cache).1⟩], hr ?_, ?_,
      accounts_snoc hacc0 blank.contents 0, fun k hk => by omega⟩
    · unfold setAttributesFrom
      rw [bind_ok (modify_run _)]
      simp only [if_pos hl]
      rw [bind_ok (cacheM_run _ _), bind_ok (modify_run _)]
      unfold setAttributesFromLoop
      simp only
      rw [if_neg (by omega)]
      rfl
    · exact ⟨rfl, by simp, by simp⟩
  · have hp : 0 < source.string.length := Nat.pos_of_ne_zero hl
    obtain ⟨hloc, hlo, hhi⟩ := source.effective 0 hp
    have hc : Covered source [⟨0, (cacheAttributes (source.attributesAtIndex 0).1 cache).1⟩]
        (source.attributesAtIndex 0).2.max := by
      refine ⟨rfl, by simp, by simpa using hlo, fun k hk => ?_⟩
      rw [runsOf_cons, runsOf_nil, valueAt_singleton, if_pos (Nat.zero_le k),
        cacheAttributes_contents hacc0, source.constant 0 hp k (Nat.zero_le k) hk]
    obtain ⟨cache', infoArray', h1, h2, h3⟩ := setAttributesFromLoop_spec source [] others
      (source.string.length + 1) _ _ _ (by omega) hhi hc (accounts_snoc hacc0 _ 0)
    refine ⟨cache', infoArray', hr ?_, ?_, h3, h2.value⟩
    · unfold setAttributesFrom
      rw [bind_ok (modify_run _)]
      simp only [if_neg hl]
      rw [bind_ok (cacheM_run _ _), bind_ok (modify_run _)]
      exact h1
    · exact RunInvariant.iff_loc.mpr ⟨h2.first, h2.increasing, fun a ha _ => h2.below a ha⟩

theorem initWithString_run (blank : CachedDictionary D) (aString : Option (List UInt16))
    (attributes : Option D) (cache : AttributeCache D) :
    initWithString blank aString attributes ⟨cache, [], []⟩ =
      .ok () ⟨(cacheAttributes (attributes.getD blank.contents) cache).2,
        [⟨0, (cacheAttributes (attributes.getD blank.contents) cache).1⟩], aString.getD []⟩ := rfl

/-! ## References of a whole world -/

/-- The references one object slot holds. -/
def slotRefs (slot : Option (GSTextStorage D)) : Multiset (CachedDictionary D) :=
  slot.elim 0 fun s => refsOf s.infoArray

def slotsRefs (slots : List (Option (GSTextStorage D))) : Multiset (CachedDictionary D) :=
  (slots.map slotRefs).sum

/-- The runs of all live storages and the permanent reference of `_setup`. -/
def TextWorld.refs (w : TextWorld D) : Multiset (CachedDictionary D) :=
  w.blank ::ₘ slotsRefs w.storages

section Slots

omit [DecidableEq D]

theorem slotsRefs_append (a b : List (Option (GSTextStorage D))) : slotsRefs (a ++ b) = slotsRefs a + slotsRefs b := by
  simp [slotsRefs, List.sum_append]

@[simp] theorem slotsRefs_cons (slot : Option (GSTextStorage D)) (rest : List (Option (GSTextStorage D))) :
    slotsRefs (slot :: rest) = slotRefs slot + slotsRefs rest := by
  simp [slotsRefs]

@[simp] theorem slotsRefs_nil : slotsRefs ([] : List (Option (GSTextStorage D))) = 0 := rfl

@[simp] theorem slotRefs_some (s : GSTextStorage D) : slotRefs (some s) = refsOf s.infoArray := rfl

@[simp] theorem slotRefs_none : slotRefs (none : Option (GSTextStorage D)) = 0 := rfl

variable {w : TextWorld D} {n : Nat} {s : GSTextStorage D}

theorem TextWorld.storageAt_split (h : w.storageAt n = some s) :
    ∃ a b, w.storages = a ++ some s :: b ∧ a.length = n := by
  unfold TextWorld.storageAt at h
  cases hn : w.storages[n]? with
  | none => rw [hn] at h; simp at h
  | some slot =>
    rw [hn] at h
    simp only [Option.join_some] at h
    subst h
    obtain ⟨hlt, hg⟩ := List.getElem?_eq_some_iff.mp hn
    refine ⟨w.storages.take n, w.storages.drop (n + 1), ?_, by simp; omega⟩
    rw [← hg, ← List.drop_eq_getElem_cons hlt, List.take_append_drop]

theorem storageAt_mem (h : w.storageAt n = some s) : some s ∈ w.storages := by
  obtain ⟨a, b, he, -⟩ := TextWorld.storageAt_split h
  rw [he]
  simp

end Slots

/-! ## The step lemma -/

structure WorldInvariant (w : TextWorld D) (leaks : Multiset (CachedDictionary D)) : Prop where
  accounts : Accounts w.cache (w.refs + leaks)
  runs : ∀ s, some s ∈ w.storages → RunInvariant s.infoArray s.textChars.length

/-- A range the two mutators refuse with a range error. -/
def OutOfRange (w : TextWorld D) : TextCall D → Prop
  | .setAttributes n _ range =>
    ∃ s, w.storageAt n = some s ∧ 0 < range.length ∧ s.textChars.length < range.max
  | .replaceCharacters n range _ => ∃ s, w.storageAt n = some s ∧ s.textChars.length < range.max
  | _ => False

/-- A `setAttributes:range:` call that raises after it has cached the attributes. -/
def LeaksAt (w : TextWorld D) (call : TextCall D) : Prop :=
  ∃ n attributes range, call = .setAttributes n attributes range ∧ OutOfRange w call

omit [DecidableEq D] in
theorem not_leaksAt {w : TextWorld D} {call : TextCall D}
    (h : ∀ n attributes range, call ≠ .setAttributes n attributes range) : ¬ LeaksAt w call :=
  fun ⟨n, attributes, range, he, _⟩ => h n attributes range he

/-- The object a call is sent to, where it is not a new one. -/
def TextCall.receiver : TextCall D → Option Nat
  | .initWithString .. => none
  | .initWithAttributedString _ => none
  | .setAttributes n _ _ => some n
  | .replaceCharacters n _ _ => some n
  | .dealloc n => some n

/-- What each call does to the texts and their attributes. -/
inductive Performed (w : TextWorld D) :
    TextCall D → List (Option (GSTextStorage D)) → Option TextException → Prop
  | initWithString (aString : Option (List UInt16)) (attributes : Option D)
      (infoArray : List (GSTextInfo D))
      (value : ∀ k, valueAt (runsOf infoArray) k = some (attributes.getD w.blank.contents)) :
      Performed w (.initWithString aString attributes)
        (w.storages ++ [some ⟨aString.getD [], infoArray⟩]) none
  | initWithAttributedString (source : AttributedString D) (infoArray : List (GSTextInfo D))
      (value : ∀ k < source.string.length,
        valueAt (runsOf infoArray) k = some (source.attributesAtIndex k).1) :
      Performed w (.initWithAttributedString source)
        (w.storages ++ [some ⟨source.string, infoArray⟩]) none
  | setAttributes (a : List (Option (GSTextStorage D))) (s : GSTextStorage D)
      (b : List (Option (GSTextStorage D))) (attributes : Option D) (range : NSRange)
      (infoArray : List (GSTextInfo D)) (slot : w.storages = a ++ some s :: b)
      (inRange : range.length = 0 ∨ range.max ≤ s.textChars.length)
      (value : ∀ k < s.textChars.length, valueAt (runsOf infoArray) k =
        if range.location ≤ k ∧ k < range.max then some (attributes.getD w.blank.contents)
        else valueAt (runsOf s.infoArray) k) :
      Performed w (.setAttributes a.length attributes range)
        (a ++ some ⟨s.textChars, infoArray⟩ :: b) none
  | append (a : List (Option (GSTextStorage D))) (s : GSTextStorage D)
      (b : List (Option (GSTextStorage D))) (range : NSRange) (aString : Option (List UInt16))
      (slot : w.storages = a ++ some s :: b) (inRange : range.max ≤ s.textChars.length)
      (atEnd : range.location = s.textChars.length) :
      Performed w (.replaceCharacters a.length range aString)
        (a ++ some ⟨s.textChars ++ aString.getD [], s.infoArray⟩ :: b) none
  | replaceCharacters (a : List (Option (GSTextStorage D))) (s : GSTextStorage D)
      (b : List (Option (GSTextStorage D))) (range : NSRange) (aString : Option (List UInt16))
      (infoArray : List (GSTextInfo D)) (slot : w.storages = a ++ some s :: b)
      (inRange : range.max ≤ s.textChars.length) (inside : range.location < s.textChars.length)
      (value : Replaced s.infoArray infoArray s.textChars.length (aString.getD []).length
        (replacementStart range) range) :
      Performed w (.replaceCharacters a.length range aString)
        (a ++ some ⟨s.textChars.take range.location ++ aString.getD [] ++
          s.textChars.drop range.max, infoArray⟩ :: b) none
  | dealloc (a : List (Option (GSTextStorage D))) (s : GSTextStorage D)
      (b : List (Option (GSTextStorage D))) (slot : w.storages = a ++ some s :: b) :
      Performed w (.dealloc a.length) (a ++ none :: b) none
  | raised (call : TextCall D) (outOfRange : OutOfRange w call) :
      Performed w call w.storages (some .rangeException)
  | idle (call : TextCall D) (n : Nat) (receiver : call.receiver = some n)
      (dead : w.storageAt n = none) : Performed w call w.storages none

theorem worldInvariant_setup (emptyDictionary : D) : WorldInvariant (TextWorld.setup emptyDictionary) 0 := by
  refine ⟨?_, by simp [TextWorld.setup]⟩
  have := accounts_cacheAttributes accounts_empty emptyDictionary
  simpa [TextWorld.setup, TextWorld.refs] using this

variable {w : TextWorld D} {leaks : Multiset (CachedDictionary D)}

/-- A new object whose initialiser returned. -/
theorem WorldInvariant.create (h : WorldInvariant w leaks) {method : TextM D Unit}
    {cache : AttributeCache D} {infoArray : List (GSTextInfo D)} {textChars : List UInt16}
    (hr : method ⟨w.cache, [], []⟩ = .ok () ⟨cache, infoArray, textChars⟩)
    (hi : RunInvariant infoArray textChars.length)
    (ha : Accounts cache (refsOf infoArray + (w.refs + leaks))) :
    w.create method =
      ({ w with cache := cache, storages := w.storages ++ [some ⟨textChars, infoArray⟩] }, none) ∧
    WorldInvariant (w.create method).1 leaks := by
  have he : w.create method =
      ({ w with cache := cache, storages := w.storages ++ [some ⟨textChars, infoArray⟩] }, none) := by
    unfold TextWorld.create
    rw [hr]
  rw [he]
  refine ⟨rfl, ?_, ?_⟩
  · have hrf : refsOf infoArray + (w.refs + leaks) = TextWorld.refs { w with
        cache := cache, storages := w.storages ++ [some ⟨textChars, infoArray⟩] } + leaks := by
      simp only [TextWorld.refs, slotsRefs_append, slotsRefs_cons, slotsRefs_nil, slotRefs_some,
        add_zero, ← Multiset.singleton_add]
      abel
    rwa [hrf] at ha
  · intro s hs
    rcases List.mem_append.mp hs with hs | hs
    · exact h.runs s hs
    · obtain rfl : s = ⟨textChars, infoArray⟩ := by simpa using hs
      exact hi

omit [DecidableEq D] in
theorem refs_split {a b : List (Option (GSTextStorage D))} {s : GSTextStorage D} (hs : w.storages = a ++ some s :: b) :
    w.refs + leaks = refsOf s.infoArray + (w.blank ::ₘ (slotsRefs a + slotsRefs b) + leaks) := by
  simp only [TextWorld.refs, hs, slotsRefs_append, slotsRefs_cons, slotRefs_some, ← Multiset.singleton_add]
  abel

theorem WorldInvariant.replaceSlot (h : WorldInvariant w leaks)
    {a b : List (Option (GSTextStorage D))} {s s' : GSTextStorage D}
    {leaks' : Multiset (CachedDictionary D)} {cache : AttributeCache D}
    (hs : w.storages = a ++ some s :: b)
    (hi : RunInvariant s'.infoArray s'.textChars.length)
    (ha : Accounts cache
      (refsOf s'.infoArray + (w.blank ::ₘ (slotsRefs a + slotsRefs b) + leaks'))) :
    WorldInvariant { w with cache := cache, storages := a ++ some s' :: b } leaks' := by
  refine ⟨?_, ?_⟩
  · rwa [refs_split (a := a) (b := b) (s := s') rfl]
  · intro t ht
    rcases List.mem_append.mp ht with ht | ht
    · exact h.runs t (by rw [hs]; simp [ht])
    · rcases List.mem_cons.mp ht with ht | ht
      · obtain rfl : t = s' := by simpa using ht
        exact hi
      · exact h.runs t (by rw [hs]; simp [ht])

omit [DecidableEq D] in
theorem send_live {a b : List (Option (GSTextStorage D))} {s : GSTextStorage D}
    (hs : w.storages = a ++ some s :: b) (method : TextM D Unit) :
    w.send a.length method =
      match method ⟨w.cache, s.infoArray, s.textChars⟩ with
      | .ok _ f => ({ w with
          cache := f.cache, storages := a ++ some ⟨f.textChars, f.infoArray⟩ :: b }, none)
      | .error e f => ({ w with
          cache := f.cache, storages := a ++ some ⟨f.textChars, f.infoArray⟩ :: b }, some e) := by
  have ha : w.storageAt a.length = some s := by
    unfold TextWorld.storageAt
    rw [hs, getElem?_at]
    rfl
  unfold TextWorld.send
  rw [ha]
  cases hr : method ⟨w.cache, s.infoArray, s.textChars⟩ with
  | ok _ f => simp only [hr, hs, set_at]
  | error e f => simp only [hr, hs, set_at]

theorem accounts_foldl_unCache {others : Multiset (CachedDictionary D)} :
    ∀ {infoArray : List (GSTextInfo D)} {cache : AttributeCache D}, Accounts cache (refsOf infoArray + others) →
      Accounts (infoArray.foldl (fun c info => unCacheAttributes info.attrs c) cache) others := by
  intro infoArray
  induction infoArray with
  | nil => intro cache h; simpa using h
  | cons info rest ih =>
    intro cache h
    apply ih
    have := accounts_unCacheAttributes h info.attrs (by simp)
    rwa [refsOf_cons, Multiset.cons_add, Multiset.erase_cons_head] at this

theorem WorldInvariant.dealloc (h : WorldInvariant w leaks)
    {a b : List (Option (GSTextStorage D))} {s : GSTextStorage D} (hs : w.storages = a ++ some s :: b) :
    (w.dealloc a.length).storages = a ++ none :: b ∧ WorldInvariant (w.dealloc a.length) leaks := by
  have hat : w.storageAt a.length = some s := by
    unfold TextWorld.storageAt
    rw [hs, getElem?_at]
    rfl
  have ha := h.accounts
  rw [refs_split hs] at ha
  have hst : (a ++ some s :: b).set a.length none = a ++ none :: b := set_at _ _ _ _
  unfold TextWorld.dealloc
  rw [hat]
  simp only [hs, hst]
  refine ⟨trivial, ⟨?_, fun t ht => h.runs t ?_⟩⟩
  · have := accounts_foldl_unCache ha
    simpa only [TextWorld.refs, slotsRefs_append, slotsRefs_cons, slotRefs_none, zero_add] using this
  · have ht' : some t ∈ a ∨ some t ∈ b := by simpa using ht
    rw [hs]
    simp only [List.mem_append, List.mem_cons]
    exact ht'.imp id Or.inr

section Mutators

variable {a b : List (Option (GSTextStorage D))} {s : GSTextStorage D}

theorem WorldInvariant.run_and_accounts (h : WorldInvariant w leaks) (hs : w.storages = a ++ some s :: b) :
    RunInvariant s.infoArray s.textChars.length ∧
      Accounts w.cache (refsOf s.infoArray + (w.blank ::ₘ (slotsRefs a + slotsRefs b) + leaks)) :=
  ⟨h.runs s (by rw [hs]; simp), refs_split hs ▸ h.accounts⟩

theorem WorldInvariant.sendOk (h : WorldInvariant w leaks) (hs : w.storages = a ++ some s :: b)
    {method : TextM D Unit} {cache : AttributeCache D} {infoArray : List (GSTextInfo D)} {textChars : List UInt16}
    (hr : method ⟨w.cache, s.infoArray, s.textChars⟩ = .ok () ⟨cache, infoArray, textChars⟩)
    (hi : RunInvariant infoArray textChars.length) (ha : Accounts cache
      (refsOf infoArray + (w.blank ::ₘ (slotsRefs a + slotsRefs b) + leaks))) :
    (w.send a.length method).1.storages = a ++ some ⟨textChars, infoArray⟩ :: b ∧
      (w.send a.length method).1.blank = w.blank ∧ (w.send a.length method).2 = none ∧
      WorldInvariant (w.send a.length method).1 leaks := by
  rw [send_live hs, hr]
  refine ⟨rfl, rfl, rfl, ?_⟩
  show WorldInvariant { w with
    cache := cache, storages := a ++ some ⟨textChars, infoArray⟩ :: b } leaks
  exact h.replaceSlot hs hi ha

theorem WorldInvariant.sendSetAttributes (h : WorldInvariant w leaks)
    (hs : w.storages = a ++ some s :: b) (attributes : Option D) (range : NSRange) :
    let call := TextCall.setAttributes a.length attributes range
    Performed w call (w.perform call).1.storages (w.perform call).2 ∧
      (w.perform call).1.blank = w.blank ∧
      ((¬ OutOfRange w call ∧ WorldInvariant (w.perform call).1 leaks) ∨
        (OutOfRange w call ∧ ∃ p, WorldInvariant (w.perform call).1 (p ::ₘ leaks))) := by
  obtain ⟨hi, ha⟩ := h.run_and_accounts hs
  have hat : w.storageAt a.length = some s := by
    unfold TextWorld.storageAt
    rw [hs, getElem?_at]
    rfl
  have ho : OutOfRange w (.setAttributes a.length attributes range) ↔
      0 < range.length ∧ s.textChars.length < range.max := by
    simp [OutOfRange, hat]
  intro call
  show Performed w call (w.send a.length _).1.storages (w.send a.length _).2 ∧
    (w.send a.length _).1.blank = w.blank ∧ (_ ∧ WorldInvariant (w.send a.length _).1 leaks ∨
      _ ∧ ∃ p, WorldInvariant (w.send a.length _).1 (p ::ₘ leaks))
  rcases Nat.eq_zero_or_pos range.length with hl | hl
  · -- nothing to do
    obtain ⟨h1, h2, h3, h4⟩ := h.sendOk hs (setAttributes_empty w.blank attributes _ hl) hi ha
    rw [h1, h2, h3]
    refine ⟨.setAttributes a s b attributes range _ hs (Or.inl hl) fun k _ => ?_, rfl,
      Or.inl ⟨fun hc => by have := ho.mp hc; omega, h4⟩⟩
    rw [if_neg (by unfold NSRange.max; omega)]
  · rcases Nat.lt_or_ge s.textChars.length range.max with hm | hm
    · -- the attributes are cached, and then the range is refused
      have hrs := setAttributes_raises w.blank attributes
        ⟨w.cache, s.infoArray, s.textChars⟩ hm hl
      have hcc := accounts_cacheAttributes ha (attributes.getD w.blank.contents)
      rw [← Multiset.add_cons, ← Multiset.add_cons] at hcc
      have hst : a ++ some (⟨s.textChars, s.infoArray⟩ : GSTextStorage D) :: b = w.storages := hs.symm
      rw [send_live hs, hrs]
      refine ⟨?_, rfl, Or.inr ⟨ho.mpr ⟨hl, hm⟩, _, h.replaceSlot hs hi hcc⟩⟩
      simp only [hst]
      exact .raised call (ho.mpr ⟨hl, hm⟩)
    · obtain ⟨cache', infoArray', hr, hi', ha', hv⟩ := setAttributes_spec w.blank attributes hi ha hm hl
      obtain ⟨h1, h2, h3, h4⟩ := h.sendOk hs hr hi' ha'
      rw [h1, h2, h3]
      exact ⟨.setAttributes a s b attributes range _ hs (Or.inr hm) hv, rfl,
        Or.inl ⟨fun hc => by have := ho.mp hc; omega, h4⟩⟩

theorem WorldInvariant.sendReplaceCharacters (h : WorldInvariant w leaks)
    (hs : w.storages = a ++ some s :: b) (range : NSRange) (aString : Option (List UInt16)) :
    let call := TextCall.replaceCharacters a.length range aString
    Performed w call (w.perform call).1.storages (w.perform call).2 ∧
      (w.perform call).1.blank = w.blank ∧ WorldInvariant (w.perform call).1 leaks := by
  obtain ⟨hinv, ha⟩ := h.run_and_accounts hs
  intro call
  show Performed w call (w.send a.length _).1.storages (w.send a.length _).2 ∧
    (w.send a.length _).1.blank = w.blank ∧ WorldInvariant (w.send a.length _).1 leaks
  rcases Nat.lt_or_ge s.textChars.length range.max with hm | hm
  · have hat : w.storageAt a.length = some s := by
      unfold TextWorld.storageAt
      rw [hs, getElem?_at]
      rfl
    have hst : a ++ some (⟨s.textChars, s.infoArray⟩ : GSTextStorage D) :: b = w.storages := hs.symm
    rw [send_live hs, replaceCharacters_raises w.blank aString _ hm]
    refine ⟨?_, rfl, h.replaceSlot hs hinv ha⟩
    simp only [hst]
    exact .raised call ⟨s, hat, hm⟩
  · have hle : range.location ≤ s.textChars.length := by unfold NSRange.max at hm; omega
    rcases Nat.lt_or_eq_of_le hle with hlt | heq
    · obtain ⟨cache', infoArray', hr, ha', hrep⟩ := replaceCharacters_spec w.blank aString hinv ha hm hlt
      have hl : (s.textChars.take range.location ++ aString.getD [] ++ s.textChars.drop range.max).length =
          s.textChars.length + (aString.getD []).length - range.length := by
        simp only [List.length_append, List.length_take, List.length_drop]
        unfold NSRange.max at *
        omega
      obtain ⟨h1, h2, h3, h4⟩ := h.sendOk hs hr (by rw [hl]; exact hrep.1) ha'
      rw [h1, h2, h3]
      exact ⟨.replaceCharacters a s b range aString _ hs hm hlt hrep, rfl, h4⟩
    · have hr := replaceCharacters_append w.blank aString
        ⟨w.cache, s.infoArray, s.textChars⟩ hm heq
      have hinv' : RunInvariant s.infoArray (s.textChars ++ aString.getD []).length :=
        ⟨hinv.first, hinv.increasing, fun info hi => by
          have := hinv.inside info hi
          rw [List.length_append]
          omega⟩
      obtain ⟨h1, h2, h3, h4⟩ := h.sendOk hs hr hinv' ha
      rw [h1, h2, h3]
      exact ⟨.append a s b range aString hs hm heq, rfl, h4⟩

end Mutators

theorem performed_idle {call : TextCall D} {n : Nat} (hr : call.receiver = some n)
    (hn : w.storageAt n = none) : w.perform call = (w, none) := by
  cases call with
  | initWithString => simp [TextCall.receiver] at hr
  | initWithAttributedString => simp [TextCall.receiver] at hr
  | setAttributes m attributes range =>
    obtain rfl : m = n := by simpa [TextCall.receiver] using hr
    simp [TextWorld.perform, TextWorld.send, hn]
  | replaceCharacters m range aString =>
    obtain rfl : m = n := by simpa [TextCall.receiver] using hr
    simp [TextWorld.perform, TextWorld.send, hn]
  | dealloc m =>
    obtain rfl : m = n := by simpa [TextCall.receiver] using hr
    simp [TextWorld.perform, TextWorld.dealloc, hn]

omit [DecidableEq D] in
theorem not_outOfRange_idle {call : TextCall D} {n : Nat} (hr : call.receiver = some n)
    (hn : w.storageAt n = none) : ¬ OutOfRange w call := by
  cases call with
  | setAttributes m attributes range =>
    obtain rfl : m = n := by simpa [TextCall.receiver] using hr
    simp [OutOfRange, hn]
  | replaceCharacters m range aString =>
    obtain rfl : m = n := by simpa [TextCall.receiver] using hr
    simp [OutOfRange, hn]
  | initWithString => exact id
  | initWithAttributedString => exact id
  | dealloc => exact id

theorem WorldInvariant.perform (h : WorldInvariant w leaks) (call : TextCall D) :
    Performed w call (w.perform call).1.storages (w.perform call).2 ∧ (w.perform call).1.blank = w.blank ∧
    ((¬ LeaksAt w call ∧ WorldInvariant (w.perform call).1 leaks) ∨
      (LeaksAt w call ∧ ∃ p, WorldInvariant (w.perform call).1 (p ::ₘ leaks))) := by
  by_cases hid : ∃ n, call.receiver = some n ∧ w.storageAt n = none
  · obtain ⟨n, hr, hn⟩ := hid
    rw [performed_idle hr hn]
    refine ⟨.idle call n hr hn, rfl, Or.inl ⟨?_, h⟩⟩
    rintro ⟨_, _, _, -, hout⟩
    exact not_outOfRange_idle hr hn hout
  · have hl : ∀ n, call.receiver = some n → ∃ a s b, w.storages = a ++ some s :: b ∧ a.length = n := by
      intro n hr
      obtain ⟨s, hs⟩ := Option.ne_none_iff_exists'.mp fun hn => hid ⟨n, hr, hn⟩
      obtain ⟨a, b, h1, h2⟩ := TextWorld.storageAt_split hs
      exact ⟨a, s, b, h1, h2⟩
    cases call with
    | initWithString aString attributes =>
      have he : Accounts w.cache (refsOf ([] : List (GSTextInfo D)) + (w.refs + leaks)) := by
        simpa using h.accounts
      obtain ⟨hnew, hi⟩ := h.create (initWithString_run w.blank aString attributes w.cache)
        ⟨rfl, by simp, by simp⟩ (accounts_snoc he _ 0)
      refine ⟨?_, ?_, Or.inl ⟨not_leaksAt (by simp), hi⟩⟩
      · show Performed w _ (w.create _).1.storages (w.create _).2
        rw [hnew]
        refine .initWithString aString attributes _ fun k => ?_
        rw [runsOf_cons, runsOf_nil, valueAt_singleton, if_pos (Nat.zero_le k), cacheAttributes_contents h.accounts]
      · show (w.create _).1.blank = _
        rw [hnew]
    | initWithAttributedString source =>
      obtain ⟨cache', infoArray', hrun, hrn, ha, hv⟩ := initWithAttributedString_spec w.blank source h.accounts
      obtain ⟨hnew, hi⟩ := h.create hrun hrn ha
      refine ⟨?_, ?_, Or.inl ⟨not_leaksAt (by simp), hi⟩⟩
      · show Performed w _ (w.create _).1.storages (w.create _).2
        rw [hnew]
        exact .initWithAttributedString source infoArray' hv
      · show (w.create _).1.blank = _
        rw [hnew]
    | setAttributes n attributes range =>
      obtain ⟨a, s, b, hs, rfl⟩ := hl n rfl
      have hlk : LeaksAt w (.setAttributes a.length attributes range) ↔
          OutOfRange w (.setAttributes a.length attributes range) := by
        constructor
        · rintro ⟨_, _, _, _, ho⟩
          exact ho
        · exact fun ho => ⟨_, _, _, rfl, ho⟩
      rw [hlk]
      exact h.sendSetAttributes hs attributes range
    | replaceCharacters n range aString =>
      obtain ⟨a, s, b, hs, rfl⟩ := hl n rfl
      obtain ⟨h1, h2, h3⟩ := h.sendReplaceCharacters hs range aString
      exact ⟨h1, h2, Or.inl ⟨not_leaksAt (by simp), h3⟩⟩
    | dealloc n =>
      obtain ⟨a, s, b, hs, rfl⟩ := hl n rfl
      obtain ⟨h1, h2⟩ := h.dealloc hs
      refine ⟨?_, ?_, Or.inl ⟨not_leaksAt (by simp), h2⟩⟩
      · show Performed w _ (w.dealloc a.length).storages none
        rw [h1]
        exact .dealloc a s b hs
      · show (w.dealloc a.length).blank = _
        unfold TextWorld.dealloc
        split <;> rfl

/-! ## Runs of calls -/

theorem TextWorld.run_append (w : TextWorld D) (front back : List (TextCall D)) :
    w.run (front ++ back) = (w.run front).run back := List.foldl_append

theorem TextWorld.run_snoc (w : TextWorld D) (front : List (TextCall D)) (call : TextCall D) :
    w.run (front ++ [call]) = ((w.run front).perform call).1 := by
  rw [TextWorld.run_append]
  rfl

theorem WorldInvariant.run (h : WorldInvariant w leaks) (calls : List (TextCall D)) :
    ∃ leaks', WorldInvariant (w.run calls) leaks' := by
  induction calls using List.reverseRecOn with
  | nil => exact ⟨leaks, h⟩
  | append_singleton front call ih =>
    obtain ⟨leaks', hf⟩ := ih
    rw [TextWorld.run_snoc]
    rcases (hf.perform call).2.2 with ⟨-, hi⟩ | ⟨-, p, hi⟩
    · exact ⟨_, hi⟩
    · exact ⟨_, hi⟩

theorem getElem?_middle {α : Type*} (a b : List α) {x y : α} {n : Nat} (h : a.length ≠ n) :
    (a ++ x :: b)[n]? = (a ++ y :: b)[n]? := by
  rw [show a ++ x :: b = (a ++ y :: b).set a.length x by simp, List.getElem?_set_ne h]

omit [DecidableEq D] in
theorem Performed.others {call : TextCall D} {storages : List (Option (GSTextStorage D))}
    {out : Option TextException} (h : Performed w call storages out) {n : Nat} {s : GSTextStorage D}
    (hs : w.storageAt n = some s) (hr : call.receiver ≠ some n) : storages[n]? = w.storages[n]? := by
  obtain ⟨a', b', hslot, rfl⟩ := TextWorld.storageAt_split hs
  have hlt : a'.length < w.storages.length := by simp [hslot]
  have hne {k : Nat} (hk : call.receiver = some k) : k ≠ a'.length := fun he => hr (he ▸ hk)
  cases h with
  | initWithString | initWithAttributedString => exact List.getElem?_append_left hlt
  | raised | idle => rfl
  | setAttributes a s b _ _ _ slot => exact slot ▸ getElem?_middle a b (hne rfl)
  | append a s b _ _ slot => exact slot ▸ getElem?_middle a b (hne rfl)
  | replaceCharacters a s b _ _ _ slot => exact slot ▸ getElem?_middle a b (hne rfl)
  | dealloc a s b slot => exact slot ▸ getElem?_middle a b (hne rfl)

theorem WorldInvariant.useCount_pos (h : WorldInvariant w leaks) {n : Nat} {s : GSTextStorage D}
    (hs : w.storageAt n = some s) {info : GSTextInfo D} (hi : info ∈ s.infoArray) :
    0 < w.cache.useCount info.attrs := by
  obtain ⟨a, b, slot, -⟩ := TextWorld.storageAt_split hs
  rw [h.accounts.useCount_eq, Multiset.count_pos, TextWorld.refs, slot, slotsRefs_append, slotsRefs_cons, slotRefs_some]
  have hm : info.attrs ∈ refsOf s.infoArray := List.mem_map_of_mem hi
  simp [hm]

end GnustepGui.TextStorage
