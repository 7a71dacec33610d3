import ClassChart.Proofs.CanonicalJson

/-!
# The order of fields

The fields of an object have an order in a value, but none in what it means. Canonical text has them
in the order of their names, so it is the same for all orders. It denotes the value with the fields
of every object sorted, and loses nothing else, for every value that was read from a text.

## Main definitions

* `RawText.Precedes`: the strict order of names by code points
* `Json.IsSorted`: the fields of every object are in the order of their names
* `Json.Reordered`: values that differ only in the order of fields, at any level

## Main results

* `RawText.le_iff`: names are compared by their code points
* `Json.isSorted_sorted`, `Json.reordered_sorted`: sorting sorts, and changes nothing but the order
* `Json.Reordered.sorted_eq`: the order before sorting does not matter
* `Json.isFaithful_iff`: which values texts denote
* `Json.canonical_lossless`: the canonical text of such a value
-/

namespace ClassChart

/-! ## Comparing names -/

namespace RawText

/-- One text comes before another, compared by code points. -/
def Precedes (a b : RawText) : Prop :=
  List.Lex (· < ·) (a.map Symbol.code) (b.map Symbol.code)

theorem code_inj {a b : Symbol} : a.code = b.code ↔ a = b := by
  constructor
  · intro h
    rw [← Json.ofCode_code a, h, Json.ofCode_code]
  · rintro rfl
    rfl

theorem precedes_cons {a b : Symbol} {as bs : RawText} :
    Precedes (a :: as) (b :: bs) ↔ a.code < b.code ∨ a = b ∧ Precedes as bs := by
  rw [Precedes, List.map_cons, List.map_cons, List.cons_lex_cons_iff, code_inj]
  rfl

/-- **Names are compared by their code points.** -/
theorem le_iff {a b : RawText} : le a b = true ↔ a = b ∨ Precedes a b := by
  induction a generalizing b with
  | nil =>
    cases b with
    | nil => simp [le]
    | cons b bs => exact iff_of_true rfl (.inr .nil)
  | cons a as ih =>
    cases b with
    | nil => simp [le, Precedes]
    | cons b bs =>
      rw [le, Bool.or_eq_true, Bool.and_eq_true, decide_eq_true_eq, beq_iff_eq, ih, precedes_cons,
        List.cons.injEq]
      constructor
      · rintro (hlt | ⟨rfl, rfl | hlex⟩)
        · exact .inr (.inl hlt)
        · exact .inl ⟨rfl, rfl⟩
        · exact .inr (.inr ⟨rfl, hlex⟩)
      · rintro (⟨rfl, rfl⟩ | hlt | ⟨rfl, hlex⟩)
        · exact .inr ⟨rfl, .inl rfl⟩
        · exact .inl hlt
        · exact .inr ⟨rfl, .inr hlex⟩

theorem Precedes.trans {a b c : RawText} (hab : Precedes a b) (hbc : Precedes b c) :
    Precedes a c :=
  List.lex_trans Nat.lt_trans hab hbc

theorem Precedes.asymm {a b : RawText} (hab : Precedes a b) : ¬ Precedes b a :=
  fun hba => List.lex_asymm Nat.lt_asymm hab hba

theorem le_trans {a b c : RawText} (hab : le a b = true) (hbc : le b c = true) :
    le a c = true := by
  rw [le_iff] at *
  rcases hab with rfl | hab
  · exact hbc
  · rcases hbc with rfl | hbc
    · exact .inr hab
    · exact .inr (hab.trans hbc)

theorem le_antisymm {a b : RawText} (hab : le a b = true) (hba : le b a = true) : a = b := by
  rw [le_iff] at *
  rcases hab with rfl | hab
  · rfl
  · rcases hba with rfl | hba
    · rfl
    · exact absurd hba hab.asymm

theorem le_total (a b : RawText) : (le a b || le b a) = true := by
  induction a generalizing b with
  | nil => rfl
  | cons a as ih =>
    cases b with
    | nil => rfl
    | cons b bs =>
      rw [Bool.or_eq_true, le, le]
      rcases Nat.lt_trichotomy a.code b.code with hlt | heq | hgt
      · exact .inl (by simp [hlt])
      · obtain rfl := code_inj.mp heq
        simpa using ih bs
      · exact .inr (by simp [hgt])

end RawText

/-! ## Sorted objects -/

namespace Object

/-- With different names in it, an object has at most one field of a name. -/
theorem eq_of_name_eq {o : Object} (h : o.names.Nodup) {f g : RawText × Json} (hf : f ∈ o)
    (hg : g ∈ o) (hname : f.1 = g.1) : f = g :=
  List.inj_on_of_nodup_map h hf hg hname

/-- Sorted fields ascend. -/
theorem pairwise_mergeSort (o : Object) :
    (o.mergeSort fun f g => RawText.le f.1 g.1).Pairwise fun f g => RawText.le f.1 g.1 = true := by
  apply List.pairwise_mergeSort
  · intro f g k hfg hgk
    exact RawText.le_trans hfg hgk
  · intro f g
    exact RawText.le_total f.1 g.1

/-- **Sorting forgets the order of fields**, if their names differ. -/
theorem mergeSort_eq_of_perm {o p : Object} (hperm : o.Perm p) (h : o.names.Nodup) :
    (o.mergeSort fun f g => RawText.le f.1 g.1) = p.mergeSort fun f g => RawText.le f.1 g.1 := by
  have hmerged := (List.mergeSort_perm o fun f g => RawText.le f.1 g.1).trans
    (hperm.trans (List.mergeSort_perm p fun f g => RawText.le f.1 g.1).symm)
  refine List.Perm.eq_of_pairwise ?_ (pairwise_mergeSort o) (pairwise_mergeSort p) hmerged
  intro f g hf hg hfg hgf
  have hf' : f ∈ o := List.mem_mergeSort.mp hf
  have hg' : g ∈ o := hperm.mem_iff.mpr (List.mem_mergeSort.mp hg)
  exact eq_of_name_eq h hf' hg' (RawText.le_antisymm hfg hgf)

end Object

namespace Json

mutual

/-- The fields of every object in a value are in the order of their names. -/
def IsSorted : Json → Prop
  | .arr items => AreSorted items
  | .obj fields => (Object.names fields).Pairwise RawText.Precedes ∧ HasSorted fields
  | _ => True

/-- Whether all items are sorted. -/
def AreSorted : List Json → Prop
  | [] => True
  | v :: rest => v.IsSorted ∧ AreSorted rest

/-- Whether the values of all fields are sorted. -/
def HasSorted : List (RawText × Json) → Prop
  | [] => True
  | (_, v) :: rest => v.IsSorted ∧ HasSorted rest

end

theorem hasSorted_iff {fs : List (RawText × Json)} : HasSorted fs ↔ ∀ f ∈ fs, f.2.IsSorted := by
  induction fs with
  | nil => simp [HasSorted]
  | cons f fs ih => rw [HasSorted, ih, List.forall_mem_cons]

/-- The names in a sorted object ascend strictly, as no two are the same. -/
theorem pairwise_names_sortedObject {fields : Object} (h : (Object.names fields).Nodup) :
    (Object.names (sortedObject fields)).Pairwise RawText.Precedes := by
  have hle := Object.pairwise_mergeSort (sortedFields fields)
  have hne : (Object.names (sortedObject fields)).Pairwise (· ≠ ·) := nodup_sortedObject h
  rw [Object.names, List.pairwise_map] at hne ⊢
  refine (hle.and hne).imp ?_
  rintro f g ⟨hfg, hfg'⟩
  exact (RawText.le_iff.mp hfg).resolve_left hfg'

mutual

/-- **Sorting sorts**, at every level. -/
theorem isSorted_sorted : ∀ {v : Json}, v.IsFaithful → v.sorted.IsSorted
  | .null, _ | .bool _, _ | .int _, _ | .float _, _ | .str _, _ => trivial
  | .arr _, h => areSorted_sortedItems h
  | .obj fields, h => by
    refine ⟨pairwise_names_sortedObject h.1, ?_⟩
    have hfields := hasSorted_sortedFields h.2
    rw [hasSorted_iff] at hfields ⊢
    intro field hfield
    exact hfields field (List.mem_mergeSort.mp hfield)

theorem areSorted_sortedItems : ∀ {vs : List Json}, AreFaithful vs → AreSorted (sortedItems vs)
  | [], _ => trivial
  | _ :: _, h => ⟨isSorted_sorted h.1, areSorted_sortedItems h.2⟩

theorem hasSorted_sortedFields :
    ∀ {fields : List (RawText × Json)}, HasFaithful fields → HasSorted (sortedFields fields)
  | [], _ => trivial
  | (_, _) :: _, h => ⟨isSorted_sorted h.2.1, hasSorted_sortedFields h.2.2⟩

end

/-! ## Reordered values -/

mutual

/-- Two values differ only in the order of the fields of objects, at any level. -/
inductive Reordered : Json → Json → Prop
  | same (v : Json) : Reordered v v
  | arr {vs ws : List Json} (items : ReorderedItems vs ws) : Reordered (.arr vs) (.arr ws)
  /-- Fields may be reordered inside, and then change places. -/
  | obj {fs gs hs : Object} (fields : ReorderedFields fs gs) (places : gs.Perm hs) :
    Reordered (.obj fs) (.obj hs)

/-- Two lists of items differ only in the order of fields in them. -/
inductive ReorderedItems : List Json → List Json → Prop
  | nil : ReorderedItems [] []
  | cons {v w : Json} {vs ws : List Json} (first : Reordered v w) (rest : ReorderedItems vs ws) :
    ReorderedItems (v :: vs) (w :: ws)

/-- Two lists of fields have the same names in the same order and values that differ only in the
order of fields in them. -/
inductive ReorderedFields : Object → Object → Prop
  | nil : ReorderedFields [] []
  | cons {name : RawText} {v w : Json} {fs gs : Object} (first : Reordered v w)
    (rest : ReorderedFields fs gs) : ReorderedFields ((name, v) :: fs) ((name, w) :: gs)

end

mutual

/-- **Sorting changes nothing but the order.** -/
theorem reordered_sorted : ∀ v : Json, v.Reordered v.sorted
  | .null | .bool _ | .int _ | .float _ | .str _ => .same _
  | .arr items => .arr (reorderedItems_sorted items)
  | .obj fields => .obj (reorderedFields_sorted fields) (List.mergeSort_perm _ _).symm

theorem reorderedItems_sorted : ∀ vs : List Json, ReorderedItems vs (sortedItems vs)
  | [] => .nil
  | v :: rest => .cons (reordered_sorted v) (reorderedItems_sorted rest)

theorem reorderedFields_sorted :
    ∀ fs : List (RawText × Json), ReorderedFields fs (sortedFields fs)
  | [] => .nil
  | (_, v) :: rest => .cons (reordered_sorted v) (reorderedFields_sorted rest)

end

mutual

/-- **The order before sorting does not matter.** -/
theorem Reordered.sorted_eq : ∀ {v w : Json}, v.IsFaithful → v.Reordered w → w.sorted = v.sorted
  | _, _, _, .same _ => rfl
  | .arr vs, _, h, .arr hitems => by rw [sorted, sorted, ReorderedItems.sorted_eq h hitems]
  | .obj fs, .obj hs, h, @Reordered.obj _ gs _ hfields hplaces => by
    -- the fields are sorted inside first, which makes them equal but for their places
    have hinside : sortedFields gs = sortedFields fs := ReorderedFields.sorted_eq h.2 hfields
    have hperm : (sortedFields fs).Perm (sortedFields hs) := by
      rw [← hinside, sortedFields_eq_map, sortedFields_eq_map]
      exact hplaces.map _
    have hnames : (Object.names (sortedFields fs)).Nodup := by
      rw [sortedFields_eq_map, names_map_sorted]
      exact h.1
    rw [sorted, sorted, Object.mergeSort_eq_of_perm hperm hnames]

theorem ReorderedItems.sorted_eq :
    ∀ {vs ws : List Json}, AreFaithful vs → ReorderedItems vs ws → sortedItems ws = sortedItems vs
  | [], _, _, .nil => rfl
  | _ :: _, _, h, .cons hfirst hrest => by
    rw [sortedItems, sortedItems, Reordered.sorted_eq h.1 hfirst,
      ReorderedItems.sorted_eq h.2 hrest]

theorem ReorderedFields.sorted_eq :
    ∀ {fs gs : Object}, HasFaithful fs → ReorderedFields fs gs → sortedFields gs = sortedFields fs
  | [], _, _, .nil => rfl
  | (_, _) :: _, _, h, .cons hfirst hrest => by
    rw [sortedFields, sortedFields, Reordered.sorted_eq h.2.1 hfirst,
      ReorderedFields.sorted_eq h.2.2 hrest]

end

/-! ## Canonical text -/

/-- Plain characters, by their code points. -/
theorem isPlain_iff {c : Char} :
    isPlain c = true ↔ c = '\n' ∨ 0x20 ≤ c.toNat ∧ c.toNat ≤ 0x7E := by
  rw [isPlain, Bool.or_eq_true, beq_iff_eq, Bool.and_eq_true, decide_eq_true_eq, decide_eq_true_eq]
  rfl

/-- The values that texts denote are the faithful ones. -/
theorem isFaithful_iff {v : Json} : v.IsFaithful ↔ ∃ s, parse s = .ok v := by
  constructor
  · intro h
    exact ⟨v.text .line, parse_text .line h⟩
  · rintro ⟨s, h⟩
    exact isFaithful_of_parse h

/-- **Canonical text is lossless, does not depend on the order of fields, and is plain.** The values
that texts denote are the faithful ones. The canonical text of such a value denotes a value that
differs from it only in the order of fields, which is that of their names in every object. All values
that differ from it only in that order have the same canonical text, in which there are only line
feeds and printable ASCII. -/
theorem canonical_lossless (v : Json) :
    (v.IsFaithful ↔ ∃ s, parse s = .ok v) ∧
      (v.IsFaithful →
        (parse v.canonical = .ok v.sorted ∧ v.Reordered v.sorted ∧ v.sorted.IsSorted) ∧
        (∀ w, v.Reordered w → w.canonical = v.canonical) ∧
        ∀ c ∈ v.canonical.toList, c = '\n' ∨ 0x20 ≤ c.toNat ∧ c.toNat ≤ 0x7E) := by
  refine ⟨isFaithful_iff, ?_⟩
  intro h
  refine ⟨⟨?_, reordered_sorted v, isSorted_sorted h⟩, ?_, ?_⟩
  · exact parse_text (.indented 2) (isFaithful_sorted h)
  · intro w hw
    rw [canonical, canonical, hw.sorted_eq h]
  · intro c hc
    exact isPlain_iff.mp (arePlain_canonical v c hc)

/-- An object in an array, with a character beyond the first plane, a control character, a large
number and an empty array in it. -/
def twoFields : Json :=
  .arr [.obj [("\u0001😀", .int 123456789012345678901234567890), ("a\"", .arr [])],
    .float (.zero true)]

/-- The same with the fields the other way round. -/
def twoFieldsTurned : Json :=
  .arr [.obj [("a\"", .arr []), ("\u0001😀", .int 123456789012345678901234567890)],
    .float (.zero true)]

theorem canonical_lossless_twoFields :
    parse twoFieldsTurned.canonical = .ok twoFieldsTurned.sorted ∧
      twoFields.canonical = twoFieldsTurned.canonical := by
  have hfaithful : twoFieldsTurned.IsFaithful := by decide +kernel
  have hturned : twoFieldsTurned.Reordered twoFields := by
    apply Reordered.arr
    refine .cons (.obj ?_ (.swap _ _ _)) (.cons (.same _) .nil)
    exact .cons (.same _) (.cons (.same _) .nil)
  obtain ⟨⟨hparse, -, -⟩, hsame, -⟩ := (canonical_lossless twoFieldsTurned).2 hfaithful
  exact ⟨hparse, hsame twoFields hturned⟩

/-- A power of ten has one digit more than its exponent says. -/
theorem not_isFaithful_tenTo {n : Nat} (h : maxIntegerDigits ≤ n) :
    ¬ (Json.int (Binary64.tenTo n)).IsFaithful := by
  intro hfaithful
  rw [IsFaithful, Int.natAbs_natCast,
    Nat.length_toDigits_le_iff (by decide) (by decide)] at hfaithful
  have hpow : 10 ^ maxIntegerDigits ≤ Binary64.tenTo n := Nat.pow_le_pow_right (by decide) h
  exact Nat.not_lt.mpr hpow hfaithful

/-- A whole number of a digit too many is not read back from its canonical text. -/
theorem canonical_longInteger :
    parse (Json.int (Binary64.tenTo 4300)).canonical ≠
      .ok (Json.int (Binary64.tenTo 4300)).sorted := by
  intro h
  have hfaithful := isFaithful_of_parse h
  simp only [sorted] at hfaithful
  exact not_isFaithful_tenTo (Nat.le_refl _) hfaithful

end Json

end ClassChart
