import ClassChart.Proofs.FileAccess

/-!
# Paths as they are typed

A path as it is typed may have doubled slashes, dots and a slash at its end. The path that it denotes
has none of these. It leads through some of the same places to the same end, and its text is no
longer. Where something is there by the typed path, it can therefore be found by the denoted one.

## Main definitions

* `isKept`: whether a typed name stays in the path
* `slashedSize`: the bytes that names have with a slash before each of them

## Main results

* `utf8ByteSize_ofText`: the text of the denoted path is no longer than the typed one
* `Files.exists_read_of_typedExists`: what is there by a typed path and is no directory can be read
-/

namespace ClassChart

/-! ## The places of a typed path -/

/-- Whether a typed name stays in the path that it is typed for. -/
def isKept (name : String) : Bool :=
  name != "" && name != "."

theorem stepTo_of_not_isKept {name : String} (h : isKept name = false) (place : List String) :
    stepTo place name = place := by
  have hname : name = "" ∨ name = "." := by
    by_contra hne
    obtain ⟨hempty, hdot⟩ := not_or.mp hne
    simp [isKept, hempty, hdot] at h
  rw [stepTo, if_pos hname]

/-- The names that stay lead to the same place. -/
theorem foldl_stepTo_filter (names place : List String) :
    (names.filter isKept).foldl stepTo place = names.foldl stepTo place := by
  induction names generalizing place with
  | nil => rfl
  | cons n names ih =>
    cases hn : isKept n with
    | true => rw [List.filter_cons_of_pos hn, List.foldl_cons, List.foldl_cons, ih]
    | false =>
      rw [List.filter_cons_of_neg (by simp [hn]), List.foldl_cons, stepTo_of_not_isKept hn, ih]

/-- The names that stay lead through no other places. -/
theorem mem_passed_of_filter {names place q : List String}
    (h : q ∈ passed place (names.filter isKept)) : q ∈ passed place names := by
  induction names generalizing place with
  | nil => exact h
  | cons n names ih =>
    rw [passed, List.mem_cons]
    cases hn : isKept n with
    | true =>
      rw [List.filter_cons_of_pos hn, passed, List.mem_cons] at h
      exact h.imp_right ih
    | false =>
      rw [List.filter_cons_of_neg (by simp [hn])] at h
      rw [stepTo_of_not_isKept hn]
      exact .inr (ih h)

/-! ## The characters of a typed path -/

theorem mem_of_mem_splitSlashes {cs piece : List Char} (hpiece : piece ∈ splitSlashes cs) {c : Char}
    (hc : c ∈ piece) : c ∈ cs := by
  induction cs generalizing piece with
  | nil =>
    rw [splitSlashes, List.mem_singleton] at hpiece
    rwa [hpiece] at hc
  | cons a rest ih =>
    rw [List.mem_cons]
    unfold splitSlashes at hpiece
    split at hpiece
    · rcases List.mem_cons.mp hpiece with rfl | hpiece
      · cases hc
      · exact .inr (ih hpiece hc)
    · split at hpiece
      · rw [List.mem_singleton.mp hpiece, List.mem_singleton] at hc
        exact .inl hc
      · -- the character is put in front of the first piece of the rest
        rename_i p ps hsplit
        rw [hsplit] at ih
        rcases List.mem_cons.mp hpiece with rfl | hpiece
        · exact (List.mem_cons.mp hc).imp_right fun hc => ih List.mem_cons_self hc
        · exact .inr (ih (List.mem_cons_of_mem p hpiece) hc)

theorem hasNull_ofText {text : String} (h : hasNull text = false) :
    (Path.ofText text).hasNull = false := by
  rw [Path.hasNull, List.any_eq_false]
  intro name hname hnull
  obtain ⟨piece, hpiece, rfl⟩ := List.mem_map.mp (List.mem_of_mem_filter hname)
  rw [hasNull, String.toList_ofList, List.contains_iff_mem] at hnull
  have hmem := List.contains_iff_mem.mpr (mem_of_mem_splitSlashes hpiece hnull)
  rw [hasNull, hmem] at h
  cases h

/-! ## The length of a typed path -/

/-- The bytes that names have with a slash before each of them. -/
def slashedSize (names : List String) : Nat :=
  (names.map fun name => 1 + name.utf8ByteSize).sum

theorem slashedSize_cons (name : String) (names : List String) :
    slashedSize (name :: names) = 1 + name.utf8ByteSize + slashedSize names := by
  rw [slashedSize, List.map_cons, List.sum_cons]
  rfl

theorem slashedSize_filter (names : List String) :
    slashedSize (names.filter isKept) ≤ slashedSize names := by
  induction names with
  | nil => exact Nat.le_refl _
  | cons n names ih =>
    cases hn : isKept n with
    | true =>
      rw [List.filter_cons_of_pos hn, slashedSize_cons, slashedSize_cons]
      omega
    | false =>
      rw [List.filter_cons_of_neg (by simp [hn]), slashedSize_cons]
      omega

theorem utf8ByteSize_ofList_cons (c : Char) (cs : List Char) :
    (String.ofList (c :: cs)).utf8ByteSize = c.utf8Size + (String.ofList cs).utf8ByteSize := by
  rw [String.ofList_cons, String.utf8ByteSize_append, String.utf8ByteSize_singleton]

/-- A text has one slash less than names between slashes. -/
theorem slashedSize_segments (cs : List Char) :
    slashedSize (segments (String.ofList cs)) = (String.ofList cs).utf8ByteSize + 1 := by
  rw [segments, String.toList_ofList]
  induction cs with
  | nil => rfl
  | cons c rest ih =>
    rw [utf8ByteSize_ofList_cons]
    unfold splitSlashes
    split
    · rename_i hc
      have hsize : c.utf8Size = 1 := by rw [hc]; rfl
      rw [List.map_cons, slashedSize_cons, ih, hsize, String.ofList_nil, String.utf8ByteSize_empty]
      omega
    · split
      · rename_i hsplit
        simp [hsplit, slashedSize] at ih
      · rename_i p ps hsplit
        rw [hsplit, List.map_cons, slashedSize_cons] at ih
        rw [List.map_cons, slashedSize_cons, utf8ByteSize_ofList_cons]
        omega

theorem segments_slash (cs : List Char) :
    segments (String.ofList ('/' :: cs)) = "" :: segments (String.ofList cs) := by
  simp [segments, splitSlashes]

theorem utf8ByteSize_intercalate_le (names : List String) :
    ("/".intercalate names).utf8ByteSize ≤ slashedSize names - 1 := by
  cases names with
  | nil => simp
  | cons n names =>
    rw [utf8ByteSize_slashes, slashedSize_cons, slashedSize]
    omega

/-- The names that stay of a text with slashes at its start have no more bytes than the text without
these slashes. -/
theorem utf8ByteSize_intercalate_segments (cs : List Char) :
    ("/".intercalate ((segments (String.ofList cs)).filter isKept)).utf8ByteSize ≤
      (String.ofList cs).utf8ByteSize := by
  have hle := utf8ByteSize_intercalate_le ((segments (String.ofList cs)).filter isKept)
  have hfilter := slashedSize_filter (segments (String.ofList cs))
  rw [slashedSize_segments] at hfilter
  omega

/-- The slashes that the anchor of a typed path takes from it. -/
theorem anchorOf_cases (cs : List Char) :
    anchorOf (String.ofList cs) = .here ∨
      (∃ rest, cs = '/' :: rest ∧ anchorOf (String.ofList cs) = .root) ∨
        ∃ rest, cs = '/' :: '/' :: rest ∧ anchorOf (String.ofList cs) = .doubleRoot := by
  unfold anchorOf
  rw [String.toList_ofList]
  split
  · exact .inr (.inl ⟨_, rfl, rfl⟩)
  · exact .inr (.inr ⟨_, rfl, rfl⟩)
  · exact .inr (.inl ⟨_, rfl, rfl⟩)
  · exact .inl rfl

/-- **The text of a path is no longer than the typed one.** -/
theorem utf8ByteSize_ofText {text : String} (hne : text ≠ "") :
    (Path.ofText text).toText.utf8ByteSize ≤ text.utf8ByteSize := by
  obtain ⟨cs, rfl⟩ : ∃ cs, text = String.ofList cs := ⟨text.toList, by simp⟩
  have hslash : '/'.utf8Size = 1 := rfl
  have hparts : (Path.ofText (String.ofList cs)).parts =
      (segments (String.ofList cs)).filter isKept := rfl
  have hanchor : (Path.ofText (String.ofList cs)).anchor = anchorOf (String.ofList cs) := rfl
  -- the slashes in front leave empty names, which are not kept
  have hdrop : ∀ names, ("" :: names).filter isKept = names.filter isKept := fun names =>
    List.filter_cons_of_neg (by simp [isKept])
  rw [utf8ByteSize_toText, hparts, hanchor]
  rcases anchorOf_cases cs with h | ⟨rest, rfl, h⟩ | ⟨rest, rfl, h⟩
  · rw [h]
    simp only
    split
    · have hpos : (String.ofList cs).utf8ByteSize ≠ 0 := by
        rwa [Ne, String.utf8ByteSize_eq_zero_iff]
      omega
    · exact utf8ByteSize_intercalate_segments cs
  · have hle := utf8ByteSize_intercalate_segments rest
    rw [h, segments_slash, hdrop, utf8ByteSize_ofList_cons]
    simp only
    omega
  · have hle := utf8ByteSize_intercalate_segments rest
    rw [h, segments_slash, hdrop, segments_slash, hdrop, utf8ByteSize_ofList_cons,
      utf8ByteSize_ofList_cons]
    simp only
    omega

namespace Files

/-- **What is there by a typed path and is no directory can be read.** -/
theorem exists_read_of_typedExists {fs : Files} {text : String} (hnull : hasNull text = false)
    (h : fs.typedExists text = true) (hdir : fs.isDir (Path.ofText text) = false) :
    ∃ content, fs.read (Path.ofText text) = .ok content := by
  rw [typedExists] at h
  split at h
  case h_2 => cases h
  case h_1 place hfollow =>
    change follow fs.root ((Path.ofText text).base fs.cwd) (segments text) = .ok place at hfollow
    simp only [Bool.and_eq_true, Bool.not_eq_true', decide_eq_true_eq] at h
    obtain ⟨⟨hne, hshort⟩, hentry⟩ := h
    obtain ⟨hpassed, hnames, rfl⟩ := follow_eq_ok_iff.mp hfollow
    -- a typed path is followed name by name, so its kept names can be followed, too
    have hlocate : fs.locate (Path.ofText text) = .ok ((Path.ofText text).resolve fs.cwd) := by
      refine locate_eq_ok_iff.mpr ⟨⟨hasNull_ofText hnull, ?_, ?_⟩, ?_, rfl⟩
      · rw [isShort, decide_eq_true_eq]
        exact Nat.le_trans (utf8ByteSize_ofText (by simpa using hne)) hshort
      · exact fun name hname => hnames name (List.mem_of_mem_filter hname)
      · exact fun r hr => hpassed r (mem_passed_of_filter hr)
    have hresolve : (Path.ofText text).resolve fs.cwd =
        (segments text).foldl stepTo ((Path.ofText text).base fs.cwd) :=
      foldl_stepTo_filter _ _
    rw [read_of_locate hlocate]
    cases hlook : fs.look ((Path.ofText text).resolve fs.cwd) with
    | file content => exact ⟨content, rfl⟩
    | folder =>
      rw [isDir_eq_true_iff.mpr ⟨_, hlocate, hlook⟩] at hdir
      cases hdir
    | nothing =>
      rw [look, Dir.look, hresolve] at hlook
      obtain ⟨e, he⟩ := Option.isSome_iff_exists.mp hentry
      rw [he] at hlook
      cases e <;> cases hlook

end Files

end ClassChart
