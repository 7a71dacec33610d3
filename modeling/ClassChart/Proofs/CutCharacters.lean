import ClassChart.Proofs.Decoding

/-!
# Spans that cut characters

The span of a node is given in bytes and need not respect the characters of the source. Of a
character that the span starts in, each byte that is left is replaced for itself; of a character
that the span ends in, the bytes that are there are replaced together. The characters between them
are read as they are.

## Main definitions

* `located`, `boundaries`: the characters of a text with the positions that they start at, and the
  positions between characters
* `strayBytes`: how many bytes there are up to the next boundary or up to the end of a span
* `wholeChars`, `IsCut`: the characters that lie in a span, and whether its end cuts one
* `shownOf`: what a span shows of one character

## Main results

* `encodeChar_parts`: what is left of an encoding without its first bytes, or without its last ones
* `shownChars_slice`: a slice of an encoded text shows what is shown of each character
* `flatMap_shownOf`: that is stray bytes, then whole characters, then one that is cut
* `Node.text_of_offsets`: the text of a node with any offsets
-/

namespace ClassChart.Text.Utf8

/-! ## Positions of characters -/

/-- The characters of a text, each with the position that it starts at. -/
def located (position : Nat) : List Char → List (Nat × Char)
  | [] => []
  | c :: cs => (position, c) :: located (position + c.utf8Size) cs

/-- The positions between the characters of a text and at its ends. -/
def boundaries (position : Nat) : List Char → List Nat
  | [] => [position]
  | c :: cs => position :: boundaries (position + c.utf8Size) cs

variable (a b : Nat)

/-- How many bytes there are from `a` up to the next boundary or up to `b`, whichever comes first.
Past the last boundary there are none. -/
def strayBytes (ends : List Nat) : Nat :=
  ((ends.find? (a ≤ ·)).map fun q => min b q - a).getD 0

/-- The characters that lie between `a` and `b` from their first byte to their last, in order. -/
def wholeChars (chars : List (Nat × Char)) : List Char :=
  (chars.filter fun x => a ≤ x.1 ∧ x.1 + x.2.utf8Size ≤ b).map (·.2)

/-- A character that starts at `a` or later is cut by `b`. -/
def IsCut (chars : List (Nat × Char)) : Prop :=
  ∃ x ∈ chars, a ≤ x.1 ∧ x.1 < b ∧ b < x.1 + x.2.utf8Size

instance (chars : List (Nat × Char)) : Decidable (IsCut a b chars) :=
  inferInstanceAs (Decidable (∃ x ∈ chars, _))

/-! ## Parts of an encoding

An encoding is read as one character. The bytes before the last one have to leave the character
pending for that, and the bytes after the first one have to continue it. -/

/-- The bounds after a first byte are bounds of continuing bytes. -/
theorem lead?_bounds {b : UInt8} {p : Pending} (h : lead? b = some p) :
    0x80 ≤ p.low.toNat ∧ p.high.toNat ≤ 0xBF := by
  -- the bounds are chosen by a test of the byte, and both choices are good
  have hbound (c : Prop) [Decidable c] {x y : UInt8} {P : UInt8 → Prop} (hx : P x) (hy : P y) :
      P (if c then x else y) := by
    split
    · exact hx
    · exact hy
  rcases lead?_range h with hb | hb | hb
  · rw [lead?_two hb.1 hb.2] at h
    cases h
    exact ⟨Nat.le_refl 0x80, Nat.le_refl 0xBF⟩
  · rw [lead?_three hb.1 hb.2] at h
    cases h
    exact ⟨hbound _ (P := fun low => 0x80 ≤ low.toNat) (by decide) (by decide),
      hbound _ (P := fun high => high.toNat ≤ 0xBF) (by decide) (by decide)⟩
  · rw [lead?_four hb.1 hb.2] at h
    cases h
    exact ⟨hbound _ (P := fun low => 0x80 ≤ low.toNat) (by decide) (by decide),
      hbound _ (P := fun high => high.toNat ≤ 0xBF) (by decide) (by decide)⟩

theorem lead?_of_isTail {b : UInt8} (h : IsTail b) : lead? b = none := by
  obtain ⟨-, hhigh⟩ := h
  cases hlead : lead? b with
  | none => rfl
  | some p =>
    have hrange := lead?_range hlead
    omega

/-- A byte that continues no character is a piece of its own. -/
theorem piecesAfter_stray {b : UInt8} (h : IsTail b) (rest : Bytes) :
    piecesAfter none (b :: rest) = .malformed b 1 .invalidStart :: piecesAfter none rest := by
  have hb : ¬ b < 0x80 := fun hlt => Nat.not_lt.mpr h.1 (UInt8.lt_iff_toNat_lt.mp hlt)
  rw [piecesAfter, feed, first, if_neg hb, lead?_of_isTail h]
  rfl

/-- Where a byte leads to that is out of the range of the pending character. -/
theorem piecesAfter_broken {p : Pending} {b : UInt8} (h : ¬ (p.low ≤ b ∧ b ≤ p.high))
    (rest : Bytes) :
    piecesAfter (some p) (b :: rest) =
      .malformed p.first p.seen .invalidContinuation :: piecesAfter none (b :: rest) := by
  rw [piecesAfter, piecesAfter]
  simp only [feed, if_neg h]
  rfl

/-- Of a pending character something is left, whatever follows. -/
theorem piecesAfter_pending_ne_nil (p : Pending) (bytes : Bytes) :
    piecesAfter (some p) bytes ≠ [] := by
  induction bytes generalizing p with
  | nil => simp [piecesAfter, finish]
  | cons b rest ih =>
    by_cases hb : p.low ≤ b ∧ b ≤ p.high
    · have hlow := UInt8.le_iff_toNat_le.mp hb.1
      have hhigh := UInt8.le_iff_toNat_le.mp hb.2
      by_cases howed : p.owed = 1
      · rw [piecesAfter_last howed hlow hhigh]
        exact List.cons_ne_nil _ _
      · rw [piecesAfter_next howed hlow hhigh]
        exact ih _
    · rw [piecesAfter_broken hb]
      exact List.cons_ne_nil _ _

/-- Only where there are no bytes are there no pieces. -/
theorem eq_nil_of_pieces_eq_nil {bytes : Bytes} (h : piecesAfter none bytes = []) : bytes = [] := by
  cases bytes with
  | nil => rfl
  | cons b rest =>
    exfalso
    by_cases hascii : b.toNat < 0x80
    · rw [piecesAfter_ascii hascii] at h
      cases h
    · cases hlead : lead? b with
      | some p =>
        rw [piecesAfter_lead (Nat.not_lt.mp hascii) hlead] at h
        exact piecesAfter_pending_ne_nil p rest h
      | none =>
        have hb : ¬ b < 0x80 := fun hlt => hascii (UInt8.lt_iff_toNat_lt.mp hlt)
        simp [piecesAfter, feed, first, hb, hlead] at h

/-- A piece that is shown as a replacement. -/
def IsMalformed (piece : Piece) : Prop :=
  ∃ first length reason, piece = .malformed first length reason

/-- **Bytes that complete a pending character** all continue it, and fewer of them leave it
incomplete. -/
theorem pending_completed {p : Pending} {bytes : Bytes} {c : Char}
    (h : piecesAfter (some p) bytes = [.char c]) (hlow : 0x80 ≤ p.low.toNat)
    (hhigh : p.high.toNat ≤ 0xBF) :
    (∀ b ∈ bytes, IsTail b) ∧ ∀ j < bytes.length, ∃ piece, IsMalformed piece ∧
      piecesAfter (some p) (bytes.take j) = [piece] := by
  induction bytes generalizing p with
  | nil => simp [piecesAfter, finish] at h
  | cons b rest ih =>
    have hend : ∃ piece, IsMalformed piece ∧ piecesAfter (some p) [] = [piece] :=
      ⟨_, ⟨_, _, _, rfl⟩, rfl⟩
    by_cases hb : p.low ≤ b ∧ b ≤ p.high
    case neg =>
      rw [piecesAfter_broken hb] at h
      cases h
    have hblow := UInt8.le_iff_toNat_le.mp hb.1
    have hbhigh := UInt8.le_iff_toNat_le.mp hb.2
    have htail : IsTail b := ⟨Nat.le_trans hlow hblow, Nat.le_trans hbhigh hhigh⟩
    by_cases howed : p.owed = 1
    · -- this byte is the last one
      rw [piecesAfter_last howed hblow hbhigh, List.cons.injEq] at h
      obtain rfl := eq_nil_of_pieces_eq_nil h.2
      refine ⟨fun x hx => by rwa [List.mem_singleton.mp hx], fun j hj => ?_⟩
      obtain rfl : j = 0 := by simpa using hj
      exact hend
    · rw [piecesAfter_next howed hblow hbhigh] at h
      obtain ⟨htails, hprefix⟩ := ih h (Nat.le_refl 0x80) (Nat.le_refl 0xBF)
      refine ⟨List.forall_mem_cons.mpr ⟨htail, htails⟩, fun j hj => ?_⟩
      cases j with
      | zero => exact hend
      | succ j =>
        obtain ⟨piece, hpiece, hpieces⟩ := hprefix j (Nat.lt_of_succ_lt_succ hj)
        refine ⟨piece, hpiece, ?_⟩
        rw [List.take_succ_cons, piecesAfter_next howed hblow hbhigh, hpieces]

/-- An encoding is a first byte and bytes that continue it. All but the whole of it is malformed. -/
theorem encodeChar_parts (c : Char) :
    (∀ b ∈ (String.utf8EncodeChar c).tail, IsTail b) ∧
      ∀ j, 0 < j → j < (String.utf8EncodeChar c).length → ∃ piece, IsMalformed piece ∧
        piecesAfter none ((String.utf8EncodeChar c).take j) = [piece] := by
  -- the encoding by itself is read as one whole piece; the first byte says how that can be
  have hwhole := piecesAfter_encodeChar c []
  rw [List.append_nil, piecesAfter, finish] at hwhole
  cases hbytes : String.utf8EncodeChar c with
  | nil => exact ⟨List.forall_mem_nil _, fun j _ hj => absurd hj (Nat.not_lt_zero j)⟩
  | cons b rest =>
    rw [hbytes] at hwhole
    by_cases hascii : b.toNat < 0x80
    · rw [piecesAfter_ascii hascii, List.cons.injEq] at hwhole
      obtain rfl := eq_nil_of_pieces_eq_nil hwhole.2
      refine ⟨List.forall_mem_nil _, fun j hpos hj => ?_⟩
      simp only [List.length_singleton] at hj
      omega
    · have hge := Nat.not_lt.mp hascii
      cases hlead : lead? b with
      -- a byte that starts nothing would be malformed by itself
      | none =>
        have hb : ¬ b < 0x80 := fun hlt => hascii (UInt8.lt_iff_toNat_lt.mp hlt)
        simp [piecesAfter, feed, first, hb, hlead] at hwhole
      | some p =>
        rw [piecesAfter_lead hge hlead] at hwhole
        obtain ⟨hlow, hhigh⟩ := lead?_bounds hlead
        obtain ⟨htails, hprefix⟩ := pending_completed hwhole hlow hhigh
        refine ⟨htails, fun j hpos hj => ?_⟩
        obtain ⟨j, rfl⟩ := Nat.exists_eq_succ_of_ne_zero (Nat.ne_of_gt hpos)
        obtain ⟨piece, hpiece, hpieces⟩ := hprefix j (Nat.lt_of_succ_lt_succ hj)
        refine ⟨piece, hpiece, ?_⟩
        rw [Nat.succ_eq_add_one, List.take_succ_cons, piecesAfter_lead hge hlead, hpieces]

/-! ## What is shown of a character -/

variable {a b}

/-- The characters that are shown for bytes. -/
def shownChars (bytes : Bytes) : List Char :=
  (pieces bytes).map Piece.shown

/-- What a span shows of a character: the character if it lies in the span, one replacement if it
starts in it but is cut off, and otherwise one replacement for each of its bytes in the span. -/
def shownOf (a b : Nat) (x : Nat × Char) : List Char :=
  if a ≤ x.1 ∧ x.1 + x.2.utf8Size ≤ b then [x.2]
  else if a ≤ x.1 ∧ x.1 < b then ['\ufffd']
  else List.replicate (min b (x.1 + x.2.utf8Size) - max a x.1) '\ufffd'

theorem shownChars_strays {strays : Bytes} (h : ∀ b ∈ strays, IsTail b) (rest : Bytes) :
    shownChars (strays ++ rest) = List.replicate strays.length '\ufffd' ++ shownChars rest := by
  induction strays with
  | nil => rfl
  | cons b strays ih =>
    obtain ⟨hb, hstrays⟩ := List.forall_mem_cons.mp h
    rw [List.cons_append, shownChars, pieces, piecesAfter_stray hb, List.map_cons,
      List.length_cons, List.replicate_succ, List.cons_append, ← ih hstrays]
    rfl

theorem shownChars_encodeChar (c : Char) (rest : Bytes) :
    shownChars (String.utf8EncodeChar c ++ rest) = c :: shownChars rest := by
  rw [shownChars, pieces, piecesAfter_encodeChar, List.map_cons]
  rfl

theorem shownChars_take_encodeChar (c : Char) {j : Nat} (hpos : 0 < j) (hj : j < c.utf8Size) :
    shownChars ((String.utf8EncodeChar c).take j) = ['\ufffd'] := by
  rw [← String.length_utf8EncodeChar] at hj
  obtain ⟨_, ⟨_, _, _, rfl⟩, hpieces⟩ := (encodeChar_parts c).2 j hpos hj
  rw [shownChars, pieces, hpieces]
  rfl

/-- A slice of two texts is a slice of the first one and a slice of the second one. -/
theorem slice_append (xs ys : Bytes) (i j : Nat) :
    ((xs ++ ys).take j).drop i =
      (xs.take j).drop i ++ (ys.take (j - xs.length)).drop (i - xs.length) := by
  rw [List.take_append, List.drop_append, List.length_take]
  by_cases hj : xs.length ≤ j
  · rw [Nat.min_eq_right hj]
  · have hnil : ys.take (j - xs.length) = [] := by
      rw [Nat.sub_eq_zero_of_le (Nat.le_of_not_le hj), List.take_zero]
    rw [hnil, List.drop_nil, List.drop_nil]

/-- **What is shown of one character** in a slice. Behind a character that does not end in the slice
there is nothing. -/
theorem shownChars_slice_encodeChar (c : Char) {p : Nat} {rest : Bytes}
    (hrest : b < p + c.utf8Size → rest = []) :
    shownChars (((String.utf8EncodeChar c).take (b - p)).drop (a - p) ++ rest) =
      shownOf a b (p, c) ++ shownChars rest := by
  have hlength := String.length_utf8EncodeChar c
  have hsize := c.utf8Size_pos
  simp only [shownOf]
  by_cases hstart : a ≤ p
  · have hdrop : a - p = 0 := Nat.sub_eq_zero_of_le hstart
    rw [hdrop, List.drop_zero]
    by_cases hend : p + c.utf8Size ≤ b
    · rw [if_pos ⟨hstart, hend⟩, List.take_of_length_le (by omega), shownChars_encodeChar]
      rfl
    · rw [hrest (by omega), List.append_nil, if_neg (by omega)]
      by_cases hb : p < b
      · rw [if_pos ⟨hstart, hb⟩, shownChars_take_encodeChar c (by omega) (by omega)]
        rfl
      · have hnone : min b (p + c.utf8Size) - max a p = 0 := by omega
        rw [if_neg (by omega), hnone, Nat.sub_eq_zero_of_le (Nat.le_of_not_lt hb), List.take_zero]
        rfl
  · -- the first byte is not in the slice
    have htails : ∀ x ∈ ((String.utf8EncodeChar c).take (b - p)).drop (a - p), IsTail x := by
      intro x hx
      apply (encodeChar_parts c).1 x
      obtain ⟨i, hi⟩ := Nat.exists_eq_add_of_lt (Nat.lt_of_not_le hstart)
      have hdrop : a - p = 1 + i := by omega
      rw [hdrop, ← List.drop_drop, List.drop_one] at hx
      exact (List.take_sublist _ _).tail.subset (List.mem_of_mem_drop hx)
    have hcount : (((String.utf8EncodeChar c).take (b - p)).drop (a - p)).length =
        min b (p + c.utf8Size) - max a p := by
      rw [List.length_drop, List.length_take]
      omega
    rw [if_neg (by omega), if_neg (by omega), shownChars_strays htails, hcount]

/-- **A slice of an encoded text** shows what is shown of each character. -/
theorem shownChars_slice (a b p : Nat) (cs : List Char) :
    shownChars (((cs.flatMap String.utf8EncodeChar).take (b - p)).drop (a - p)) =
      (located p cs).flatMap (shownOf a b) := by
  induction cs generalizing p with
  | nil => simp [located, shownChars, pieces, piecesAfter, finish]
  | cons c cs ih =>
    have hlength := String.length_utf8EncodeChar c
    rw [List.flatMap_cons, slice_append, hlength, located, List.flatMap_cons, Nat.sub_sub,
      Nat.sub_sub, ← ih]
    apply shownChars_slice_encodeChar
    intro hb
    rw [Nat.sub_eq_zero_of_le (Nat.le_of_lt hb), List.take_zero, List.drop_nil]

/-! ## Stray bytes, whole characters and a cut one -/

theorem le_of_mem_located {p : Nat} {cs : List Char} {x : Nat × Char} (h : x ∈ located p cs) :
    p ≤ x.1 := by
  induction cs generalizing p with
  | nil => cases h
  | cons c cs ih =>
    rcases List.mem_cons.mp h with rfl | h
    · exact Nat.le_refl p
    · exact Nat.le_trans (Nat.le_add_right p _) (ih h)

/-- Nothing is shown of characters that start at the end of a span or behind it. -/
theorem nothing_behind {p : Nat} (h : b ≤ p) (cs : List Char) :
    (located p cs).flatMap (shownOf a b) = [] ∧ wholeChars a b (located p cs) = [] ∧
      ¬ IsCut a b (located p cs) := by
  have hbehind (x : Nat × Char) (hx : x ∈ located p cs) : b ≤ x.1 :=
    Nat.le_trans h (le_of_mem_located hx)
  refine ⟨?_, ?_, ?_⟩
  · rw [List.flatMap_eq_nil_iff]
    intro x hx
    have hb := hbehind x hx
    have hsize := x.2.utf8Size_pos
    have hnone : min b (x.1 + x.2.utf8Size) - max a x.1 = 0 := by omega
    rw [shownOf, if_neg (by omega), if_neg (by omega), hnone, List.replicate_zero]
  · rw [wholeChars, List.map_eq_nil_iff, List.filter_eq_nil_iff]
    intro x hx
    have hb := hbehind x hx
    have hsize := x.2.utf8Size_pos
    simp only [decide_eq_true_eq]
    omega
  · rintro ⟨x, hx, -, hb, -⟩
    exact Nat.not_lt.mpr (hbehind x hx) hb

theorem wholeChars_cons_of_pos {x : Nat × Char} (h : a ≤ x.1 ∧ x.1 + x.2.utf8Size ≤ b)
    (xs : List (Nat × Char)) : wholeChars a b (x :: xs) = x.2 :: wholeChars a b xs := by
  rw [wholeChars, List.filter_cons_of_pos (by simpa using h), List.map_cons, wholeChars]

theorem wholeChars_cons_of_neg {x : Nat × Char} (h : ¬ (a ≤ x.1 ∧ x.1 + x.2.utf8Size ≤ b))
    (xs : List (Nat × Char)) : wholeChars a b (x :: xs) = wholeChars a b xs := by
  rw [wholeChars, List.filter_cons_of_neg (by simpa using h), wholeChars]

theorem isCut_cons {x : Nat × Char} {xs : List (Nat × Char)} :
    IsCut a b (x :: xs) ↔
      (a ≤ x.1 ∧ x.1 < b ∧ b < x.1 + x.2.utf8Size) ∨ IsCut a b xs := by
  simp only [IsCut, List.mem_cons, or_and_right, exists_or, exists_eq_left]

/-- What ends a span that cuts a character. -/
def cutMark (a b : Nat) (chars : List (Nat × Char)) : List Char :=
  if IsCut a b chars then ['\ufffd'] else []

theorem cutMark_cons_of_not {x : Nat × Char}
    (h : ¬ (a ≤ x.1 ∧ x.1 < b ∧ b < x.1 + x.2.utf8Size)) (xs : List (Nat × Char)) :
    cutMark a b (x :: xs) = cutMark a b xs := by
  simp only [cutMark, isCut_cons, h, false_or]

/-- From a boundary on there are no stray bytes. -/
theorem flatMap_shownOf_of_le {p : Nat} (h : a ≤ p) (cs : List Char) :
    (located p cs).flatMap (shownOf a b) =
      wholeChars a b (located p cs) ++ cutMark a b (located p cs) := by
  induction cs generalizing p with
  | nil => simp [located, wholeChars, cutMark, IsCut]
  | cons c cs ih =>
    rw [located, List.flatMap_cons]
    by_cases hend : p + c.utf8Size ≤ b
    · have hrest := ih (Nat.le_trans h (Nat.le_add_right p c.utf8Size))
      rw [hrest, wholeChars_cons_of_pos ⟨h, hend⟩, cutMark_cons_of_not (by dsimp only; omega),
        shownOf, if_pos ⟨h, hend⟩]
      rfl
    · -- the span ends before this character does, and so before all that follow
      obtain ⟨hnothing, hwhole, hcut⟩ := nothing_behind (a := a) (b := b)
        (p := p + c.utf8Size) (by omega) cs
      rw [hnothing, wholeChars_cons_of_neg (by dsimp only; omega), hwhole, List.append_nil,
        List.nil_append, shownOf, if_neg (by dsimp only; omega), cutMark]
      by_cases hb : p < b
      · rw [if_pos ⟨h, hb⟩, if_pos (isCut_cons.mpr (.inl ⟨h, hb, by dsimp only; omega⟩))]
      · have hsize := c.utf8Size_pos
        have hnone : min b (p + c.utf8Size) - max a p = 0 := by omega
        rw [if_neg (by dsimp only; omega), if_neg, hnone, List.replicate_zero]
        rw [isCut_cons]
        exact fun hor => hor.elim (fun hx => hb hx.2.1) hcut

theorem strayBytes_cons_of_le {p : Nat} (h : a ≤ p) (ends : List Nat) :
    strayBytes a b (p :: ends) = min b p - a := by
  rw [strayBytes, List.find?_cons_of_pos (by simpa using h)]
  rfl

theorem strayBytes_cons_of_lt {p : Nat} (h : p < a) (ends : List Nat) :
    strayBytes a b (p :: ends) = strayBytes a b ends := by
  rw [strayBytes, List.find?_cons_of_neg (by simpa using h), strayBytes]

/-- The first boundary is where the text starts. -/
theorem exists_boundaries_cons (p : Nat) (cs : List Char) :
    ∃ ends, boundaries p cs = p :: ends := by
  cases cs with
  | nil => exact ⟨[], rfl⟩
  | cons c cs => exact ⟨_, rfl⟩

/-- **What a span shows**: a replacement for each stray byte, then the whole characters, then a
replacement if a character is cut. -/
theorem flatMap_shownOf {p : Nat} (h : p ≤ a) (cs : List Char) :
    (located p cs).flatMap (shownOf a b) =
      List.replicate (strayBytes a b (boundaries p cs)) '\ufffd' ++
        wholeChars a b (located p cs) ++ cutMark a b (located p cs) := by
  induction cs generalizing p with
  | nil =>
    have hnone : strayBytes a b [p] = 0 := by
      rcases Nat.eq_or_lt_of_le h with rfl | hlt
      · rw [strayBytes_cons_of_le (Nat.le_refl p)]
        omega
      · rw [strayBytes_cons_of_lt hlt]
        rfl
    simp [located, boundaries, hnone, wholeChars, cutMark, IsCut]
  | cons c cs ih =>
    rcases Nat.eq_or_lt_of_le h with rfl | hlt
    · -- the span starts at a boundary
      have hnone : strayBytes p b (boundaries p (c :: cs)) = 0 := by
        rw [boundaries, strayBytes_cons_of_le (Nat.le_refl p)]
        omega
      rw [hnone, List.replicate_zero, List.nil_append, flatMap_shownOf_of_le (Nat.le_refl p)]
    · have hnot : ¬ a ≤ p := Nat.not_le.mpr hlt
      have hmax : max a p = a := Nat.max_eq_left h
      rw [boundaries, strayBytes_cons_of_lt hlt, located, List.flatMap_cons,
        wholeChars_cons_of_neg fun hx => hnot hx.1, cutMark_cons_of_not fun hx => hnot hx.1,
        shownOf, if_neg fun hx => hnot hx.1, if_neg fun hx => hnot hx.1, hmax]
      by_cases hinside : a < p + c.utf8Size
      · -- it starts in this character
        obtain ⟨ends, hends⟩ := exists_boundaries_cons (p + c.utf8Size) cs
        rw [hends, strayBytes_cons_of_le (Nat.le_of_lt hinside),
          flatMap_shownOf_of_le (Nat.le_of_lt hinside), List.append_assoc]
      · have hnone : min b (p + c.utf8Size) - a = 0 := by omega
        rw [hnone, List.replicate_zero, List.nil_append, ih (Nat.le_of_not_lt hinside)]

/-- The bytes before the next boundary continue the character that the span starts in. -/
theorem isTail_of_lt_strayBytes {p i : Nat} (h : p ≤ a) {cs : List Char}
    (hi : i < strayBytes a b (boundaries p cs)) :
    ∃ byte, (cs.flatMap String.utf8EncodeChar)[a - p + i]? = some byte ∧ IsTail byte := by
  induction cs generalizing p with
  | nil =>
    rw [boundaries] at hi
    rcases Nat.eq_or_lt_of_le h with rfl | hlt
    · rw [strayBytes_cons_of_le (Nat.le_refl p)] at hi
      omega
    · rw [strayBytes_cons_of_lt hlt] at hi
      exact absurd hi (Nat.not_lt_zero i)
  | cons c cs ih =>
    have hlength := String.length_utf8EncodeChar c
    rw [boundaries] at hi
    rcases Nat.eq_or_lt_of_le h with rfl | hlt
    · rw [strayBytes_cons_of_le (Nat.le_refl p)] at hi
      omega
    rw [strayBytes_cons_of_lt hlt] at hi
    rw [List.flatMap_cons]
    by_cases hinside : a < p + c.utf8Size
    · obtain ⟨ends, hends⟩ := exists_boundaries_cons (p + c.utf8Size) cs
      rw [hends, strayBytes_cons_of_le (Nat.le_of_lt hinside)] at hi
      have hindex : a - p + i < (String.utf8EncodeChar c).length := by omega
      rw [List.getElem?_append_left hindex, List.getElem?_eq_getElem hindex]
      refine ⟨_, rfl, (encodeChar_parts c).1 _ ?_⟩
      -- the byte is not the first one of the character
      obtain ⟨j, hj⟩ : ∃ j, a - p + i = j + 1 := ⟨a - p + i - 1, by omega⟩
      rw [List.mem_iff_getElem?]
      exact ⟨j, by rw [List.getElem?_tail, ← hj, List.getElem?_eq_getElem hindex]⟩
    · have hnext := ih (Nat.le_of_not_lt hinside) hi
      rw [List.getElem?_append_right (by omega), hlength]
      have hindex : a - p + i - c.utf8Size = a - (p + c.utf8Size) + i := by omega
      rwa [hindex]

/-! ## Boundaries -/

/-- A boundary is where the first characters of the text end. -/
theorem exists_append_of_mem_boundaries {p q : Nat} {cs : List Char} (h : q ∈ boundaries p cs) :
    ∃ before after, cs = before ++ after ∧
      q = p + (before.flatMap String.utf8EncodeChar).length := by
  induction cs generalizing p with
  | nil =>
    rw [boundaries, List.mem_singleton] at h
    exact ⟨[], [], rfl, h⟩
  | cons c cs ih =>
    rcases List.mem_cons.mp h with rfl | h
    · exact ⟨[], c :: cs, rfl, rfl⟩
    · obtain ⟨before, after, rfl, hq⟩ := ih h
      refine ⟨c :: before, after, rfl, ?_⟩
      rw [hq, List.flatMap_cons, List.length_append, String.length_utf8EncodeChar, Nat.add_assoc]

/-- Two boundaries part a text in three. -/
theorem exists_append_of_boundaries {s : String} (ha : a ∈ boundaries 0 s.toList)
    (hb : b ∈ boundaries 0 s.toList) (hab : a ≤ b) :
    ∃ before middle after : String, s = before ++ middle ++ after ∧
      (encode before).length = a ∧ (encode before).length + (encode middle).length = b := by
  obtain ⟨before, rest, hs, ha⟩ := exists_append_of_mem_boundaries ha
  obtain ⟨longer, after, hs', hb⟩ := exists_append_of_mem_boundaries hb
  rw [Nat.zero_add] at ha hb
  obtain ⟨middle, rfl⟩ : ∃ middle, longer = before ++ middle := by
    have hbefore : before <+: s.toList := ⟨rest, hs.symm⟩
    have hlonger : longer <+: s.toList := ⟨after, hs'.symm⟩
    rcases List.prefix_or_prefix_of_prefix hbefore hlonger with ⟨middle, h⟩ | ⟨middle, h⟩
    · exact ⟨middle, h.symm⟩
    · -- then it is no longer than the other, and no shorter either
      rw [ha, hb, ← h, List.flatMap_append, List.length_append] at hab
      cases middle with
      | nil => exact ⟨[], by rw [← h, List.append_nil, List.append_nil]⟩
      | cons c middle =>
        have hpos := c.utf8Size_pos
        rw [List.flatMap_cons, List.length_append, String.length_utf8EncodeChar] at hab
        omega
  have hsize (cs : List Char) : (encode (String.ofList cs)).length =
      (cs.flatMap String.utf8EncodeChar).length := by
    rw [encode, String.toList_ofList]
  refine ⟨String.ofList before, String.ofList middle, String.ofList after, ?_, ?_, ?_⟩
  · rw [← String.ofList_append, ← String.ofList_append, ← hs', String.ofList_toList]
  · rw [hsize, ha]
  · rw [hsize, hsize, hb, List.flatMap_append, List.length_append]

end ClassChart.Text.Utf8

namespace ClassChart

open Text.Utf8

/-- **The text of a node with any offsets** in an encoded source. If there is nothing between the
offsets, the text is empty. In general it is a replacement for each byte before the next boundary,
all of which continue a character, then the characters that lie between the offsets, then a
replacement if one that starts there is cut. Between two boundaries it is that part of the
source. -/
theorem Node.text_of_offsets (s : String) (n : Node) :
    (((encode s).take n.info.stop).drop n.info.start = [] → n.text (encode s) = "") ∧
      n.text (encode s) = String.ofList (
        List.replicate (strayBytes n.info.start n.info.stop (boundaries 0 s.toList)) '\ufffd' ++
          wholeChars n.info.start n.info.stop (located 0 s.toList) ++
          if IsCut n.info.start n.info.stop (located 0 s.toList) then ['\ufffd'] else []) ∧
      (∀ i < strayBytes n.info.start n.info.stop (boundaries 0 s.toList),
        ∃ byte, (encode s)[n.info.start + i]? = some byte ∧ IsTail byte) ∧
      (n.info.start ∈ boundaries 0 s.toList → n.info.stop ∈ boundaries 0 s.toList →
        n.info.start ≤ n.info.stop →
        ∃ before middle after : String, s = before ++ middle ++ after ∧
          (encode before).length = n.info.start ∧
          (encode before).length + (encode middle).length = n.info.stop ∧
          n.text (encode s) = middle) := by
  refine ⟨fun hempty => ?_, ?_, fun i hi => ?_, fun hstart hstop hle => ?_⟩
  · rw [Node.text, hempty]
    rfl
  · have hslice := shownChars_slice n.info.start n.info.stop 0 s.toList
    rw [flatMap_shownOf (Nat.zero_le _)] at hslice
    exact congrArg String.ofList hslice
  · have htail := isTail_of_lt_strayBytes (Nat.zero_le _) hi
    rwa [Nat.sub_zero] at htail
  · obtain ⟨before, middle, after, rfl, ha, hb⟩ := exists_append_of_boundaries hstart hstop hle
    refine ⟨before, middle, after, rfl, ha, hb, ?_⟩
    rw [encode_append, encode_append]
    exact Node.text_span ha.symm (ha ▸ hb.symm)

/-- A span that starts in the first of three characters and ends in the last one, and the span of
the character between them. -/
theorem Node.text_of_offsets_threeChars :
    (Node.mk ⟨"identifier", true, none, 1, 7, 0⟩ []).text (encode "é€😀") = "\ufffd€\ufffd" ∧
      ∃ before middle after : String, "é€😀" = before ++ middle ++ after ∧
        (encode before).length = 2 ∧ (encode before).length + (encode middle).length = 5 ∧
        (Node.mk ⟨"identifier", true, none, 2, 5, 0⟩ []).text (encode "é€😀") = middle :=
  ⟨(Node.text_of_offsets "é€😀" (.mk ⟨"identifier", true, none, 1, 7, 0⟩ [])).2.1.trans (by decide),
    (Node.text_of_offsets "é€😀" (.mk ⟨"identifier", true, none, 2, 5, 0⟩ [])).2.2.2 (by decide)
      (by decide) (by decide)⟩

end ClassChart
