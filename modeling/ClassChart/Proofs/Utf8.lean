import ClassChart.Syntax.Node

/-!
# Reading back encoded text

The decoder reads a character back from its encoding and is between characters again after it. So
it reads back a whole text, and a node reads back the part of an encoded source that it spans.

## Main results

* `piecesAfter_two`, `piecesAfter_three`, `piecesAfter_four`: well-formed sequences are characters
* `piecesAfter_encodeChar`: the encoding of a character is one piece
* `decodeLossy_encode`: decoding gives back the text that was encoded
* `Node.text_span`: a node reads the text between what comes before and after it
-/

namespace ClassChart.Text.Utf8

/-! ## One character -/

theorem piecesAfter_ascii {b : UInt8} (h : b.toNat < 0x80) (rest : Bytes) :
    piecesAfter none (b :: rest) = .char (Char.ofNat b.toNat) :: piecesAfter none rest := by
  have hb : b < 0x80 := UInt8.lt_iff_toNat_lt.mpr h
  rw [piecesAfter, feed, first, if_pos hb]
  rfl

/-- A first byte opens a pending character. -/
theorem piecesAfter_lead {b : UInt8} {p : Pending} (h : 0x80 ≤ b.toNat) (hp : lead? b = some p)
    (rest : Bytes) : piecesAfter none (b :: rest) = piecesAfter (some p) rest := by
  have hb : ¬ b < 0x80 := fun hlt => Nat.not_lt.mpr h (UInt8.lt_iff_toNat_lt.mp hlt)
  rw [piecesAfter, feed, first, if_neg hb, hp]
  rfl

/-- A byte in range continues the pending character. -/
theorem piecesAfter_next {p : Pending} {b : UInt8} (howed : p.owed ≠ 1)
    (hlow : p.low.toNat ≤ b.toNat) (hhigh : b.toNat ≤ p.high.toNat) (rest : Bytes) :
    piecesAfter (some p) (b :: rest) =
      piecesAfter (some ⟨p.first, p.seen + 1, p.owed - 1, 0x80, 0xBF,
        p.value * 64 + (b.toNat - 0x80)⟩) rest := by
  rw [piecesAfter, feed,
    if_pos ⟨UInt8.le_iff_toNat_le.mpr hlow, UInt8.le_iff_toNat_le.mpr hhigh⟩, if_neg howed]
  rfl

/-- The last byte, if it is in range, completes the pending character. -/
theorem piecesAfter_last {p : Pending} {b : UInt8} (howed : p.owed = 1)
    (hlow : p.low.toNat ≤ b.toNat) (hhigh : b.toNat ≤ p.high.toNat) (rest : Bytes) :
    piecesAfter (some p) (b :: rest) =
      .char (Char.ofNat (p.value * 64 + (b.toNat - 0x80))) :: piecesAfter none rest := by
  rw [piecesAfter, feed,
    if_pos ⟨UInt8.le_iff_toNat_le.mpr hlow, UInt8.le_iff_toNat_le.mpr hhigh⟩, if_pos howed]
  rfl

/-- A byte above a range is not in it. -/
theorem not_mem_range_of_lt {low high b : UInt8} (h : high.toNat < b.toNat) :
    ¬ (low ≤ b ∧ b ≤ high) :=
  fun hb => Nat.not_le.mpr h (UInt8.le_iff_toNat_le.mp hb.2)

theorem lead?_two {b : UInt8} (hlow : 0xC2 ≤ b.toNat) (hhigh : b.toNat ≤ 0xDF) :
    lead? b = some ⟨b, 1, 1, 0x80, 0xBF, b.toNat - 0xC0⟩ := by
  rw [lead?, if_pos ⟨UInt8.le_iff_toNat_le.mpr hlow, UInt8.le_iff_toNat_le.mpr hhigh⟩]

theorem lead?_three {b : UInt8} (hlow : 0xE0 ≤ b.toNat) (hhigh : b.toNat ≤ 0xEF) :
    lead? b = some ⟨b, 1, 2, if b = 0xE0 then 0xA0 else 0x80, if b = 0xED then 0x9F else 0xBF,
      b.toNat - 0xE0⟩ := by
  have htwo : ¬ (0xC2 ≤ b ∧ b ≤ 0xDF) := not_mem_range_of_lt hlow
  rw [lead?, if_neg htwo, if_pos ⟨UInt8.le_iff_toNat_le.mpr hlow, UInt8.le_iff_toNat_le.mpr hhigh⟩]

theorem lead?_four {b : UInt8} (hlow : 0xF0 ≤ b.toNat) (hhigh : b.toNat ≤ 0xF4) :
    lead? b = some ⟨b, 1, 3, if b = 0xF0 then 0x90 else 0x80, if b = 0xF4 then 0x8F else 0xBF,
      b.toNat - 0xF0⟩ := by
  have htwo : ¬ (0xC2 ≤ b ∧ b ≤ 0xDF) := not_mem_range_of_lt (Nat.le_trans (by decide) hlow)
  have hthree : ¬ (0xE0 ≤ b ∧ b ≤ 0xEF) := not_mem_range_of_lt hlow
  rw [lead?, if_neg htwo, if_neg hthree,
    if_pos ⟨UInt8.le_iff_toNat_le.mpr hlow, UInt8.le_iff_toNat_le.mpr hhigh⟩]

/-! ## Well-formed sequences

One lemma for each length of an encoding. The bounds on the second byte are those that the first
one leaves. -/

/-- A byte that continues a character. -/
def IsTail (b : UInt8) : Prop :=
  0x80 ≤ b.toNat ∧ b.toNat ≤ 0xBF

/-- The lower bound of a byte after a first byte that may raise it. -/
theorem IsTail.ge_bound {b first special bound : UInt8} (h : IsTail b)
    (hspecial : first.toNat = special.toNat → bound.toNat ≤ b.toNat) :
    (if first = special then bound else 0x80).toNat ≤ b.toNat := by
  split
  case isTrue hfirst => exact hspecial (congrArg UInt8.toNat hfirst)
  case isFalse => exact h.1

/-- The upper bound of a byte after a first byte that may lower it. -/
theorem IsTail.le_bound {b first special bound : UInt8} (h : IsTail b)
    (hspecial : first.toNat = special.toNat → b.toNat ≤ bound.toNat) :
    b.toNat ≤ (if first = special then bound else 0xBF).toNat := by
  split
  case isTrue hfirst => exact hspecial (congrArg UInt8.toNat hfirst)
  case isFalse => exact h.2

theorem piecesAfter_two {b₁ b₂ : UInt8} (hlow : 0xC2 ≤ b₁.toNat) (hhigh : b₁.toNat ≤ 0xDF)
    (h₂ : IsTail b₂) (rest : Bytes) :
    piecesAfter none (b₁ :: b₂ :: rest) =
      .char (Char.ofNat ((b₁.toNat - 0xC0) * 64 + (b₂.toNat - 0x80))) :: piecesAfter none rest := by
  rw [piecesAfter_lead (by omega) (lead?_two hlow hhigh)]
  refine piecesAfter_last rfl ?_ ?_ rest
  · exact h₂.1
  · exact h₂.2

theorem piecesAfter_three {b₁ b₂ b₃ : UInt8} (hlow : 0xE0 ≤ b₁.toNat) (hhigh : b₁.toNat ≤ 0xEF)
    (h₂ : IsTail b₂) (hE0 : b₁.toNat = 0xE0 → 0xA0 ≤ b₂.toNat)
    (hED : b₁.toNat = 0xED → b₂.toNat ≤ 0x9F) (h₃ : IsTail b₃) (rest : Bytes) :
    piecesAfter none (b₁ :: b₂ :: b₃ :: rest) =
      .char (Char.ofNat (((b₁.toNat - 0xE0) * 64 + (b₂.toNat - 0x80)) * 64 + (b₃.toNat - 0x80))) ::
        piecesAfter none rest := by
  rw [piecesAfter_lead (by omega) (lead?_three hlow hhigh),
    piecesAfter_next (by simp) (h₂.ge_bound hE0) (h₂.le_bound hED)]
  refine piecesAfter_last rfl ?_ ?_ rest
  · exact h₃.1
  · exact h₃.2

theorem piecesAfter_four {b₁ b₂ b₃ b₄ : UInt8} (hlow : 0xF0 ≤ b₁.toNat) (hhigh : b₁.toNat ≤ 0xF4)
    (h₂ : IsTail b₂) (hF0 : b₁.toNat = 0xF0 → 0x90 ≤ b₂.toNat)
    (hF4 : b₁.toNat = 0xF4 → b₂.toNat ≤ 0x8F) (h₃ : IsTail b₃) (h₄ : IsTail b₄) (rest : Bytes) :
    piecesAfter none (b₁ :: b₂ :: b₃ :: b₄ :: rest) =
      .char (Char.ofNat ((((b₁.toNat - 0xF0) * 64 + (b₂.toNat - 0x80)) * 64 +
        (b₃.toNat - 0x80)) * 64 + (b₄.toNat - 0x80))) :: piecesAfter none rest := by
  rw [piecesAfter_lead (by omega) (lead?_four hlow hhigh),
    piecesAfter_next (by simp) (h₂.ge_bound hF0) (h₂.le_bound hF4)]
  refine (piecesAfter_next (by simp) (by exact h₃.1) (by exact h₃.2) (b₄ :: rest)).trans ?_
  refine piecesAfter_last rfl ?_ ?_ rest
  · exact h₄.1
  · exact h₄.2

/-- **The encoding of a character is one piece**, and the bytes after it are read afresh. -/
theorem piecesAfter_encodeChar (c : Char) (rest : Bytes) :
    piecesAfter none (String.utf8EncodeChar c ++ rest) = .char c :: piecesAfter none rest := by
  have hvalid : c.val.toNat < 0xD800 ∨ 0xDFFF < c.val.toNat ∧ c.val.toNat < 0x110000 := c.valid
  have hchar : Char.ofNat c.val.toNat = c := Char.ofNat_toNat c
  generalize hv : c.val.toNat = v at hvalid hchar
  have htoNat (n : Nat) (h : n < 256) : (UInt8.ofNat n).toNat = n := UInt8.toNat_ofNat_of_lt h
  -- the last byte holds the lowest six bits in all but the shortest form
  have hlast : IsTail (UInt8.ofNat (v % 64 + 0x80)) := by
    rw [IsTail, htoNat _ (by omega)]
    omega
  rw [String.utf8EncodeChar]
  simp only [hv]
  split
  case isTrue hone =>
    have hb := htoNat v (by omega)
    rw [List.singleton_append, piecesAfter_ascii (by omega), hb, hchar]
  split
  case isTrue htwo =>
    have hb₁ := htoNat (v / 64 % 32 + 0xc0) (by omega)
    have hb₂ := htoNat (v % 64 + 0x80) (by omega)
    have hvalue : (v / 64 % 32 + 0xc0 - 0xC0) * 64 + (v % 64 + 0x80 - 0x80) = v := by omega
    simp only [List.cons_append, List.nil_append]
    rw [piecesAfter_two (by omega) (by omega) hlast, hb₁, hb₂, hvalue, hchar]
  -- from here on there is a byte for the next six bits, too
  have hmiddle : IsTail (UInt8.ofNat (v / 64 % 64 + 0x80)) := by
    rw [IsTail, htoNat _ (by omega)]
    omega
  split
  case isTrue hthree =>
    have hb₁ := htoNat (v / 4096 % 16 + 0xe0) (by omega)
    have hb₂ := htoNat (v / 64 % 64 + 0x80) (by omega)
    have hb₃ := htoNat (v % 64 + 0x80) (by omega)
    have hvalue : ((v / 4096 % 16 + 0xe0 - 0xE0) * 64 + (v / 64 % 64 + 0x80 - 0x80)) * 64 +
        (v % 64 + 0x80 - 0x80) = v := by omega
    -- surrogates are no characters, which is what bounds the byte after 0xED
    simp only [List.cons_append, List.nil_append]
    rw [piecesAfter_three (by omega) (by omega) hmiddle (by omega) (by omega) hlast, hb₁, hb₂, hb₃,
      hvalue, hchar]
  case isFalse hfour =>
    have hb₁ := htoNat (v / 262144 % 8 + 0xf0) (by omega)
    have hb₂ := htoNat (v / 4096 % 64 + 0x80) (by omega)
    have hb₃ := htoNat (v / 64 % 64 + 0x80) (by omega)
    have hb₄ := htoNat (v % 64 + 0x80) (by omega)
    have hsecond : IsTail (UInt8.ofNat (v / 4096 % 64 + 0x80)) := by
      rw [IsTail, hb₂]
      omega
    have hvalue : (((v / 262144 % 8 + 0xf0 - 0xF0) * 64 + (v / 4096 % 64 + 0x80 - 0x80)) * 64 +
        (v / 64 % 64 + 0x80 - 0x80)) * 64 + (v % 64 + 0x80 - 0x80) = v := by omega
    simp only [List.cons_append, List.nil_append]
    rw [piecesAfter_four (by omega) (by omega) hsecond (by omega) (by omega) hmiddle hlast,
      hb₁, hb₂, hb₃, hb₄, hvalue, hchar]

/-! ## Whole texts -/

theorem encode_append (s t : String) : encode (s ++ t) = encode s ++ encode t := by
  simp [encode]

theorem pieces_encode (s : String) : pieces (encode s) = s.toList.map .char := by
  rw [pieces, encode]
  induction s.toList with
  | nil => rfl
  | cons c cs ih => rw [List.flatMap_cons, piecesAfter_encodeChar, ih, List.map_cons]

/-- **Decoding gives back the text that was encoded.** -/
theorem decodeLossy_encode (s : String) : decodeLossy (encode s) = s := by
  have hshown : Piece.shown ∘ Piece.char = id := rfl
  rw [decodeLossy, pieces_encode, List.map_map, hshown, List.map_id, String.ofList_toList]

end ClassChart.Text.Utf8

namespace ClassChart

open Text.Utf8 (encode)

/-- A node reads the text between what comes before it and what comes after. -/
theorem Node.text_span {n : Node} {before after : Text.Bytes} {text : String}
    (hstart : n.info.start = before.length)
    (hstop : n.info.stop = before.length + (encode text).length) :
    n.text (before ++ encode text ++ after) = text := by
  have hspan :
      ((before ++ encode text ++ after).take n.info.stop).drop n.info.start = encode text := by
    rw [hstart, hstop, List.append_assoc, List.take_append, List.drop_append]
    simp
  rw [Node.text, hspan, Text.Utf8.decodeLossy_encode]

end ClassChart
