import ClassChart.Proofs.Utf8

/-!
# Which bytes are text

Strict decoding accepts exactly the bytes that encode some text. A file is read after its byte order
mark, so that besides those bytes a file is accepted that is cut off within the mark.

## Main definitions

* `IsValid`: bytes that encode a text
* `IsCutMark`: the beginnings of a byte order mark that are no text
* `IsReadable`: bytes from which the text of a file can be had

## Main results

* `eq_encode_of_charsFrom`: bytes without malformed pieces are the encoding of their characters
* `decode_eq_ok_iff`: decoding succeeds on the encoding of a text only, and gives that text
* `exists_decodeFile_iff`: which files are accepted
-/

namespace ClassChart.Text.Utf8

/-! ## Encodings of well-formed sequences

The converse of `piecesAfter_two` and the lemmas after it: the character of a well-formed sequence is
encoded as that sequence. -/

theorem ofNat_eq_of_toNat {b : UInt8} {n : Nat} (h : b.toNat = n) : UInt8.ofNat n = b := by
  rw [← h]
  exact UInt8.ofNat_toNat

theorem val_ofNat {v : Nat} (h : v.isValidChar) : (Char.ofNat v).val.toNat = v := by
  rw [Char.ofNat, dif_pos h]
  rfl

theorem encodeChar_ascii {b : UInt8} (h : b.toNat < 0x80) :
    String.utf8EncodeChar (Char.ofNat b.toNat) = [b] := by
  have hval := val_ofNat (v := b.toNat) (.inl (by omega))
  rw [String.utf8EncodeChar]
  simp only [hval]
  rw [if_pos (by omega), ofNat_eq_of_toNat rfl]

theorem encodeChar_two {b₁ b₂ : UInt8} (hlow : 0xC2 ≤ b₁.toNat) (hhigh : b₁.toNat ≤ 0xDF)
    (h₂ : IsTail b₂) :
    String.utf8EncodeChar (Char.ofNat ((b₁.toNat - 0xC0) * 64 + (b₂.toNat - 0x80))) = [b₁, b₂] := by
  obtain ⟨h₂low, h₂high⟩ := h₂
  generalize hv : (b₁.toNat - 0xC0) * 64 + (b₂.toNat - 0x80) = v
  have hval := val_ofNat (v := v) (.inl (by omega))
  rw [String.utf8EncodeChar]
  simp only [hval]
  rw [if_neg (by omega), if_pos (by omega), ofNat_eq_of_toNat (b := b₁) (by omega),
    ofNat_eq_of_toNat (b := b₂) (by omega)]

theorem encodeChar_three {b₁ b₂ b₃ : UInt8} (hlow : 0xE0 ≤ b₁.toNat) (hhigh : b₁.toNat ≤ 0xEF)
    (h₂ : IsTail b₂) (hE0 : b₁.toNat = 0xE0 → 0xA0 ≤ b₂.toNat)
    (hED : b₁.toNat = 0xED → b₂.toNat ≤ 0x9F) (h₃ : IsTail b₃) :
    String.utf8EncodeChar (Char.ofNat
      (((b₁.toNat - 0xE0) * 64 + (b₂.toNat - 0x80)) * 64 + (b₃.toNat - 0x80))) = [b₁, b₂, b₃] := by
  obtain ⟨h₂low, h₂high⟩ := h₂
  obtain ⟨h₃low, h₃high⟩ := h₃
  generalize hv : ((b₁.toNat - 0xE0) * 64 + (b₂.toNat - 0x80)) * 64 + (b₃.toNat - 0x80) = v
  -- the bound after 0xED leaves out the surrogates
  have hvalid : v.isValidChar := by
    rcases Nat.lt_or_ge v 0xD800 with h | h
    · exact .inl h
    · exact .inr ⟨by omega, by omega⟩
  have hval := val_ofNat hvalid
  rw [String.utf8EncodeChar]
  simp only [hval]
  rw [if_neg (by omega), if_neg (by omega), if_pos (by omega),
    ofNat_eq_of_toNat (b := b₁) (by omega), ofNat_eq_of_toNat (b := b₂) (by omega),
    ofNat_eq_of_toNat (b := b₃) (by omega)]

theorem encodeChar_four {b₁ b₂ b₃ b₄ : UInt8} (hlow : 0xF0 ≤ b₁.toNat) (hhigh : b₁.toNat ≤ 0xF4)
    (h₂ : IsTail b₂) (hF0 : b₁.toNat = 0xF0 → 0x90 ≤ b₂.toNat)
    (hF4 : b₁.toNat = 0xF4 → b₂.toNat ≤ 0x8F) (h₃ : IsTail b₃) (h₄ : IsTail b₄) :
    String.utf8EncodeChar (Char.ofNat ((((b₁.toNat - 0xF0) * 64 + (b₂.toNat - 0x80)) * 64 +
      (b₃.toNat - 0x80)) * 64 + (b₄.toNat - 0x80))) = [b₁, b₂, b₃, b₄] := by
  obtain ⟨h₂low, h₂high⟩ := h₂
  obtain ⟨h₃low, h₃high⟩ := h₃
  obtain ⟨h₄low, h₄high⟩ := h₄
  generalize hv : (((b₁.toNat - 0xF0) * 64 + (b₂.toNat - 0x80)) * 64 + (b₃.toNat - 0x80)) * 64 +
    (b₄.toNat - 0x80) = v
  have hval := val_ofNat (v := v) (.inr ⟨by omega, by omega⟩)
  rw [String.utf8EncodeChar]
  simp only [hval]
  rw [if_neg (by omega), if_neg (by omega), if_neg (by omega),
    ofNat_eq_of_toNat (b := b₁) (by omega), ofNat_eq_of_toNat (b := b₂) (by omega),
    ofNat_eq_of_toNat (b := b₃) (by omega), ofNat_eq_of_toNat (b := b₄) (by omega)]

/-! ## Bytes without malformed pieces -/

/-- What has to follow a pending character. -/
theorem pending_continued {p : Pending} {bytes : Bytes} {position : Nat} {cs : List Char}
    (h : charsFrom position (piecesAfter (some p) bytes) = .ok cs) :
    ∃ b rest, bytes = b :: rest ∧ p.low.toNat ≤ b.toNat ∧ b.toNat ≤ p.high.toNat := by
  cases bytes with
  | nil => simp [piecesAfter, finish, charsFrom] at h
  | cons b rest =>
    by_cases hb : p.low ≤ b ∧ b ≤ p.high
    · exact ⟨b, rest, rfl, UInt8.le_iff_toNat_le.mp hb.1, UInt8.le_iff_toNat_le.mp hb.2⟩
    · simp [piecesAfter, feed, hb, charsFrom] at h

/-- The characters after the first. -/
theorem charsFrom_char {position : Nat} {c : Char} {pieces : List Piece} {cs : List Char}
    (h : charsFrom position (.char c :: pieces) = .ok cs) :
    ∃ rest, charsFrom (position + c.utf8Size) pieces = .ok rest ∧ cs = c :: rest := by
  rw [charsFrom] at h
  cases hrest : charsFrom (position + c.utf8Size) pieces with
  | error f => simp [hrest] at h
  | ok rest => exact ⟨rest, rfl, by simpa [hrest, eq_comm] using h⟩

/-- The first bytes of sequences, by the length of the sequence. -/
theorem lead?_range {b : UInt8} {p : Pending} (h : lead? b = some p) :
    (0xC2 ≤ b.toNat ∧ b.toNat ≤ 0xDF) ∨ (0xE0 ≤ b.toNat ∧ b.toNat ≤ 0xEF) ∨
      (0xF0 ≤ b.toNat ∧ b.toNat ≤ 0xF4) := by
  unfold lead? at h
  split at h
  case isTrue hb => exact .inl ⟨UInt8.le_iff_toNat_le.mp hb.1, UInt8.le_iff_toNat_le.mp hb.2⟩
  split at h
  case isTrue hb => exact .inr (.inl ⟨UInt8.le_iff_toNat_le.mp hb.1, UInt8.le_iff_toNat_le.mp hb.2⟩)
  split at h
  case isTrue hb => exact .inr (.inr ⟨UInt8.le_iff_toNat_le.mp hb.1, UInt8.le_iff_toNat_le.mp hb.2⟩)
  case isFalse => cases h

/-- The bounds on a second byte that a special first byte narrows. -/
theorem tail_of_bounds {b first special₁ special₂ bound₁ bound₂ : UInt8}
    (hbound₁ : 0x80 ≤ bound₁.toNat) (hbound₂ : bound₂.toNat ≤ 0xBF)
    (hlow : (if first = special₁ then bound₁ else 0x80).toNat ≤ b.toNat)
    (hhigh : b.toNat ≤ (if first = special₂ then bound₂ else 0xBF).toNat) :
    IsTail b ∧ (first.toNat = special₁.toNat → bound₁.toNat ≤ b.toNat) ∧
      (first.toNat = special₂.toNat → b.toNat ≤ bound₂.toNat) := by
  refine ⟨⟨?_, ?_⟩, ?_, ?_⟩
  · split at hlow
    · omega
    · exact hlow
  · split at hhigh
    · omega
    · exact hhigh
  · intro h
    rwa [if_pos (UInt8.toNat_inj.mp h)] at hlow
  · intro h
    rwa [if_pos (UInt8.toNat_inj.mp h)] at hhigh

/-- **Bytes without malformed pieces are the encoding of their characters.** -/
theorem eq_encode_of_charsFrom {bytes : Bytes} {position : Nat} {cs : List Char}
    (h : charsFrom position (piecesAfter none bytes) = .ok cs) :
    bytes = cs.flatMap String.utf8EncodeChar := by
  -- each round takes off one whole sequence, so the induction is on the number of bytes
  induction hlen : bytes.length using Nat.strongRecOn generalizing bytes position cs with
  | _ n ih =>
    subst hlen
    -- the sequence at the front is read as the character it encodes, and the rest by induction
    have hround (front : Bytes) {rest : Bytes} {c : Char} (hbytes : bytes = front ++ rest)
        (hfront : front ≠ []) (hencode : String.utf8EncodeChar c = front)
        (hpieces : piecesAfter none bytes = .char c :: piecesAfter none rest) :
        bytes = cs.flatMap String.utf8EncodeChar := by
      rw [hpieces] at h
      obtain ⟨others, hothers, rfl⟩ := charsFrom_char h
      have hshorter : rest.length < bytes.length := by
        have := List.length_pos_iff.mpr hfront
        rw [hbytes, List.length_append]
        omega
      rw [List.flatMap_cons, hencode, ← ih rest.length hshorter hothers rfl, hbytes]
    cases bytes with
    | nil =>
      simp only [piecesAfter, finish, charsFrom, Except.ok.injEq] at h
      rw [← h, List.flatMap_nil]
    | cons b₁ bytes =>
      by_cases hascii : b₁.toNat < 0x80
      · exact hround [b₁] rfl (List.cons_ne_nil _ _) (encodeChar_ascii hascii)
          (piecesAfter_ascii hascii bytes)
      have hge : 0x80 ≤ b₁.toNat := Nat.not_lt.mp hascii
      cases hlead : lead? b₁ with
      | none =>
        have hb : ¬ b₁ < 0x80 := fun hlt => hascii (UInt8.lt_iff_toNat_lt.mp hlt)
        simp [piecesAfter, feed, first, hb, hlead, charsFrom] at h
      | some p =>
        rw [piecesAfter_lead hge hlead] at h
        obtain ⟨b₂, bytes, rfl, h₂low, h₂high⟩ := pending_continued h
        rcases lead?_range hlead with ⟨hlow, hhigh⟩ | ⟨hlow, hhigh⟩ | ⟨hlow, hhigh⟩
        · rw [lead?_two hlow hhigh, Option.some.injEq] at hlead
          subst hlead
          exact hround [b₁, b₂] rfl (List.cons_ne_nil _ _)
            (encodeChar_two hlow hhigh ⟨h₂low, h₂high⟩)
            (piecesAfter_two hlow hhigh ⟨h₂low, h₂high⟩ bytes)
        · rw [lead?_three hlow hhigh, Option.some.injEq] at hlead
          subst hlead
          obtain ⟨h₂, hE0, hED⟩ := tail_of_bounds (by decide) (by decide) h₂low h₂high
          rw [piecesAfter_next (by simp) h₂low h₂high] at h
          obtain ⟨b₃, bytes, rfl, h₃⟩ := pending_continued h
          exact hround [b₁, b₂, b₃] rfl (List.cons_ne_nil _ _)
            (encodeChar_three hlow hhigh h₂ hE0 hED h₃)
            (piecesAfter_three hlow hhigh h₂ hE0 hED h₃ bytes)
        · rw [lead?_four hlow hhigh, Option.some.injEq] at hlead
          subst hlead
          obtain ⟨h₂, hF0, hF4⟩ := tail_of_bounds (by decide) (by decide) h₂low h₂high
          rw [piecesAfter_next (by simp) h₂low h₂high] at h
          obtain ⟨b₃, bytes, rfl, h₃⟩ := pending_continued h
          rw [piecesAfter_next (by simp) h₃.1 h₃.2] at h
          obtain ⟨b₄, bytes, rfl, h₄⟩ := pending_continued h
          exact hround [b₁, b₂, b₃, b₄] rfl (List.cons_ne_nil _ _)
            (encodeChar_four hlow hhigh h₂ hF0 hF4 h₃ h₄)
            (piecesAfter_four hlow hhigh h₂ hF0 hF4 h₃ h₄ bytes)

/-! ## Whole texts -/

theorem charsFrom_map_char (position : Nat) (cs : List Char) :
    charsFrom position (cs.map .char) = .ok cs := by
  induction cs generalizing position with
  | nil => rfl
  | cons c cs ih => rw [List.map_cons, charsFrom, ih]

/-- **Decoding succeeds on the encoding of a text only**, and gives that text. -/
theorem decode_eq_ok_iff {bytes : Bytes} {s : String} :
    decode bytes = .ok s ↔ bytes = encode s := by
  constructor
  · intro h
    rw [decode] at h
    cases hchars : charsFrom 0 (pieces bytes) with
    | error f => simp [hchars, Except.map] at h
    | ok cs =>
      simp only [hchars, Except.map, Except.ok.injEq] at h
      rw [eq_encode_of_charsFrom hchars, ← h, encode, String.toList_ofList]
  · rintro rfl
    rw [decode, pieces_encode, charsFrom_map_char, Except.map, String.ofList_toList]

/-- Bytes that encode a text. -/
def IsValid (bytes : Bytes) : Prop :=
  ∃ s : String, bytes = encode s

/-- The beginnings of a byte order mark that are no text. -/
def IsCutMark (bytes : Bytes) : Prop :=
  bytes = [0xEF] ∨ bytes = [0xEF, 0xBB]

/-- Bytes from which the text of a file can be had. -/
def IsReadable (bytes : Bytes) : Prop :=
  IsValid bytes ∨ IsCutMark bytes

theorem encode_mark : encode "\ufeff" = byteOrderMark := by decide

/-- A byte order mark before a text is a character of it. -/
theorem isValid_mark_append {bytes : Bytes} : IsValid (byteOrderMark ++ bytes) ↔ IsValid bytes := by
  constructor
  · rintro ⟨s, hs⟩
    have hpieces : pieces (byteOrderMark ++ bytes) = .char '\ufeff' :: pieces bytes :=
      piecesAfter_encodeChar '\ufeff' bytes
    have hchars := charsFrom_map_char 0 s.toList
    rw [← pieces_encode, ← hs, hpieces] at hchars
    obtain ⟨rest, hrest, -⟩ := charsFrom_char hchars
    exact ⟨String.ofList rest, by rw [encode, String.toList_ofList, eq_encode_of_charsFrom hrest]⟩
  · rintro ⟨s, rfl⟩
    exact ⟨"\ufeff" ++ s, by rw [encode_append, encode_mark]⟩

theorem isValid_dropMark {bytes : Bytes} : IsValid (dropMark bytes) ↔ IsReadable bytes := by
  unfold dropMark
  split
  case isTrue hcut =>
    -- nothing is left of a beginning of the mark
    refine ⟨fun _ => ?_, fun _ => ⟨"", rfl⟩⟩
    obtain ⟨rest, hrest⟩ := List.isPrefixOf_iff_prefix.mp hcut
    rcases bytes with - | ⟨b₁, - | ⟨b₂, - | ⟨b₃, bytes⟩⟩⟩
    · exact .inl ⟨"", rfl⟩
    all_goals simp only [byteOrderMark, List.cons_append, List.nil_append, List.cons.injEq] at hrest
    · exact .inr (.inl (by rw [hrest.1]))
    · exact .inr (.inr (by rw [hrest.1, hrest.2.1]))
    · obtain ⟨rfl, rfl, rfl, hnil⟩ := hrest
      rw [(List.append_eq_nil_iff.mp hnil).1]
      exact .inl ⟨"\ufeff", encode_mark.symm⟩
  case isFalse hcut =>
    have hnot : ¬ IsCutMark bytes := by
      rintro (rfl | rfl)
      · exact hcut (by decide)
      · exact hcut (by decide)
    rw [IsReadable, or_iff_left hnot]
    split
    case isTrue hmark =>
      obtain ⟨rest, rfl⟩ := List.isPrefixOf_iff_prefix.mp hmark
      exact isValid_mark_append.symm
    case isFalse => exact Iff.rfl

/-- **Which files are accepted**: those that encode a text, and those that are cut off within the byte
order mark. -/
theorem exists_decodeFile_iff {bytes : Bytes} :
    (∃ text, decodeFile bytes = .ok text) ↔ IsReadable bytes := by
  rw [← isValid_dropMark, decodeFile, IsValid]
  constructor
  · rintro ⟨text, h⟩
    cases hdecode : decode (dropMark bytes) with
    | error f => simp [hdecode, Except.map] at h
    | ok s => exact ⟨s, decode_eq_ok_iff.mp hdecode⟩
  · rintro ⟨s, hs⟩
    exact ⟨_, by rw [decode_eq_ok_iff.mpr hs, Except.map]⟩

theorem not_isValid_of_cutMark {bytes : Bytes} (h : IsCutMark bytes) : ¬ IsValid bytes := by
  rintro ⟨s, hs⟩
  have hnone : (decode bytes).toOption = none := by
    rcases h with rfl | rfl <;> decide +kernel
  rw [decode_eq_ok_iff.mpr hs] at hnone
  cases hnone

instance (bytes : Bytes) : Decidable (IsReadable bytes) :=
  match h : decodeFile bytes with
  | .ok text => isTrue (exists_decodeFile_iff.mp ⟨text, h⟩)
  | .error _ => isFalse fun hreadable => by simpa [h] using exists_decodeFile_iff.mpr hreadable

end ClassChart.Text.Utf8
