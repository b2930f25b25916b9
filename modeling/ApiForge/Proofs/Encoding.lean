import ApiForge.Files.Access
import Mathlib

/-! Texts survive being written and read. The bytes of a character are read as that character, whatever comes behind
them, so the bytes of a text are read as the text. -/

namespace ApiForge

namespace Text

theorem toNat_ofNat {n : Nat} (h : n < 256) : (UInt8.ofNat n).toNat = n :=
  UInt8.toNat_ofNat_of_lt' h

/-- What a first byte says, by the number that it is. -/
theorem leadByte?_ofNat {n : Nat} (h : n < 256) : leadByte? (UInt8.ofNat n) =
    if n < 0x80 then some ⟨0, 0, 0⟩
    else if n < 0xC2 then none
    else if n < 0xE0 then some ⟨1, 0x80, 0xBF⟩
    else if n = 0xE0 then some ⟨2, 0xA0, 0xBF⟩
    else if n = 0xED then some ⟨2, 0x80, 0x9F⟩
    else if n < 0xF0 then some ⟨2, 0x80, 0xBF⟩
    else if n = 0xF0 then some ⟨3, 0x90, 0xBF⟩
    else if n < 0xF4 then some ⟨3, 0x80, 0xBF⟩
    else if n = 0xF4 then some ⟨3, 0x80, 0x8F⟩
    else none := by
  simp only [leadByte?, UInt8.lt_iff_toNat_lt, ← UInt8.toNat_inj, toNat_ofNat h]
  rfl

theorem continuation_cons {low high : UInt8} {n k : Nat} (hn : n < 256) (hlow : low.toNat ≤ n) (hhigh : n ≤ high.toNat)
    (bs : List UInt8) :
    continuation low high (k + 1) (UInt8.ofNat n :: bs) = UInt8.ofNat n :: continuation 0x80 0xBF k bs := by
  rw [continuation, if_pos]
  rw [UInt8.le_iff_toNat_le, UInt8.le_iff_toNat_le, toNat_ofNat hn]
  exact ⟨hlow, hhigh⟩

/-- A first byte and as many bytes as it asks for are one character. -/
theorem decodeChar_of_leadByte? {b low high : UInt8} {bs : List UInt8}
    (hlead : leadByte? b = some ⟨bs.length, low, high⟩)
    (hbs : ∀ rest, continuation low high bs.length (bs ++ rest) = bs) (rest : List UInt8) :
    decodeChar b (bs ++ rest) = (Char.ofNat (codePoint b bs), bs.length) := by
  rw [decodeChar, hlead]
  dsimp only
  rw [hbs, if_pos rfl]

/-- The lead byte of three says what the second byte may be; that leaves out long spellings and surrogates. -/
theorem leadByte?_three {v : Nat} (h : 0x800 ≤ v) (hlast : v < 0x10000) (hvalid : v < 0xD800 ∨ 0xDFFF < v) :
    ∃ low high, leadByte? (UInt8.ofNat (v / 4096 % 16 + 224)) = some ⟨2, low, high⟩ ∧
      low.toNat ≤ v / 64 % 64 + 128 ∧ v / 64 % 64 + 128 ≤ high.toNat := by
  rw [leadByte?_ofNat (by omega), if_neg (by omega), if_neg (by omega), if_neg (by omega)]
  by_cases hzero : v / 4096 % 16 + 224 = 0xE0
  · exact ⟨0xA0, 0xBF, if_pos hzero, by simp; omega, by simp; omega⟩
  rw [if_neg hzero]
  by_cases hsurrogate : v / 4096 % 16 + 224 = 0xED
  · exact ⟨0x80, 0x9F, if_pos hsurrogate, by simp, by simp; omega⟩
  · exact ⟨0x80, 0xBF, by rw [if_neg hsurrogate, if_pos (by omega)], by simp, by simp; omega⟩

/-- The lead byte of four says what the second byte may be; that leaves out long spellings and what is no character. -/
theorem leadByte?_four {v : Nat} (h : 0x10000 ≤ v) (hlast : v < 0x110000) :
    ∃ low high, leadByte? (UInt8.ofNat (v / 262144 % 8 + 240)) = some ⟨3, low, high⟩ ∧
      low.toNat ≤ v / 4096 % 64 + 128 ∧ v / 4096 % 64 + 128 ≤ high.toNat := by
  rw [leadByte?_ofNat (by omega), if_neg (by omega), if_neg (by omega), if_neg (by omega), if_neg (by omega),
    if_neg (by omega), if_neg (by omega)]
  by_cases hzero : v / 262144 % 8 + 240 = 0xF0
  · exact ⟨0x90, 0xBF, if_pos hzero, by simp; omega, by simp; omega⟩
  rw [if_neg hzero]
  by_cases hbelow : v / 262144 % 8 + 240 < 0xF4
  · exact ⟨0x80, 0xBF, if_pos hbelow, by simp, by simp; omega⟩
  · exact ⟨0x80, 0x8F, by rw [if_neg hbelow, if_pos (by omega)], by simp, by simp; omega⟩

theorem decodeChar_utf8EncodeChar (c : Char) : ∃ b bs, String.utf8EncodeChar c = b :: bs ∧
    ∀ rest, decodeChar b (bs ++ rest) = (c, bs.length) := by
  have hvalid : c.toNat < 0xD800 ∨ 0xDFFF < c.toNat ∧ c.toNat < 0x110000 := c.valid
  have hv : c.val.toNat = c.toNat := rfl
  have hchar {b : UInt8} {bs : List UInt8} (h : codePoint b bs = c.toNat) : Char.ofNat (codePoint b bs) = c := by
    rw [h, Char.ofNat_toNat]
  rw [String.utf8EncodeChar, hv]
  generalize c.toNat = v at hvalid hchar
  by_cases hone : v ≤ 127
  · refine ⟨_, [], if_pos hone, fun rest => ?_⟩
    have hlead : leadByte? (UInt8.ofNat v) = some ⟨0, 0, 0⟩ := by
      rw [leadByte?_ofNat (by omega), if_pos (by omega)]
    rw [decodeChar_of_leadByte? hlead (fun rest => rfl), hchar]
    exact toNat_ofNat (by omega)
  rw [if_neg hone]
  by_cases htwo : v ≤ 2047
  · refine ⟨_, [_], if_pos htwo, fun rest => ?_⟩
    have hlead : leadByte? (UInt8.ofNat (v / 64 % 32 + 192)) = some ⟨1, 0x80, 0xBF⟩ := by
      rw [leadByte?_ofNat (by omega), if_neg (by omega), if_neg (by omega), if_pos (by omega)]
    rw [decodeChar_of_leadByte? hlead, hchar]
    · simp only [codePoint, List.length_cons, List.length_nil, List.foldl_cons, List.foldl_nil]
      rw [toNat_ofNat (by omega), toNat_ofNat (by omega)]
      omega
    · intro rest
      exact continuation_cons (by omega) (by simp) (by simp; omega) rest
  rw [if_neg htwo]
  by_cases hthree : v ≤ 65535
  · obtain ⟨low, high, hlead, hlow, hhigh⟩ := leadByte?_three (v := v) (by omega) (by omega) (by omega)
    refine ⟨_, [_, _], if_pos hthree, fun rest => ?_⟩
    rw [decodeChar_of_leadByte? hlead, hchar]
    · simp only [codePoint, List.length_cons, List.length_nil, List.foldl_cons, List.foldl_nil]
      rw [toNat_ofNat (by omega), toNat_ofNat (by omega), toNat_ofNat (by omega)]
      omega
    · intro rest
      rw [List.cons_append]
      exact (continuation_cons (by omega) hlow hhigh _).trans
        (congrArg _ (continuation_cons (by omega) (by simp) (by simp; omega) rest))
  · obtain ⟨low, high, hlead, hlow, hhigh⟩ := leadByte?_four (v := v) (by omega) (by omega)
    refine ⟨_, [_, _, _], if_neg hthree, fun rest => ?_⟩
    rw [decodeChar_of_leadByte? hlead, hchar]
    · simp only [codePoint, List.length_cons, List.length_nil, List.foldl_cons, List.foldl_nil]
      rw [toNat_ofNat (by omega), toNat_ofNat (by omega), toNat_ofNat (by omega), toNat_ofNat (by omega)]
      omega
    · intro rest
      rw [List.cons_append, List.cons_append]
      refine (continuation_cons (by omega) hlow hhigh _).trans (congrArg _ ?_)
      exact (continuation_cons (by omega) (by simp) (by simp; omega) _).trans
        (congrArg _ (continuation_cons (by omega) (by simp) (by simp; omega) rest))

theorem decodeUtf8_utf8Bytes (cs : List Char) : decodeUtf8 (utf8Bytes cs) = cs := by
  induction cs with
  | nil => rw [utf8Bytes, List.flatMap_nil, decodeUtf8]
  | cons c cs ih =>
      obtain ⟨b, bs, hbytes, hdecode⟩ := decodeChar_utf8EncodeChar c
      rw [utf8Bytes, List.flatMap_cons, hbytes, List.cons_append, decodeUtf8, hdecode, List.drop_left]
      exact congrArg (c :: ·) ih

end Text

namespace Files.Tree

/-- A file that holds the bytes of a text reads as the text. -/
theorem readText_utf8Bytes {t : Tree} {path text : String} (h : t.read path = .ok (Text.utf8Bytes text.toList)) :
    t.readText path = .ok text := by
  rw [readText, h]
  simp only [Text.decodeUtf8_utf8Bytes, if_true, String.ofList_toList, bind, Except.bind, pure, Except.pure]

end Files.Tree

end ApiForge
