import ApiForge.Proofs.Encoding
import ApiForge.Proofs.Outcomes
import ApiForge.Source.Escape
import Mathlib

/-! The body of a string literal: characters that stand for themselves, and escape sequences, which stand for bytes. What
a body denotes is the bytes of its parts one after the other, so a text can be written with any choice of a spelling for
each of its characters and is read back as it was. -/

namespace ApiForge.Source

/-! ### Numerals -/

/-- The digit `d`, if it is a letter in either case. -/
def IsDigit (d : Nat) (c : Char) : Prop :=
  c = d.digitChar ∨ c = d.digitChar.toUpper

/-- The digits of a number, the highest first. -/
inductive Numeral (radix : Nat) : Nat → List Char → Prop where
  | nil : Numeral radix 0 []
  | cons {d value : Nat} {c : Char} {cs : List Char} (hd : d < radix) (hc : IsDigit d c)
      (h : Numeral radix value cs) : Numeral radix (d * radix ^ cs.length + value) (c :: cs)

theorem isDigit_iff_toNat {d : Nat} (hd : d < 16) {c : Char} : IsDigit d c ↔
    c.toNat = (if d < 10 then 48 + d else 87 + d) ∨ c.toNat = if d < 10 then 48 + d else 55 + d := by
  have htable : ∀ d < 16, d.digitChar.toNat = (if d < 10 then 48 + d else 87 + d) ∧
      d.digitChar.toUpper.toNat = if d < 10 then 48 + d else 55 + d := by decide
  obtain ⟨hlower, hupper⟩ := htable d hd
  rw [IsDigit, ← Char.toNat_inj, ← Char.toNat_inj, hlower, hupper]

theorem digitValue?_eq_some_iff {radix d : Nat} (hradix : radix ≤ 16) {c : Char} :
    digitValue? radix c = some d ↔ d < radix ∧ IsDigit d c := by
  by_cases hd : d < radix
  · have hdigit : c.isDigit = true ↔ 48 ≤ c.toNat ∧ c.toNat ≤ 57 := by
      simp [Char.isDigit, UInt32.le_iff_toNat_le]
    have hlower : (decide ('a' ≤ c) && decide (c ≤ 'z')) = true ↔ 97 ≤ c.toNat ∧ c.toNat ≤ 122 := by
      simp [Char.le_def, UInt32.le_iff_toNat_le]
    have hupper : (decide ('A' ≤ c) && decide (c ≤ 'Z')) = true ↔ 65 ≤ c.toNat ∧ c.toNat ≤ 90 := by
      simp [Char.le_def, UInt32.le_iff_toNat_le]
    have hzero : '0'.toNat = 48 := rfl
    have ha : 'a'.toNat = 97 := rfl
    have hA : 'A'.toNat = 65 := rfl
    rw [isDigit_iff_toNat (hd.trans_le hradix), digitValue?]
    simp only [hdigit, hlower, hupper, hzero, ha, hA]
    split_ifs <;> simp <;> omega
  · simp [digitValue?, hd]

/-- The digits that are read are the next ones, and they continue the number so far. -/
theorem digits_eq_ok_iff {radix start n value : Nat} (hradix : radix ≤ 16) {cs : List Char} :
    digits radix start n cs = .ok value ↔ ∃ text rest v, cs = text ++ rest ∧ text.length = n ∧ Numeral radix v text ∧
      value = start * radix ^ n + v := by
  induction n generalizing start cs with
  | zero =>
      rw [digits, Except.ok.injEq]
      constructor
      · rintro rfl
        exact ⟨[], cs, 0, rfl, rfl, .nil, by simp⟩
      · rintro ⟨text, rest, v, rfl, hlength, hv, rfl⟩
        obtain rfl := List.length_eq_zero_iff.mp hlength
        cases hv
        simp
  | succ n ih =>
      cases cs with
      | nil =>
          refine iff_of_false (by rintro ⟨⟩) ?_
          rintro ⟨text, rest, v, hcs, hlength, -⟩
          obtain ⟨rfl, -⟩ := List.append_eq_nil_iff.mp hcs.symm
          cases hlength
      | cons c cs =>
          have hnext {d v : Nat} :
              (radix * start + d) * radix ^ n + v = start * radix ^ (n + 1) + (d * radix ^ n + v) := by ring
          rw [digits]
          constructor
          · intro h
            cases hd : digitValue? radix c with
            | none =>
                rw [hd] at h
                cases h
            | some d =>
                rw [hd] at h
                obtain ⟨text, rest, v, rfl, rfl, hv, rfl⟩ := ih.mp h
                obtain ⟨hlt, hc⟩ := (digitValue?_eq_some_iff hradix).mp hd
                exact ⟨c :: text, rest, _, rfl, rfl, .cons hlt hc hv, hnext⟩
          · rintro ⟨text, rest, v, hcs, hlength, hv, rfl⟩
            cases hv with
            | nil => cases hlength
            | @cons d v c' text hlt hc hv =>
                obtain ⟨rfl, rfl⟩ := List.cons_eq_cons.mp hcs
                obtain rfl : text.length = n := Nat.succ.inj hlength
                rw [(digitValue?_eq_some_iff hradix).mpr ⟨hlt, hc⟩]
                exact ih.mpr ⟨text, rest, v, rfl, rfl, hv, hnext.symm⟩

/-- Reading the digits of a number gives the number. -/
theorem numeral_iff_digits {radix value : Nat} (hradix : radix ≤ 16) {text : List Char} :
    Numeral radix value text ↔ digits radix 0 text.length text = .ok value := by
  rw [digits_eq_ok_iff hradix]
  constructor
  · intro h
    exact ⟨text, [], value, (List.append_nil text).symm, rfl, h, by simp⟩
  · rintro ⟨text', rest, v, rfl, hlength, hv, rfl⟩
    obtain rfl : rest = [] := by simpa using hlength
    simpa using hv

theorem numeral_of_digits {n value : Nat} {cs : List Char} (h : digits 16 0 n cs = .ok value) :
    ∃ text rest, cs = text ++ rest ∧ text.length = n ∧ Numeral 16 value text := by
  obtain ⟨text, rest, v, rfl, hlength, hv, rfl⟩ := (digits_eq_ok_iff le_rfl).mp h
  exact ⟨text, rest, rfl, hlength, by simpa using hv⟩

theorem digits_of_numeral {n value : Nat} {text : List Char} (hlength : text.length = n) (h : Numeral 16 value text)
    (rest : List Char) : digits 16 0 n (text ++ rest) = .ok value :=
  (digits_eq_ok_iff le_rfl).mpr ⟨text, rest, value, rfl, hlength, h, by simp⟩

theorem Numeral.lt {radix value : Nat} {text : List Char} (h : Numeral radix value text) :
    value < radix ^ text.length := by
  induction h with
  | nil => exact Nat.one_pos
  | @cons d value c cs hd hc h ih =>
      calc d * radix ^ cs.length + value
        _ < d * radix ^ cs.length + radix ^ cs.length := Nat.add_lt_add_left ih _
        _ = (d + 1) * radix ^ cs.length := (Nat.succ_mul _ _).symm
        _ ≤ radix * radix ^ cs.length := Nat.mul_le_mul_right _ hd
        _ = radix ^ (cs.length + 1) := (Nat.pow_succ').symm

/-- No digit is a sign that means something in a literal. -/
theorem Numeral.chars {radix value : Nat} (hradix : radix ≤ 16) {text : List Char} (h : Numeral radix value text) :
    ∀ c ∈ text, c ∉ ['\\', '"', '\n'] := by
  have hall : ∀ d < 16, d.digitChar ∉ ['\\', '"', '\n'] ∧ d.digitChar.toUpper ∉ ['\\', '"', '\n'] := by decide
  induction h with
  | nil => exact List.forall_mem_nil _
  | @cons d value c cs hd hc h ih =>
      obtain ⟨hlower, hupper⟩ := hall d (hd.trans_le hradix)
      refine List.forall_mem_cons.mpr ⟨?_, ih⟩
      rcases hc with rfl | rfl
      · exact hlower
      · exact hupper

/-! ### Escape sequences -/

/-- The letters behind a backslash, each with the character that the two stand for. -/
def letterEscapes : List (Char × Char) := [
  ('a', '\x07'), ('b', '\x08'), ('f', '\x0C'), ('n', '\n'), ('r', '\r'), ('t', '\t'), ('v', '\x0B'), ('\\', '\\'),
  ('"', '"')]

/-- The bytes that a backslash and what stands behind it denote. -/
inductive Escape : List UInt8 → List Char → Prop where
  | letter {e c : Char} (h : (e, c) ∈ letterEscapes) : Escape (String.utf8EncodeChar c) [e]
  | hex {b : UInt8} {digits : List Char} (hlength : digits.length = 2) (h : Numeral 16 b.toNat digits) :
      Escape [b] ('x' :: digits)
  | octal {b : UInt8} {digits : List Char} (hlength : digits.length = 3) (h : Numeral 8 b.toNat digits) :
      Escape [b] digits
  | short {c : Char} {digits : List Char} (hlength : digits.length = 4) (h : Numeral 16 c.toNat digits) :
      Escape (String.utf8EncodeChar c) ('u' :: digits)
  | long {c : Char} {digits : List Char} (hlength : digits.length = 8) (h : Numeral 16 c.toNat digits) :
      Escape (String.utf8EncodeChar c) ('U' :: digits)

/-- What stands behind a backslash does not go over a line end, and its characters but for the first close no literal. -/
theorem Escape.exists_cons {bytes : List UInt8} {form : List Char} (h : Escape bytes form) :
    ∃ c tail, form = c :: tail ∧ c ≠ '\n' ∧ ∀ d ∈ tail, d ∉ ['\\', '"', '\n'] := by
  cases h with
  | letter h =>
      have hall : ∀ p ∈ letterEscapes, p.1 ≠ '\n' := by decide
      exact ⟨_, [], rfl, hall _ h, List.forall_mem_nil _⟩
  | hex _ h => exact ⟨'x', _, rfl, by decide, h.chars le_rfl⟩
  | short _ h => exact ⟨'u', _, rfl, by decide, h.chars le_rfl⟩
  | long _ h => exact ⟨'U', _, rfl, by decide, h.chars le_rfl⟩
  | octal hlength h =>
      obtain ⟨c, tail, rfl⟩ := List.exists_cons_of_length_eq_add_one hlength
      have hchars := List.forall_mem_cons.mp (h.chars (by decide))
      refine ⟨c, tail, rfl, ?_, hchars.2⟩
      rintro rfl
      exact hchars.1 (by decide)

theorem letterEscape?_eq_some_iff {e c : Char} : letterEscape? e = some c ↔ (e, c) ∈ letterEscapes := by
  constructor
  · intro h
    unfold letterEscape? at h
    split at h <;> cases h <;> decide
  · intro h
    have hall : ∀ p ∈ letterEscapes, letterEscape? p.1 = some p.2 := by decide
    exact hall _ h

theorem codePointBytes_eq_ok_iff {code : Nat} {bytes : List UInt8} :
    codePointBytes code = .ok bytes ↔ ∃ c : Char, c.toNat = code ∧ bytes = String.utf8EncodeChar c := by
  rw [codePointBytes]
  split_ifs with hvalid
  · rw [Except.ok.injEq]
    constructor
    · rintro rfl
      exact ⟨Char.ofNat code, (Char.toNat_ofNat code).trans (if_pos hvalid), rfl⟩
    · rintro ⟨c, rfl, rfl⟩
      rw [Char.ofNat_toNat]
  · refine iff_of_false (by rintro ⟨⟩) ?_
    rintro ⟨c, rfl, -⟩
    exact hvalid c.valid

theorem codePoint_of_digits {n code : Nat} {cs : List Char} {image : List UInt8} (hcode : digits 16 0 n cs = .ok code)
    (himage : codePointBytes code = .ok image) :
    ∃ text rest, ∃ c : Char, cs = text ++ rest ∧ text.length = n ∧ Numeral 16 c.toNat text ∧
      image = String.utf8EncodeChar c := by
  obtain ⟨text, rest, rfl, hlength, hnumeral⟩ := numeral_of_digits hcode
  obtain ⟨c, rfl, rfl⟩ := codePointBytes_eq_ok_iff.mp himage
  exact ⟨text, rest, c, rfl, hlength, hnumeral, rfl⟩

/-- An octal digit begins no other escape sequence. -/
theorem other_of_octalDigit {d : Nat} {c : Char} (hd : d < 8) (hc : IsDigit d c) :
    letterEscape? c = none ∧ c ≠ 'x' ∧ c ≠ 'u' ∧ c ≠ 'U' := by
  have hall : ∀ d < 8, d.digitChar.toUpper = d.digitChar ∧ letterEscape? d.digitChar = none ∧ d.digitChar ≠ 'x' ∧
      d.digitChar ≠ 'u' ∧ d.digitChar ≠ 'U' := by decide
  obtain ⟨hupper, hother⟩ := hall d hd
  rcases hc with rfl | rfl
  · exact hother
  · rw [hupper]
    exact hother

theorem escape_of_escapeBytes {c : Char} {rest : List Char} {bytes : List UInt8} {n : Nat}
    (h : escapeBytes c rest = .ok (bytes, n)) :
    ∃ tail behind, rest = tail ++ behind ∧ tail.length = n ∧ Escape bytes (c :: tail) := by
  unfold escapeBytes at h
  split at h
  · rename_i image hletter
    cases h
    exact ⟨[], rest, rfl, rfl, .letter (letterEscape?_eq_some_iff.mp hletter)⟩
  · split_ifs at h with hx hu hU
    · obtain ⟨value, hvalue, h⟩ := of_bind h
      cases h
      obtain ⟨tail, behind, rfl, hlength, hv⟩ := numeral_of_digits hvalue
      have hlt : value < 256 := by simpa [hlength] using hv.lt
      exact ⟨tail, behind, rfl, hlength, hx ▸ .hex hlength (by rwa [Text.toNat_ofNat hlt])⟩
    · obtain ⟨code, hcode, h⟩ := of_bind h
      obtain ⟨image, himage, h⟩ := of_bind h
      cases h
      obtain ⟨tail, behind, d, rfl, hlength, hd, rfl⟩ := codePoint_of_digits hcode himage
      exact ⟨tail, behind, rfl, hlength, hu ▸ .short hlength hd⟩
    · obtain ⟨code, hcode, h⟩ := of_bind h
      obtain ⟨image, himage, h⟩ := of_bind h
      cases h
      obtain ⟨tail, behind, d, rfl, hlength, hd, rfl⟩ := codePoint_of_digits hcode himage
      exact ⟨tail, behind, rfl, hlength, hU ▸ .long hlength hd⟩
    · split at h
      · rename_i first hfirst
        obtain ⟨value, hvalue, h⟩ := of_bind h
        split_ifs at h with hlarge
        · cases h
        · cases h
          obtain ⟨tail, behind, v, rfl, hlength, hv, rfl⟩ := (digits_eq_ok_iff (by decide)).mp hvalue
          obtain ⟨hlt, hc⟩ := (digitValue?_eq_some_iff (by decide)).mp hfirst
          refine ⟨tail, behind, rfl, hlength, .octal (congrArg Nat.succ hlength) ?_⟩
          rw [Text.toNat_ofNat (Nat.lt_succ_of_le (Nat.le_of_not_lt hlarge)), ← hlength]
          exact .cons hlt hc hv
      · cases h

theorem escapeBytes_of_escape {c : Char} {tail : List Char} {bytes : List UInt8} (h : Escape bytes (c :: tail))
    (behind : List Char) : escapeBytes c (tail ++ behind) = .ok (bytes, tail.length) := by
  rw [escapeBytes]
  generalize hform : c :: tail = form at h
  cases h with
  | letter hletter =>
      obtain ⟨rfl, rfl⟩ := List.cons_eq_cons.mp hform
      rw [letterEscape?_eq_some_iff.mpr hletter]
      rfl
  | hex hlength hv =>
      obtain ⟨rfl, rfl⟩ := List.cons_eq_cons.mp hform
      have hnone : letterEscape? 'x' = none := rfl
      rw [hnone, hlength]
      simp [digits_of_numeral hlength hv, bind, Except.bind, pure, Except.pure]
  | short hlength hv =>
      obtain ⟨rfl, rfl⟩ := List.cons_eq_cons.mp hform
      have hnone : letterEscape? 'u' = none := rfl
      rw [hnone, hlength]
      simp [digits_of_numeral hlength hv, codePointBytes_eq_ok_iff.mpr ⟨_, rfl, rfl⟩, bind, Except.bind, pure,
        Except.pure]
  | long hlength hv =>
      obtain ⟨rfl, rfl⟩ := List.cons_eq_cons.mp hform
      have hnone : letterEscape? 'U' = none := rfl
      rw [hnone, hlength]
      simp [digits_of_numeral hlength hv, codePointBytes_eq_ok_iff.mpr ⟨_, rfl, rfl⟩, bind, Except.bind, pure,
        Except.pure]
  | @octal b _ hlength hv =>
      subst hform
      generalize hvalue : b.toNat = value at hv
      cases hv with
      | @cons d v _ _ hlt hc hv =>
          obtain ⟨hnone, hx, hu, hU⟩ := other_of_octalDigit hlt hc
          have htail : tail.length = 2 := Nat.succ.inj hlength
          have hbyte : digits 8 d 2 (tail ++ behind) = .ok b.toNat :=
            (digits_eq_ok_iff (by decide)).mpr ⟨tail, behind, v, rfl, htail, hv, by rw [hvalue, htail]⟩
          have hsmall : ¬b.toNat > 255 := by
            have hlarge := b.toNat_lt
            omega
          rw [hnone, if_neg hx, if_neg hu, if_neg hU, (digitValue?_eq_some_iff (by decide)).mpr ⟨hlt, hc⟩, htail]
          simp [hbyte, hsmall, bind, Except.bind, pure, Except.pure]

/-- A body of a literal and the bytes that it denotes; the reserved characters do not stand for themselves in it. -/
inductive Literal (reserved : List Char) : List UInt8 → List Char → Prop where
  | nil : Literal reserved [] []
  | raw {c : Char} {bytes : List UInt8} {text : List Char} (hc : c ∉ reserved) (h : Literal reserved bytes text) :
      Literal reserved (String.utf8EncodeChar c ++ bytes) (c :: text)
  | escape {image bytes : List UInt8} {form text : List Char} (hform : Escape image form)
      (h : Literal reserved bytes text) : Literal reserved (image ++ bytes) ('\\' :: (form ++ text))

theorem Literal.append {reserved : List Char} {bytes bytes' : List UInt8} {text text' : List Char}
    (h : Literal reserved bytes text) (h' : Literal reserved bytes' text') :
    Literal reserved (bytes ++ bytes') (text ++ text') := by
  induction h with
  | nil => exact h'
  | raw hc h ih =>
      rw [List.append_assoc, List.cons_append]
      exact .raw hc ih
  | escape hform h ih =>
      rw [List.append_assoc, List.cons_append, List.append_assoc]
      exact .escape hform ih

/-- With fewer reserved characters there are more bodies. -/
theorem Literal.mono {reserved reserved' : List Char} (hsubset : reserved ⊆ reserved') {bytes : List UInt8}
    {text : List Char} (h : Literal reserved' bytes text) : Literal reserved bytes text := by
  induction h with
  | nil => exact .nil
  | raw hc h ih => exact .raw (fun hmem => hc (hsubset hmem)) ih
  | escape hform h ih => exact .escape hform ih

/-- No escape sequence goes over a line end, so in a literal of which line ends are no part there are none. -/
theorem Literal.lineEnd_not_mem {reserved : List Char} (hreserved : '\n' ∈ reserved) {bytes : List UInt8}
    {text : List Char} (h : Literal reserved bytes text) : '\n' ∉ text := by
  induction h with
  | nil => exact List.not_mem_nil
  | raw hc h ih => exact List.not_mem_cons_of_ne_of_not_mem (fun heq => hc (heq ▸ hreserved)) ih
  | escape hform h ih =>
      obtain ⟨c, tail, rfl, hc, htail⟩ := hform.exists_cons
      have hform : '\n' ∉ c :: tail :=
        List.not_mem_cons_of_ne_of_not_mem (Ne.symm hc) fun hmem => htail _ hmem (by decide)
      exact List.not_mem_cons_of_ne_of_not_mem (by decide) (List.not_mem_append hform ih)

theorem literal_of_literalBytes {text : List Char} {bytes : List UInt8} (h : literalBytes text = .ok bytes) :
    Literal ['\\'] bytes text := by
  induction text using literalBytes.induct generalizing bytes with
  | case1 =>
      rw [literalBytes] at h
      cases h
      exact .nil
  | case2 =>
      rw [literalBytes] at h
      cases h
  | case3 c rest fault hfault =>
      rw [literalBytes, hfault] at h
      cases h
  | case4 c rest image taken himage ih =>
      rw [literalBytes, himage] at h
      obtain ⟨bytes, hbytes, rfl⟩ := of_map h
      obtain ⟨tail, behind, rfl, rfl, hform⟩ := escape_of_escapeBytes himage
      rw [List.drop_left] at ih hbytes
      exact .escape hform (ih hbytes)
  | case5 c rest hend hescape ih =>
      rw [literalBytes.eq_4 c rest hend hescape] at h
      obtain ⟨bytes, hbytes, rfl⟩ := of_map h
      refine .raw ?_ (ih hbytes)
      rw [List.mem_singleton]
      intro hc
      cases rest with
      | nil => exact hend hc rfl
      | cons d rest => exact hescape d rest hc rfl

theorem literalBytes_of_literal {text : List Char} {bytes : List UInt8} (h : Literal ['\\'] bytes text) :
    literalBytes text = .ok bytes := by
  induction h with
  | nil => rw [literalBytes]
  | @raw c bytes text hc h ih =>
      rw [List.mem_singleton] at hc
      rw [literalBytes.eq_4 c text (fun h => absurd h hc) (fun _ _ h => absurd h hc), ih]
      rfl
  | @escape image bytes form text hform h ih =>
      obtain ⟨c, tail, rfl, -⟩ := hform.exists_cons
      rw [List.cons_append, literalBytes, escapeBytes_of_escape hform]
      dsimp only
      rw [List.drop_left, ih]
      rfl

/-- A body can be read exactly when it is made up of characters and escape sequences, and denotes their bytes. -/
theorem literalBytes_eq_ok_iff {text : List Char} {bytes : List UInt8} :
    literalBytes text = .ok bytes ↔ Literal ['\\'] bytes text :=
  ⟨literal_of_literalBytes, literalBytes_of_literal⟩

/-! ### Spellings -/

/-- A way to write a character in a literal: as it is, as one escape sequence, or as one for each of its bytes. -/
inductive Spelling (reserved : List Char) (c : Char) : List Char → Prop where
  | raw (hc : c ∉ reserved) : Spelling reserved c [c]
  | escape {form : List Char} (h : Escape (String.utf8EncodeChar c) form) : Spelling reserved c ('\\' :: form)
  | bytes {forms : List (List Char)}
      (h : List.Forall₂ (fun b form => Escape [b] form) (String.utf8EncodeChar c) forms) :
      Spelling reserved c (forms.flatMap ('\\' :: ·))

/-- A text is written with a spelling of each of its characters. -/
def Spelled (reserved s text : List Char) : Prop :=
  ∃ forms, List.Forall₂ (Spelling reserved) s forms ∧ text = forms.flatten

section Spelled

variable {reserved : List Char} {c : Char} {s text : List Char}

theorem Spelling.literal (h : Spelling reserved c text) : Literal reserved (String.utf8EncodeChar c) text := by
  cases h with
  | raw hc => simpa using Literal.raw hc .nil
  | escape h => simpa using Literal.escape h (@Literal.nil reserved)
  | bytes h =>
      generalize String.utf8EncodeChar c = bytes at h
      induction h with
      | nil => exact .nil
      | cons hform hforms ih => exact .escape hform ih

theorem Spelled.literal (h : Spelled reserved s text) : Literal reserved (Text.utf8Bytes s) text := by
  obtain ⟨forms, hforms, rfl⟩ := h
  induction hforms with
  | nil => exact .nil
  | cons hform hforms ih => exact hform.literal.append ih

theorem unescape_of_spelled (hreserved : '\\' ∈ reserved) (h : Spelled reserved s text) : unescape text = .ok s := by
  have hliteral := h.literal.mono (List.cons_subset.mpr ⟨hreserved, List.nil_subset _⟩)
  rw [unescape, literalBytes_of_literal hliteral, Except.map, Text.decodeUtf8_utf8Bytes]

end Spelled

/-- A text is read back whichever spelling is chosen for each of its characters. -/
theorem unescape_spelled {s text : String} (h : Spelled ['\\'] s.toList text.toList) :
    (unescape text.toList).map String.ofList = .ok s := by
  rw [unescape_of_spelled List.mem_cons_self h, Except.map, String.ofList_toList]

/-- Each character in another spelling, one of them byte by byte. -/
def mixedSpellings : List (List Char) := [
  ['\\', '1', '4', '1'], ['"'], ['\\', 'x', 'C', '3', '\\', '2', '5', '1'], ['\\', 'n'], ['\\', 'u', '2', '0', 'a', 'C'],
  ['\\', 'U', '0', '0', '0', '1', 'f', '6', '0', '0']]

theorem mixedSpellings_spelled :
    Spelled ['\\'] "a\"é\n€😀".toList (String.ofList mixedSpellings.flatten).toList ∧
      (unescape (String.ofList mixedSpellings.flatten).toList).map String.ofList = .ok "a\"é\n€😀" := by
  have hspelled : Spelled ['\\'] "a\"é\n€😀".toList (String.ofList mixedSpellings.flatten).toList := by
    have hchars : "a\"é\n€😀".toList = ['a', '"', 'é', '\n', '€', '😀'] := rfl
    have hbytes : List.Forall₂ (fun b form => Escape [b] form) (String.utf8EncodeChar 'é')
        [['x', 'C', '3'], ['2', '5', '1']] := by
      refine .cons ?first (.cons ?second .nil)
      · exact Escape.hex rfl ((numeral_iff_digits (by decide)).mpr (by decide))
      · exact Escape.octal rfl ((numeral_iff_digits (by decide)).mpr (by decide))
    refine ⟨mixedSpellings, ?_, String.toList_ofList⟩
    rw [hchars]
    refine .cons (.escape ?octal) (.cons (.raw ?raw) (.cons (@Spelling.bytes ['\\'] 'é' _ hbytes)
      (.cons (.escape ?letter) (.cons (.escape ?short) (.cons (.escape ?long) .nil)))))
    · exact Escape.octal rfl ((numeral_iff_digits (by decide)).mpr (by decide))
    · decide
    · exact .letter (by decide)
    · exact .short rfl ((numeral_iff_digits (by decide)).mpr (by decide))
    · exact .long rfl ((numeral_iff_digits (by decide)).mpr (by decide))
  exact ⟨hspelled, unescape_spelled hspelled⟩

end ApiForge.Source
