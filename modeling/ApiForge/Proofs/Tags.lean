import ApiForge.Proofs.Order
import ApiForge.Proofs.Quotation
import Mathlib

/-! Struct tags are read back. The pairs of a tag are read one after the other up to the first thing that is no pair, and
what stands there changes nothing about the pairs in front of it. -/

namespace ApiForge.Source

/-! ### Tags as they are written -/

/-- A key is not empty, and has no spaces, control characters, colons or quotation marks. -/
def IsTagKey (key : List Char) : Prop :=
  key ≠ [] ∧ ∀ c ∈ key, ' ' < c ∧ c ∉ [':', '"', '\x7F']

/-- The text of a tag with the given pairs: keys, each with a colon and its value in quotation marks, and any spaces
around them. -/
inductive TagText : List (String × String) → List Char → Prop where
  | spaces (n : Nat) : TagText [] (List.replicate n ' ')
  | pair {n : Nat} {key value : String} {body text : List Char} {pairs : List (String × String)}
      (hkey : IsTagKey key.toList) (hvalue : Spelled ['\\', '"'] value.toList body) (h : TagText pairs text) :
      TagText ((key, value) :: pairs)
        (List.replicate n ' ' ++ (key.toList ++ ':' :: '"' :: (body ++ '"' :: text)))

/-- Behind any spaces there is a pair, whatever its value denotes; the reserved characters do not stand for themselves in
it. -/
def BeginsWithPair (reserved text : List Char) : Prop :=
  ∃ n key bytes body rest, text = List.replicate n ' ' ++ (key ++ ':' :: '"' :: (body ++ '"' :: rest)) ∧
    IsTagKey key ∧ Literal reserved bytes body

/-! ### One pair -/

theorem isTagKeyChar_iff {c : Char} : isTagKeyChar c = true ↔ ' ' < c ∧ c ∉ [':', '"', '\x7F'] := by
  simp [isTagKeyChar, and_assoc]

theorem isTagKey_iff {key : List Char} : IsTagKey key ↔ key ≠ [] ∧ key.all isTagKeyChar = true := by
  simp only [IsTagKey, List.all_eq_true, isTagKeyChar_iff]

theorem quotedBody?_isPrefix {cs body : List Char} (h : quotedBody? cs = some body) : body ++ ['"'] <+: cs := by
  induction cs using quotedBody?.induct generalizing body with
  | case1 => cases h
  | case2 cs =>
      cases h
      exact List.prefix_append ['"'] cs
  | case3 => cases h
  | case4 c cs ih =>
      rw [quotedBody?] at h
      obtain ⟨body', hbody, rfl⟩ := Option.map_eq_some_iff.mp h
      exact List.cons_prefix_cons.mpr ⟨rfl, List.cons_prefix_cons.mpr ⟨rfl, ih hbody⟩⟩
  | case5 c cs hquote hend hescape ih =>
      rw [quotedBody?.eq_5 c cs hquote hend hescape] at h
      obtain ⟨body', hbody, rfl⟩ := Option.map_eq_some_iff.mp h
      exact List.cons_prefix_cons.mpr ⟨rfl, ih hbody⟩

/-- In a body that was read up to the closing quotation mark no other stands for itself. -/
theorem literal_of_quotedBody? {bytes : List UInt8} {body rest : List Char} (h : Literal ['\\'] bytes body)
    (hbody : quotedBody? (body ++ '"' :: rest) = some body) : Literal ['\\', '"'] bytes body := by
  induction h with
  | nil => exact .nil
  | @raw c bytes text hc h ih =>
      have hquote : c ≠ '"' := by
        rintro rfl
        cases hbody
      have hraw : c ∉ ['\\', '"'] := by
        simpa [hquote] using hc
      rw [List.cons_append, quotedBody?_readsBody.raw c hraw] at hbody
      obtain ⟨text', htext, heq⟩ := Option.map_eq_some_iff.mp hbody
      rw [(List.cons_eq_cons.mp heq).2] at htext
      exact .raw hraw (ih htext)
  | @escape image bytes form text hform h ih =>
      obtain ⟨c, tail, rfl, hc, htail⟩ := hform.exists_cons
      rw [List.cons_append, List.cons_append, List.cons_append, quotedBody?_readsBody.escaped c hc, List.append_assoc,
        quotedBody?_readsBody.append_raw htail, Option.map_map] at hbody
      obtain ⟨text', htext, heq⟩ := Option.map_eq_some_iff.mp hbody
      have heq : tail ++ text' = tail ++ text := (List.cons_eq_cons.mp (List.cons_eq_cons.mp heq).2).2
      rw [List.append_cancel_left heq] at htext
      exact .escape hform (ih htext)

/-- A key, a colon and a literal are a pair, whatever comes behind them. -/
theorem tagPair?_append {key body : List Char} {bytes : List UInt8} (hkey : IsTagKey key)
    (hbody : Literal ['\\', '"'] bytes body) (rest : List Char) :
    tagPair? (key ++ ':' :: '"' :: (body ++ '"' :: rest)) = some ((key, body), key.length + body.length + 3) := by
  have hchars : (key ++ ':' :: '"' :: (body ++ '"' :: rest)).takeWhile isTagKeyChar = key := by
    apply takeWhile_append_of_head
    · exact List.all_eq_true.mp (isTagKey_iff.mp hkey).2
    · rintro c ⟨⟩
      rfl
  rw [tagPair?, hchars, if_neg hkey.1, List.drop_left]
  change (quotedBody? (body ++ '"' :: rest)).map (fun body => ((key, body), key.length + body.length + 3)) = _
  rw [quotedBody?_readsBody.read_body hbody, Option.map_some]

/-- What is taken for a pair is one, but for what the escape sequences in it may be. -/
theorem pair_of_tagPair? {cs key body : List Char} {taken : Nat} (h : tagPair? cs = some ((key, body), taken)) :
    IsTagKey key ∧ ∃ rest, cs = key ++ ':' :: '"' :: (body ++ '"' :: rest) ∧
      quotedBody? (body ++ '"' :: rest) = some body := by
  unfold tagPair? at h
  dsimp only at h
  split_ifs at h with hempty
  split at h
  · rename_i rest hrest
    obtain ⟨body', hbody, heq⟩ := Option.map_eq_some_iff.mp h
    cases heq
    obtain ⟨behind, rfl⟩ := quotedBody?_isPrefix hbody
    rw [List.append_assoc, List.singleton_append] at hrest hbody
    refine ⟨isTagKey_iff.mpr ⟨hempty, List.all_takeWhile⟩, behind, ?_, hbody⟩
    rw [← hrest]
    exact List.prefix_append_drop (List.takeWhile_prefix isTagKeyChar)
  · cases h

/-! ### All pairs -/

theorem tagPairs_spaces (n : Nat) (cs : List Char) : tagPairs (List.replicate n ' ' ++ cs) = tagPairs cs := by
  induction n with
  | zero => rfl
  | succ n ih => rw [List.replicate_succ, List.cons_append, tagPairs, ih]

/-- A pair has the text that the bytes of its value spell. -/
theorem tagPairs_literal {key body : List Char} {bytes : List UInt8} (hkey : IsTagKey key)
    (hbody : Literal ['\\', '"'] bytes body) (rest : List Char) :
    tagPairs (key ++ ':' :: '"' :: (body ++ '"' :: rest)) =
      (String.ofList key, String.ofList (Text.decodeUtf8 bytes)) :: tagPairs rest := by
  have hpair := tagPair?_append hkey hbody rest
  have hunescape : unescape body = .ok (Text.decodeUtf8 bytes) := by
    rw [unescape, literalBytes_of_literal (hbody.mono (by decide))]
    rfl
  have hdrop (key : List Char) :
      (key ++ ':' :: '"' :: (body ++ '"' :: rest)).drop (key.length + body.length + 3) = rest := by
    have hsplit : key ++ ':' :: '"' :: (body ++ '"' :: rest) = (key ++ ':' :: '"' :: (body ++ ['"'])) ++ rest := by simp
    rw [hsplit]
    exact List.drop_left' (by simp; omega)
  obtain ⟨c, key, rfl⟩ := List.exists_cons_of_ne_nil hkey.1
  have hc : c ≠ ' ' := ne_of_gt (hkey.2 c List.mem_cons_self).1
  rw [List.cons_append, tagPairs.eq_3 _ _ hc, ← List.cons_append, hpair]
  dsimp only
  rw [hunescape]
  dsimp only
  -- The reader has taken the first character of the key before it drops the pair.
  have htaken : (c :: key).length + body.length + 3 - 1 = key.length + body.length + 3 := by
    rw [List.length_cons]
    omega
  rw [htaken, hdrop]

theorem exists_pair_of_tagPairs {text : List Char} (h : tagPairs text ≠ []) : BeginsWithPair ['\\', '"'] text := by
  induction text using tagPairs.induct with
  | case1 => exact absurd tagPairs.eq_1 h
  | case2 rest ih =>
      rw [tagPairs] at h
      obtain ⟨n, key, bytes, body, behind, rfl, hpair⟩ := ih h
      exact ⟨n + 1, key, bytes, body, behind, rfl, hpair⟩
  | case3 c rest hc hnone =>
      rw [tagPairs.eq_3 c rest hc, hnone] at h
      exact absurd rfl h
  | case4 c rest hc key body taken hpair fault hfault =>
      rw [tagPairs.eq_3 c rest hc, hpair] at h
      dsimp only at h
      rw [hfault] at h
      exact absurd rfl h
  | case5 c rest hc key body taken hpair value hvalue ih =>
      obtain ⟨hkey, behind, htext, hbody⟩ := pair_of_tagPair? hpair
      obtain ⟨bytes, hbytes, -⟩ := of_map hvalue
      exact ⟨0, key, bytes, body, behind, htext, hkey, literal_of_quotedBody? (literal_of_literalBytes hbytes) hbody⟩

/-- No pairs are read exactly when the text does not begin with one. -/
theorem tagPairs_eq_nil_iff {text : List Char} : tagPairs text = [] ↔ ¬BeginsWithPair ['\\', '"'] text := by
  constructor
  · rintro hnil ⟨n, key, bytes, body, rest, rfl, hkey, hbody⟩
    rw [tagPairs_spaces, tagPairs_literal hkey hbody] at hnil
    cases hnil
  · intro hnone
    by_contra hne
    exact hnone (exists_pair_of_tagPairs hne)

theorem TagText.tagPairs_append {pairs : List (String × String)} {text rest : List Char} (h : TagText pairs text)
    (hrest : ¬BeginsWithPair ['\\', '"'] rest) : tagPairs (text ++ rest) = pairs := by
  induction h with
  | spaces n => rw [tagPairs_spaces, tagPairs_eq_nil_iff.mpr hrest]
  | @pair n key value body text pairs hkey hvalue h ih =>
      rw [List.append_assoc, tagPairs_spaces, List.append_assoc, List.cons_append, List.cons_append, List.append_assoc,
        List.cons_append, tagPairs_literal hkey hvalue.literal, ih, Text.decodeUtf8_utf8Bytes, String.ofList_toList,
        String.ofList_toList]

/-- The pairs of a tag are read back, the first of those with one key, as long as what comes behind them does not begin
with another pair, be it one whose value goes over a line end. -/
theorem tags_read_back {pairs : List (String × String)} {text rest : List Char} (h : TagText pairs text)
    (hrest : ¬BeginsWithPair ['\\', '"'] rest) :
    (∀ key, (parseTag (String.ofList (text ++ rest))).get? key = pairs.lookup key) ∧
      ((parseTag (String.ofList (text ++ rest))).map Prod.fst).Pairwise (· < ·) := by
  rw [parseTag, String.toList_ofList, h.tagPairs_append hrest]
  exact ⟨fun key => NameMap.get?_foldl_insertNew pairs [] key, NameMap.pairwise_foldl_insertNew pairs .nil⟩

/-- Three pairs, two of them with one key, with escape sequences in their values. -/
def repeatedTag : String :=
  "  json:\"a\\x62\"doc:\"\\\"\\u00e9\" json:\"z\" "

def repeatedPairs : List (String × String) :=
  [("json", "ab"), ("doc", "\"é"), ("json", "z")]

theorem repeatedTag_text : TagText repeatedPairs repeatedTag.toList := by
  have hchars : repeatedTag.toList = List.replicate 2 ' ' ++ ("json".toList ++ ':' :: '"' ::
      (['a', '\\', 'x', '6', '2'] ++ '"' :: (List.replicate 0 ' ' ++ ("doc".toList ++ ':' :: '"' ::
      (['\\', '"', '\\', 'u', '0', '0', 'e', '9'] ++ '"' :: (List.replicate 1 ' ' ++ ("json".toList ++ ':' :: '"' ::
      (['z'] ++ '"' :: List.replicate 1 ' ')))))))) := rfl
  have hfirst : Spelled ['\\', '"'] "ab".toList ['a', '\\', 'x', '6', '2'] := by
    rw [show "ab".toList = ['a', 'b'] from rfl]
    refine ⟨[['a'], ['\\', 'x', '6', '2']], .cons (.raw (by decide)) (.cons (.escape ?hex) .nil), rfl⟩
    exact Escape.hex rfl ((numeral_iff_digits le_rfl).mpr (by decide))
  have hsecond : Spelled ['\\', '"'] "\"é".toList ['\\', '"', '\\', 'u', '0', '0', 'e', '9'] := by
    rw [show "\"é".toList = ['"', 'é'] from rfl]
    refine ⟨[['\\', '"'], ['\\', 'u', '0', '0', 'e', '9']], .cons (.escape ?letter) (.cons (.escape ?short) .nil), rfl⟩
    · exact .letter (by decide)
    · exact .short rfl ((numeral_iff_digits le_rfl).mpr (by decide))
  have hthird : Spelled ['\\', '"'] "z".toList ['z'] := by
    rw [show "z".toList = ['z'] from rfl]
    exact ⟨[['z']], .cons (.raw (by decide)) .nil, rfl⟩
  have hjson : IsTagKey "json".toList := isTagKey_iff.mpr ⟨List.cons_ne_nil _ _, rfl⟩
  have hdoc : IsTagKey "doc".toList := isTagKey_iff.mpr ⟨List.cons_ne_nil _ _, rfl⟩
  rw [hchars]
  exact .pair hjson hfirst (.pair hdoc hsecond (.pair hjson hthird (.spaces 1)))

theorem repeatedTag_reads_back : TagText repeatedPairs repeatedTag.toList ∧
    ¬BeginsWithPair ['\\', '"'] "broken gorm:\"b\"".toList ∧
    (∀ key, (parseTag (String.ofList (repeatedTag.toList ++ "broken gorm:\"b\"".toList))).get? key =
      repeatedPairs.lookup key) ∧
    ((parseTag (String.ofList (repeatedTag.toList ++ "broken gorm:\"b\"".toList))).map Prod.fst).Pairwise (· < ·) := by
  have hrest : ¬BeginsWithPair ['\\', '"'] "broken gorm:\"b\"".toList := tagPairs_eq_nil_iff.mp (by cbv)
  exact ⟨repeatedTag_text, hrest, tags_read_back repeatedTag_text hrest⟩

/-- A literal of a source does not go over a line end, but this value does. -/
def foldedTag : String :=
  "doc:\"one\ntwo\""

/-- With no pairs in front of it, and none of which the value is a literal, a pair is read. -/
theorem foldedTag_read : TagText [] [] ∧ ¬BeginsWithPair ['\\', '"', '\n'] foldedTag.toList ∧
    parseTag foldedTag = [("doc", "one\ntwo")] := by
  have hpair : tagPair? foldedTag.toList = some ((['d', 'o', 'c'], "one\ntwo".toList), 13) := rfl
  refine ⟨.spaces 0, ?_, by cbv⟩
  rintro ⟨n, key, bytes, body, rest, htext, hkey, hbody⟩
  cases n with
  | zero =>
      rw [htext, List.replicate_zero, List.nil_append, tagPair?_append hkey (hbody.mono (by decide))] at hpair
      cases hpair
      exact hbody.lineEnd_not_mem (by decide) (by decide)
  | succ n =>
      have hfirst : foldedTag.toList.head? = some 'd' := rfl
      rw [htext] at hfirst
      cases hfirst

end ApiForge.Source
