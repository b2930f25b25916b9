import ApiForge.Proofs.Escapes
import ApiForge.Proofs.Pieces
import ApiForge.Source.Tag
import ApiForge.Text.Quoted
import Mathlib

/-! Quoted text is read back. A reader finds the end of a literal by the signs in it, before it is known what they stand
for; both ways to look at a literal agree on where it ends, so what is written between quotation marks is read as one
literal, and as the text that was to be written. -/

namespace ApiForge.Source

/-! ### Where a literal ends -/

/-- On its way to the closing quotation mark `read?` takes a character that is not reserved as it is, and a backslash
together with what stands behind it. -/
structure ReadsBody (reserved : List Char) (read? : List Char → Option (List Char)) : Prop where
  reserved_subset : reserved ⊆ ['\\', '"', '\n']
  raw : ∀ c ∉ reserved, ∀ cs, read? (c :: cs) = (read? cs).map (c :: ·)
  escaped : ∀ c ≠ '\n', ∀ cs, read? ('\\' :: c :: cs) = (read? cs).map ('\\' :: c :: ·)
  closed : ∀ cs, read? ('"' :: cs) = some []

namespace ReadsBody

variable {reserved : List Char} {read? : List Char → Option (List Char)}

theorem append_raw (h : ReadsBody reserved read?) {front : List Char} (hfront : ∀ c ∈ front, c ∉ ['\\', '"', '\n'])
    (cs : List Char) : read? (front ++ cs) = (read? cs).map (front ++ ·) := by
  induction front with
  | nil => simp
  | cons c front ih =>
      rw [List.forall_mem_cons] at hfront
      rw [List.cons_append, h.raw c (fun hc => hfront.1 (h.reserved_subset hc)), ih hfront.2, Option.map_map]
      rfl

theorem append_literal (h : ReadsBody reserved read?) {bytes : List UInt8} {body : List Char}
    (hbody : Literal reserved bytes body) (cs : List Char) : read? (body ++ cs) = (read? cs).map (body ++ ·) := by
  induction hbody with
  | nil => simp
  | raw hc hbody ih =>
      rw [List.cons_append, h.raw _ hc, ih, Option.map_map]
      rfl
  | @escape image bytes form text hform hbody ih =>
      obtain ⟨c, tail, rfl, hc, htail⟩ := hform.exists_cons
      rw [List.cons_append, List.cons_append, List.cons_append, h.escaped c hc, List.append_assoc, h.append_raw htail,
        ih, Option.map_map, Option.map_map]
      congr 1
      funext body
      simp

/-- The body of a literal is read up to the quotation mark that closes it. -/
theorem read_body (h : ReadsBody reserved read?) {bytes : List UInt8} {body : List Char}
    (hbody : Literal reserved bytes body) (cs : List Char) : read? (body ++ '"' :: cs) = some body := by
  rw [h.append_literal hbody, h.closed, Option.map_some, List.append_nil]

end ReadsBody

/-- In a source a literal does not go over a line end. -/
theorem stringBody?_readsBody : ReadsBody ['\\', '"', '\n'] stringBody? where
  reserved_subset := List.Subset.refl _
  raw c hc cs := by
    simp only [List.mem_cons, List.not_mem_nil, or_false, not_or] at hc
    exact stringBody?.eq_7 c cs hc.2.1 hc.2.2 (fun h => absurd h hc.1) (fun _ h => absurd h hc.1)
      fun _ _ h => absurd h hc.1
  escaped c hc cs := stringBody?.eq_6 c cs hc
  closed cs := rfl

/-- In a tag it may. -/
theorem quotedBody?_readsBody : ReadsBody ['\\', '"'] quotedBody? where
  reserved_subset := by decide
  raw c hc cs := by
    simp only [List.mem_cons, List.not_mem_nil, or_false, not_or] at hc
    exact quotedBody?.eq_5 c cs hc.2 (fun h => absurd h hc.1) fun _ _ h => absurd h hc.1
  escaped c _ cs := quotedBody?.eq_4 c cs
  closed cs := rfl

/-! ### Quoted text -/

/-- A spelled text in quotation marks is a lexeme, whatever comes behind it. -/
theorem lexeme_spelled {s body : List Char} (h : Spelled ['\\', '"', '\n'] s body) (rest : List Char) :
    lexeme '"' (body ++ '"' :: rest) = .ok ⟨.token (.string (String.ofList s)), body ++ ['"']⟩ := by
  have hlexeme (cs : List Char) : lexeme '"' cs = stringLexeme cs := rfl
  rw [hlexeme, stringLexeme, stringBody?_readsBody.read_body h.literal]
  dsimp only
  rw [unescape_of_spelled List.mem_cons_self h]

theorem quotedChar_spelling (c : Char) : Spelling ['\\', '"', '\n'] c (Text.quotedChar c) := by
  have hcontrol : ∀ n < 0x20, (Text.hex4 n).length = 4 ∧ digits 16 0 4 (Text.hex4 n) = .ok n := by decide
  have hletter {e : Char} (h : (e, c) ∈ letterEscapes) : Spelling ['\\', '"', '\n'] c ['\\', e] :=
    .escape (.letter h)
  unfold Text.quotedChar
  split_ifs with hquote hbackslash hbackspace hfeed hline hreturn htab hlow
  · exact hletter (by rw [hquote]; decide)
  · exact hletter (by rw [hbackslash]; decide)
  · exact hletter (by rw [hbackspace]; decide)
  · exact hletter (by rw [hfeed]; decide)
  · exact hletter (by rw [hline]; decide)
  · exact hletter (by rw [hreturn]; decide)
  · exact hletter (by rw [htab]; decide)
  · obtain ⟨hlength, hdigits⟩ := hcontrol c.toNat hlow
    have hnumeral : Numeral 16 c.toNat (Text.hex4 c.toNat) := (numeral_iff_digits le_rfl).mpr (by rwa [hlength])
    exact .escape (.short hlength hnumeral)
  · exact .raw (by simp [hbackslash, hquote, hline])

theorem quoted_spelled (s : List Char) : Spelled ['\\', '"', '\n'] s (s.flatMap Text.quotedChar) := by
  refine ⟨s.map Text.quotedChar, ?_, List.flatMap_def⟩
  rw [List.forall₂_map_right_iff]
  exact List.forall₂_same.mpr fun c _ => quotedChar_spelling c

/-- Quoted text is read as one literal, wherever it stands. -/
theorem pieces_quote (s : String) (pos : Position) (used : Bool) (rest : List Char) :
    pieces pos used ((Text.quote s).toList ++ rest) =
      (pieces (pos.advance (Text.quote s).toList) true rest).map (.token ⟨.string s, Text.quote s, pos⟩ :: ·) := by
  have hlexeme := lexeme_spelled (quoted_spelled s.toList) rest
  have hdrop (body : List Char) : (body ++ '"' :: rest).drop (body ++ ['"']).length = rest := by
    rw [List.append_cons body '"' rest]
    exact List.drop_left
  rw [Text.quote, String.toList_ofList, Text.quotedChars, List.cons_append, List.append_assoc, List.singleton_append,
    pieces, hlexeme]
  dsimp only
  rw [hdrop, String.ofList_toList]
  rfl

/-- Quoted text is one literal, which denotes the text, and nothing that comes behind it changes that. -/
theorem quote_reads_back (s : String) :
    tokenize (Text.quote s) = .ok ⟨[⟨.string s, Text.quote s, .start⟩,
        newlineAt (Position.start.advance (Text.quote s).toList)], [], Position.start.advance (Text.quote s).toList⟩ ∧
      ∀ pos used rest, pieces pos used ((Text.quote s).toList ++ rest) =
        (pieces (pos.advance (Text.quote s).toList) true rest).map (.token ⟨.string s, Text.quote s, pos⟩ :: ·) := by
  refine ⟨?_, pieces_quote s⟩
  have hpieces := pieces_quote s .start false []
  rw [List.append_nil, pieces] at hpieces
  rw [tokenize, hpieces]
  rfl

end ApiForge.Source
