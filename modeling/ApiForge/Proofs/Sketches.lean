import ApiForge.Generated.Commands
import ApiForge.Proofs.Marks
import ApiForge.Proofs.Order
import ApiForge.Proofs.Outlines
import ApiForge.Proofs.StubSources
import Mathlib

/-! Outlines of the lines that are generated for an object. They are found by instance resolution: a literal is known,
and a name of the object is as much as is known of it. -/

namespace ApiForge.Generated

open Code Source

/-! ### What is known of a line -/

/-- What is known of a piece of a line of an object's code. -/
inductive Part where
  | known (text : List Char)
  | word
  /-- The variable for the object. -/
  | single
  /-- The variable for several objects. -/
  | plural
  | prose
  | aliased (a : Alias)
  deriving DecidableEq, Repr

abbrev Outline := List Part

/-- The names of the packages of the object's version. -/
def aliasName (o : ApiObject) : Alias → String
  | .api => apiAlias o.version
  | .client => clientAlias o.version

def Part.Fits (o : ApiObject) : Part → List Char → Prop
  | known text', text => text = text'
  | word, text => isWord (String.ofList text) = true
  | single, text => text = o.names.variableName.toList
  | plural, text => text = (pluralVariable o).toList
  | prose, text => ∀ c ∈ text, c ∉ reservedChars
  | aliased a, text => text = (aliasName o a).toList

/-- The text is what the parts are, one after the other. -/
inductive Outline.Fits (o : ApiObject) : Outline → List Char → Prop
  | nil : Fits o [] []
  | cons {part : Part} {outline : Outline} {front back : List Char} (hpart : part.Fits o front)
      (houtline : Fits o outline back) : Fits o (part :: outline) (front ++ back)

theorem Outline.Fits.append {o : ApiObject} {x y : Outline} {front back : List Char} (hx : x.Fits o front)
    (hy : y.Fits o back) : Outline.Fits o (x ++ y) (front ++ back) := by
  induction hx with
  | nil => exact hy
  | cons hpart houtline ih =>
      rw [List.cons_append, List.append_assoc]
      exact .cons hpart ih

theorem Part.Fits.outline {o : ApiObject} {part : Part} {text : List Char} (h : part.Fits o text) :
    Outline.Fits o [part] text := by
  have hfits := Outline.Fits.cons h .nil
  rwa [List.append_nil] at hfits

/-- The object goes by names that come from its type name, which is an identifier. -/
structure Named (o : ApiObject) : Prop where
  identifier : isIdentifier o.typeName = true
  names : o.names = .ofObject o.typeName o.version
  version : Version.isValid o.version = true

/-! ### Outlines of texts -/

/-- The texts are the same; the second one is found when the first one is given. -/
class Same (s : String) (t : outParam String) : Prop where
  eq : s = t

instance (s : String) : Same s s :=
  ⟨rfl⟩

class Drawn (o : ApiObject) (text : String) (outline : outParam Outline) : Prop where
  fits : Named o → outline.Fits o text.toList

class DrawnLine (o : ApiObject) (line : Line) (outline : outParam Outline) : Prop where
  fits : Named o → outline.Fits o line.text.toList

section Instances

variable {o : ApiObject} {s t : String} {x y : Outline}

instance (priority := low) {cs : List Char} [h : Same s (String.ofList cs)] : Drawn o s [.known cs] :=
  ⟨fun _ => Part.Fits.outline (by rw [h.eq, String.toList_ofList]; rfl)⟩

instance [hs : Drawn o s x] [ht : Drawn o t y] : Drawn o (s ++ t) (x ++ y) :=
  ⟨fun ho => by rw [String.toList_append]; exact (hs.fits ho).append (ht.fits ho)⟩

instance [h : Drawn o s x] : Drawn o (toString s) x :=
  ⟨h.fits⟩

instance [h : Drawn o s x] : Drawn o (", ".intercalate [s]) x :=
  ⟨h.fits⟩

instance {rest : List String} [h : Drawn o (s ++ (", " ++ ", ".intercalate (t :: rest))) x] :
    Drawn o (", ".intercalate (s :: t :: rest)) x :=
  ⟨fun ho => by rw [String.intercalate_cons_cons, String.append_assoc]; exact h.fits ho⟩

instance [h : Drawn o ("\"" ++ s ++ "\"") x] : Drawn o (inQuotes s) x :=
  h

instance [h : Drawn o s x] : DrawnLine o ⟨[.plain s]⟩ x :=
  ⟨fun ho => by rw [Line.text_plain]; exact h.fits ho⟩

instance {front back : Line} [hfront : DrawnLine o front x] [hback : DrawnLine o back y] :
    DrawnLine o (front ++ back) (x ++ y) :=
  ⟨fun ho => by rw [Line.text_append, String.toList_append]; exact (hfront.fits ho).append (hback.fits ho)⟩

end Instances

/-! ### Outlines of lines -/

/-- The text of the line is drawn by the outline, behind any number of tabs. -/
def Indented (o : ApiObject) (outline : Outline) (line : Line) : Prop :=
  ∃ n text, line.text.toList = List.replicate n '\t' ++ text ∧ outline.Fits o text

class Sketched (o : ApiObject) (lines : Lines) (outlines : outParam (List Outline)) : Prop where
  indented : Named o → List.Forall₂ (Indented o) outlines lines

theorem DrawnLine.indented {o : ApiObject} {line : Line} {outline : Outline} (h : DrawnLine o line outline)
    (ho : Named o) : Indented o outline line :=
  ⟨0, line.text.toList, rfl, h.fits ho⟩

/-- One level deeper there are more tabs, or none. -/
theorem indented_nest {o : ApiObject} {outlines : List Outline} {lines : Lines}
    (h : List.Forall₂ (Indented o) outlines lines) : List.Forall₂ (Indented o) outlines (nest lines) := by
  rw [nest, List.forall₂_map_right_iff]
  refine h.imp fun outline line hline => ?_
  split
  · exact hline
  · obtain ⟨n, text, htext, hfits⟩ := hline
    refine ⟨n + 1, text, ?_, hfits⟩
    have htab : (("\t" : Line) ++ line).text = "\t" ++ line.text := by
      rw [Line.text_append, Line.text_plain]
    rw [htab, String.toList_append, htext, List.replicate_succ]
    rfl

section Instances

variable {o : ApiObject} {x y : Outline} {xs ys : List Outline} {lines lines' : Lines} {texts : List String}

instance : Sketched o [] [] :=
  ⟨fun _ => .nil⟩

instance {line : Line} [hline : DrawnLine o line x] [hlines : Sketched o lines xs] :
    Sketched o (line :: lines) (x :: xs) :=
  ⟨fun ho => .cons (hline.indented ho) (hlines.indented ho)⟩

instance [h : Sketched o lines xs] [h' : Sketched o lines' ys] : Sketched o (lines ++ lines') (xs ++ ys) :=
  ⟨fun ho => List.rel_append (h.indented ho) (h'.indented ho)⟩

instance : Sketched o (plainLines []) [] :=
  ⟨fun _ => .nil⟩

instance {text : String} [htext : Drawn o text x] [htexts : Sketched o (plainLines texts) xs] :
    Sketched o (plainLines (text :: texts)) (x :: xs) :=
  ⟨fun ho => .cons (DrawnLine.indented ⟨fun ho => by rw [Line.text_plain]; exact htext.fits ho⟩ ho)
    (htexts.indented ho)⟩

instance : Sketched o (comment []) [] :=
  ⟨fun _ => .nil⟩

instance {text : String} [htext : Drawn o ("// " ++ text) x] [htexts : Sketched o (comment texts) xs] :
    Sketched o (comment (text :: texts)) (x :: xs) :=
  ⟨fun ho => .cons (DrawnLine.indented ⟨fun ho => by rw [Line.text_plain]; exact htext.fits ho⟩ ho)
    (htexts.indented ho)⟩

instance [h : Sketched o (plainLines texts) xs] [h' : Sketched o lines ys] : Sketched o (texts ++ lines) (xs ++ ys) :=
  ⟨fun ho => List.rel_append (h.indented ho) (h'.indented ho)⟩

instance [h : Sketched o lines xs] [h' : Sketched o (plainLines texts) ys] : Sketched o (lines ++ texts) (xs ++ ys) :=
  ⟨fun ho => List.rel_append (h.indented ho) (h'.indented ho)⟩

instance [h : Sketched o lines xs] : Sketched o (nest lines) xs :=
  ⟨fun ho => indented_nest (h.indented ho)⟩

instance : Sketched o (given false lines) [] :=
  ⟨fun _ => .nil⟩

instance [h : Sketched o lines xs] : Sketched o (given true lines) xs :=
  h

instance {opening closing : Line} [hopening : DrawnLine o opening x] [hlines : Sketched o lines xs]
    [hclosing : DrawnLine o closing y] : Sketched o (enclose opening lines closing) (x :: (xs ++ [y])) :=
  ⟨fun ho => .cons (hopening.indented ho)
    (List.rel_append (indented_nest (hlines.indented ho)) (.cons (hclosing.indented ho) .nil))⟩

instance {head : Line} [h : Sketched o (enclose (head ++ " \x7b") lines "\x7d") xs] : Sketched o (block head lines) xs :=
  h

instance {condition : Line} [h : Sketched o (block ("if " ++ condition) lines) xs] :
    Sketched o (when condition lines) xs :=
  h

instance {function : Line} [h : Sketched o (enclose (function ++ "(") lines ")") xs] :
    Sketched o (call function lines) xs :=
  h

instance {doc : List String} {name : String} [h : Sketched o (comment doc ++ onto ("var " ++ name ++ " = ") lines) xs] :
    Sketched o (Declaration.value doc name lines).lines xs :=
  h

instance {name type : String} [h : DrawnLine o ("var " ++ name ++ " " ++ type) x] :
    Sketched o (Declaration.storage name type).lines [x] :=
  ⟨fun ho => .cons (h.indented ho) .nil⟩

instance [h : Sketched o (block "func init()" lines) xs] : Sketched o (Declaration.initialization lines).lines xs :=
  h

end Instances

/-! ### The names of an object -/

/-- In kebab case a word has no characters that have to be escaped. -/
theorem unreserved_kebabCase {s : String} (h : isWord s = true) : ∀ c ∈ (Text.kebabCase s).toList, c ∉ reservedChars := by
  intro c hc hreserved
  have hall : ∀ c ∈ reservedChars, Text.isTame c = false ∧ c ≠ '-' := by
    simp only [reservedChars, List.forall_mem_cons]
    refine ⟨?_, ?_, ?_, List.forall_mem_nil _⟩ <;> decide +kernel
  obtain ⟨hwild, hhyphen⟩ := hall c hreserved
  rcases Text.mem_joinWords hc with hmem | htame | heq
  · obtain ⟨d, ds, hchars, hd, hds⟩ := chars_of_isWord h
    have hparts : ∀ c ∈ s.toList, isIdentifierPart c = true :=
      hchars ▸ List.forall_mem_cons.mpr ⟨isIdentifierPart_of_isIdentifierStart hd, hds⟩
    exact absurd ((hparts c hmem).symm.trans (isIdentifierPart_of_reserved hreserved)) (by decide)
  · exact absurd (htame.symm.trans hwild) (by decide)
  · exact hhyphen heq

/-- A word with letters and digits behind it is a word. -/
theorem isWord_append {s ending : String} (h : isWord s = true) (hending : Text.Plain ending.toList) :
    isWord (s ++ ending) = true := by
  obtain ⟨c, cs, hchars, hc, hcs⟩ := chars_of_isWord h
  rw [isWord, String.toList_append, hchars, List.cons_append]
  dsimp only
  rw [hc, Bool.true_and, List.all_eq_true, List.forall_mem_append]
  exact ⟨hcs, fun d hd => isIdentifierPart_of_ascii (by rw [hending d hd, Bool.true_or])⟩

theorem isWord_plural {s : String} (h : isWord s = true) : isWord (Text.plural s) = true := by
  rcases Text.plural_cases s with ⟨-, hplural⟩ | hplural | ⟨stem, hstem, hs, hplural⟩
  · rw [hplural]
    exact isWord_append h (by decide)
  · rw [hplural]
    exact isWord_append h (by decide)
  · rw [hplural]
    refine isWord_append ?_ (by decide)
    obtain ⟨c, cs, hchars, hc, hcs⟩ := chars_of_isWord h
    cases stem with
    | nil => exact absurd rfl hstem
    | cons d ds =>
        rw [hchars, List.cons_append] at hs
        obtain ⟨rfl, rfl⟩ := List.cons_eq_cons.mp hs
        rw [isWord, String.toList_ofList]
        dsimp only
        rw [hc, Bool.true_and, List.all_eq_true]
        exact (List.forall_mem_append.mp hcs).1

theorem Named.isWord {o : ApiObject} (ho : Named o) : isWord o.typeName = true :=
  isWord_of_isIdentifier ho.identifier

section Instances

variable {o : ApiObject} {x : Outline}

instance : Drawn o o.typeName [.word] :=
  ⟨fun ho => Part.Fits.outline (by rw [Part.Fits, String.ofList_toList]; exact ho.isWord)⟩

instance : Drawn o (Text.plural o.typeName) [.word] :=
  ⟨fun ho => Part.Fits.outline (by rw [Part.Fits, String.ofList_toList]; exact isWord_plural ho.isWord)⟩

instance : Drawn o o.names.variableName [.single] :=
  ⟨fun _ => Part.Fits.outline rfl⟩

instance : Drawn o (pluralVariable o) [.plural] :=
  ⟨fun _ => Part.Fits.outline rfl⟩

instance : Drawn o o.names.command [.prose] :=
  ⟨fun ho => Part.Fits.outline (by rw [ho.names]; exact unreserved_kebabCase ho.isWord)⟩

instance : Drawn o o.names.commandPlural [.prose] :=
  ⟨fun ho => Part.Fits.outline (by rw [ho.names]; exact unreserved_kebabCase (isWord_plural ho.isWord))⟩

instance : Drawn o (apiAlias o.version) [.aliased .api] :=
  ⟨fun _ => Part.Fits.outline rfl⟩

instance : Drawn o (clientAlias o.version) [.aliased .client] :=
  ⟨fun _ => Part.Fits.outline rfl⟩

instance [h : Drawn o (Text.plural o.typeName) x] : Drawn o o.names.plural x :=
  ⟨fun ho => by rw [ho.names]; exact h.fits ho⟩

instance [h : Drawn o ("ObjectType" ++ o.typeName) x] : Drawn o o.names.objectType x :=
  ⟨fun ho => by rw [ho.names]; exact h.fits ho⟩

instance [h : Drawn o (o.typeName ++ "Create" ++ "Subject") x] : Drawn o o.names.createSubject.constant x :=
  ⟨fun ho => by rw [ho.names]; exact h.fits ho⟩

instance [h : Drawn o (o.typeName ++ "Update" ++ "Subject") x] : Drawn o o.names.updateSubject.constant x :=
  ⟨fun ho => by rw [ho.names]; exact h.fits ho⟩

instance [h : Drawn o (o.typeName ++ "Delete" ++ "Subject") x] : Drawn o o.names.deleteSubject.constant x :=
  ⟨fun ho => by rw [ho.names]; exact h.fits ho⟩

instance [h : Drawn o ("Get" ++ o.typeName ++ "Versions" ++ "") x] : Drawn o o.names.handlers.getVersions x :=
  ⟨fun ho => by rw [ho.names]; exact h.fits ho⟩

instance [h : Drawn o ("Add" ++ o.typeName ++ "") x] : Drawn o o.names.handlers.add x :=
  ⟨fun ho => by rw [ho.names]; exact h.fits ho⟩

instance [h : Drawn o ("Get" ++ Text.plural o.typeName ++ "") x] : Drawn o o.names.handlers.getAll x :=
  ⟨fun ho => by rw [ho.names]; exact h.fits ho⟩

instance [h : Drawn o ("Get" ++ o.typeName ++ "") x] : Drawn o o.names.handlers.getOne x :=
  ⟨fun ho => by rw [ho.names]; exact h.fits ho⟩

instance [h : Drawn o ("Update" ++ o.typeName ++ "") x] : Drawn o o.names.handlers.update x :=
  ⟨fun ho => by rw [ho.names]; exact h.fits ho⟩

instance [h : Drawn o ("Replace" ++ o.typeName ++ "") x] : Drawn o o.names.handlers.replace x :=
  ⟨fun ho => by rw [ho.names]; exact h.fits ho⟩

instance [h : Drawn o ("Delete" ++ o.typeName ++ "") x] : Drawn o o.names.handlers.delete x :=
  ⟨fun ho => by rw [ho.names]; exact h.fits ho⟩

instance [h : Drawn o ("Get" ++ Text.plural o.typeName) x] : Drawn o o.names.client.getAll x :=
  ⟨fun ho => by rw [ho.names]; exact h.fits ho⟩

instance [h : Drawn o ("Get" ++ o.typeName ++ "ByName") x] : Drawn o o.names.client.getByName x :=
  ⟨fun ho => by rw [ho.names]; exact h.fits ho⟩

instance [h : Drawn o ("Create" ++ o.typeName) x] : Drawn o o.names.client.create x :=
  ⟨fun ho => by rw [ho.names]; exact h.fits ho⟩

instance [h : Drawn o ("Delete" ++ o.typeName) x] : Drawn o o.names.client.delete x :=
  ⟨fun ho => by rw [ho.names]; exact h.fits ho⟩

instance {name : String} [h : Drawn o name x] : DrawnLine o (ownName name) x :=
  ⟨fun ho => by rw [ownName, Line.text_reference]; exact h.fits ho⟩

instance {package name : String} [h : Drawn o (package ++ "." ++ name) x] : DrawnLine o (importedName package name) x :=
  ⟨fun ho => by rw [importedName, Line.text_reference]; exact h.fits ho⟩

instance {name : String} [h : Drawn o ("api" ++ "." ++ name) x] : DrawnLine o (apiName name) x :=
  ⟨fun ho => by rw [apiName, importedName, Line.text_reference]; exact h.fits ho⟩

instance {package? : Option String} {typeName value name : String} [h : Drawn o (value ++ "." ++ name) x] :
    DrawnLine o (objectMethod package? typeName value name) x :=
  ⟨fun ho => by rw [objectMethod, Line.text_reference]; exact h.fits ho⟩

instance {function : String} {arguments : List String} [h : DrawnLine o (importedName (clientAlias o.version) function ++
      "(" ++ (", ".intercalate ("apiClient" :: "apiEndpoint" :: arguments) : String) ++ ")") x] :
    DrawnLine o (clientCall o function arguments) x :=
  h

end Instances

end ApiForge.Generated
