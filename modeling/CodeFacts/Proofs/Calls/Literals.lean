import CodeFacts.Calls.Docstring
import Mathlib.Data.List.Infix

/-!
# String literals and their contents

Reading the contents of a literal undoes writing them between quotes, whatever letters stand before
the quotes. Three quotes are tried before one, so contents that stand between one quote and another
must not start with the same quote; where each such quote is escaped, they do not.

The contents are read by counting characters. Counting bytes gives the same: the offsets at which a
literal is cut are in range and never divide a character.
-/

namespace CodeFacts.Calls

theorem isQuotedBy_iff {text marker : List Char} :
    isQuotedBy text marker = true ↔
      2 * marker.length ≤ text.length ∧ marker <+: text ∧ marker <:+ text := by
  simp [isQuotedBy, and_assoc]

theorem between_quoted (marker contents : List Char) :
    between (marker ++ contents ++ marker) marker = contents := by
  have length : (marker ++ contents ++ marker).length - 2 * marker.length = contents.length := by
    simp only [List.length_append]
    omega
  rw [between, length, List.append_assoc, List.drop_left, List.take_left]

theorem isQuotedBy_quoted (marker contents : List Char) :
    isQuotedBy (marker ++ contents ++ marker) marker = true := by
  refine isQuotedBy_iff.mpr ⟨?_, ?_, List.suffix_append _ _⟩
  · simp only [List.length_append]
    omega
  · rw [List.append_assoc]
    exact List.prefix_append _ _

/-- A text between markers is made of the marker, what stands between, and the marker again. -/
theorem eq_append_of_isQuotedBy {text marker : List Char} (quoted : isQuotedBy text marker = true) :
    text = marker ++ between text marker ++ marker := by
  rcases isQuotedBy_iff.mp quoted with ⟨long, ⟨rest, rfl⟩, suffix⟩
  -- The rest is at least as long as the marker, so the marker at the end lies in it.
  have within : marker <:+ rest := by
    apply List.suffix_of_suffix_length_le suffix (List.suffix_append marker rest)
    simp only [List.length_append] at long
    omega
  rcases within with ⟨contents, rfl⟩
  rw [← List.append_assoc, between_quoted]

theorem not_isQuotedBy_of_head {first other : Char} {rest contents rest' : List Char}
    (different : other ≠ first) :
    ¬isQuotedBy (first :: rest ++ contents ++ first :: rest) (other :: rest') = true := by
  intro quoted
  exact different (List.cons_prefix_cons.mp (isQuotedBy_iff.mp quoted).2.1).1

/-- Contents that do not start with a quote are not taken for the inside of three quotes. -/
theorem not_isQuotedBy_three {quote : Char} {contents : List Char}
    (other : contents.head? ≠ some quote) :
    ¬isQuotedBy ([quote] ++ contents ++ [quote]) [quote, quote, quote] = true := by
  intro quoted
  rcases isQuotedBy_iff.mp quoted with ⟨long, starts, -⟩
  cases contents with
  | nil => simp at long
  | cons first rest =>
      have second := (List.cons_prefix_cons.mp (List.cons_prefix_cons.mp starts).2).1
      exact other (congrArg some second.symm)

/-- Every occurrence of a quote stands behind a backslash. -/
def OccursEscaped (quote : Char) (contents : List Char) : Prop :=
  ∀ place < contents.length, contents[place]? = some quote →
    0 < place ∧ contents[place - 1]? = some '\\'

instance (quote : Char) (contents : List Char) : Decidable (OccursEscaped quote contents) :=
  inferInstanceAs (Decidable (∀ place < contents.length, _ → _))

theorem OccursEscaped.head_ne {quote : Char} {contents : List Char}
    (escaped : OccursEscaped quote contents) : contents.head? ≠ some quote := by
  intro isHead
  rw [List.head?_eq_getElem?] at isHead
  rcases List.getElem?_eq_some_iff.mp isHead with ⟨nonempty, -⟩
  exact absurd (escaped 0 nonempty isHead).1 (lt_irrefl 0)

/-- The marker that quotes a text is the first one found at both of its ends. -/
theorem find?_quoteMarkers {marker contents : List Char} (isMarker : marker ∈ quoteMarkers)
    (other : ∀ quote, marker = [quote] → contents.head? ≠ some quote) :
    quoteMarkers.find? (isQuotedBy (marker ++ contents ++ marker)) = some marker := by
  have quoted := isQuotedBy_quoted marker contents
  have differ : '"' ≠ '\'' := by decide
  simp only [quoteMarkers, List.mem_cons, List.not_mem_nil, or_false] at isMarker
  rcases isMarker with rfl | rfl | rfl | rfl
  · exact List.find?_cons_of_pos quoted
  · rw [quoteMarkers, List.find?_cons_of_neg (not_isQuotedBy_of_head differ),
      List.find?_cons_of_pos quoted]
  · rw [quoteMarkers, List.find?_cons_of_neg (not_isQuotedBy_three (other '"' rfl)),
      List.find?_cons_of_neg (not_isQuotedBy_of_head differ.symm), List.find?_cons_of_pos quoted]
  · rw [quoteMarkers, List.find?_cons_of_neg (not_isQuotedBy_of_head differ),
      List.find?_cons_of_neg (not_isQuotedBy_three (other '\'' rfl)),
      List.find?_cons_of_neg (not_isQuotedBy_of_head differ), List.find?_cons_of_pos quoted]

/-- Letters before the quotes are left out, and no more, since a quote is none of them. -/
theorem dropWhile_isLiteralMark {marks marker : List Char} (text : List Char)
    (areMarks : ∀ char ∈ marks, isLiteralMark char = true) (isMarker : marker ∈ quoteMarkers) :
    (marks ++ (marker ++ text)).dropWhile isLiteralMark = marker ++ text := by
  rw [List.dropWhile_append_of_pos areMarks]
  simp only [quoteMarkers, List.mem_cons, List.not_mem_nil, or_false] at isMarker
  rcases isMarker with rfl | rfl | rfl | rfl <;> exact List.dropWhile_cons_of_neg (by decide)

theorem literalContents_quoted {marks marker contents : String}
    (areMarks : ∀ char ∈ marks.toList, isLiteralMark char = true)
    (isMarker : marker.toList ∈ quoteMarkers)
    (other : ∀ quote, marker.toList = [quote] → contents.toList.head? ≠ some quote) :
    literalContents (marks ++ marker ++ contents ++ marker) = Text.trim contents := by
  have unmarked := dropWhile_isLiteralMark (contents.toList ++ marker.toList) areMarks isMarker
  have found := find?_quoteMarkers isMarker other
  rw [List.append_assoc] at found
  simp only [literalContents, String.toList_append, List.append_assoc, unmarked, found, Text.trim]
  rw [← List.append_assoc, between_quoted]

section Bytes

/-- The number of bytes of a text. -/
def byteLength (chars : List Char) : Nat :=
  (String.ofList chars).utf8ByteSize

@[simp]
theorem byteLength_append (first second : List Char) :
    byteLength (first ++ second) = byteLength first + byteLength second := by
  simp [byteLength, String.ofList_append]

theorem byteLength_eq_zero_iff {chars : List Char} : byteLength chars = 0 ↔ chars.length = 0 := by
  simp [byteLength]

/-- The text between two byte offsets. There is none unless both of them are within the text and
between two characters, and the first is not behind the second. -/
def slice? (text : String) (start stop : Nat) : Option String := do
  let first ← text.pos? ⟨start⟩
  let last ← text.pos? ⟨stop⟩
  if first ≤ last then some (text.extract first last) else none

theorem pos?_eq_some {text : String} {offset : String.Pos.Raw} (valid : offset.IsValid text) :
    text.pos? offset = some (text.pos offset valid) := by
  rw [String.pos?, String.Slice.pos?,
    dif_pos (String.Pos.Raw.isValidForSlice_eq_true_iff.mpr valid.toSlice)]
  rfl

/-- Cutting a text where its parts meet gives the part in the middle. -/
theorem slice?_append (front middle back : String) :
    slice? (front ++ middle ++ back) front.utf8ByteSize
      (front.utf8ByteSize + middle.utf8ByteSize) = some middle := by
  have firstValid : (⟨front.utf8ByteSize⟩ : String.Pos.Raw).IsValid (front ++ middle ++ back) :=
    String.Pos.Raw.isValid_iff_exists_append.mpr
      ⟨front, middle ++ back, String.append_assoc, rfl⟩
  have lastValid : (⟨front.utf8ByteSize + middle.utf8ByteSize⟩ : String.Pos.Raw).IsValid
      (front ++ middle ++ back) :=
    String.Pos.Raw.isValid_iff_exists_append.mpr
      ⟨front ++ middle, back, rfl, by simp [String.Pos.Raw.ext_iff]⟩
  have firstSplits : (String.pos _ _ firstValid).Splits front (middle ++ back) :=
    ⟨String.append_assoc, rfl⟩
  have lastSplits : (String.pos _ _ lastValid).Splits (front ++ middle) back :=
    ⟨rfl, by simp [String.Pos.Raw.ext_iff]⟩
  rcases String.copy_slice_eq_iff_splits.mpr ⟨front, back, firstSplits, lastSplits⟩ with
    ⟨ordered, cut⟩
  rw [← String.extract_eq_copy_slice] at cut
  simp [slice?, pos?_eq_some firstValid, pos?_eq_some lastValid, ordered, cut]

/-- Whether a text starts and ends with a marker, the two not overlapping in bytes. -/
def isQuotedInBytes (text marker : List Char) : Bool :=
  decide (2 * byteLength marker ≤ byteLength text) && marker.isPrefixOf text &&
    marker.isSuffixOf text

/-- The contents of a literal, cut out between byte offsets. There are none if a cut fails. -/
def slicedContents? (literal : String) : Option String :=
  let text := literal.toList.dropWhile isLiteralMark
  match quoteMarkers.find? (isQuotedInBytes text) with
  | some marker =>
    (slice? (String.ofList text) (byteLength marker) (byteLength text - byteLength marker)).map
      Text.trim
  | none => some (Text.trim (String.ofList text))

/-- A text that starts and ends with a marker is too short for two of them in bytes exactly if it is
in characters: what follows the first marker is then only an end of the marker. -/
theorem two_mul_byteLength_le_iff {text marker : List Char} (starts : marker <+: text)
    (ends : marker <:+ text) :
    2 * byteLength marker ≤ byteLength text ↔ 2 * marker.length ≤ text.length := by
  rcases starts with ⟨rest, rfl⟩
  rcases List.suffix_or_suffix_of_suffix ends (List.suffix_append marker rest) with
    ⟨contents, rfl⟩ | ⟨front, rfl⟩
  · simp only [byteLength_append, List.length_append]
    omega
  · have empty : byteLength front = 0 ↔ front.length = 0 := byteLength_eq_zero_iff
    simp only [byteLength_append, List.length_append]
    omega

theorem isQuotedInBytes_eq (text marker : List Char) :
    isQuotedInBytes text marker = isQuotedBy text marker := by
  rw [Bool.eq_iff_iff, isQuotedBy_iff]
  simp only [isQuotedInBytes, Bool.and_eq_true, decide_eq_true_eq, List.isPrefixOf_iff_prefix,
    List.isSuffixOf_iff_suffix, and_assoc]
  apply and_congr_left
  rintro ⟨starts, ends⟩
  exact two_mul_byteLength_le_iff starts ends

theorem slice?_of_isQuotedBy {text marker : List Char} (quoted : isQuotedBy text marker = true) :
    slice? (String.ofList text) (byteLength marker) (byteLength text - byteLength marker) =
      some (String.ofList (between text marker)) := by
  have whole := eq_append_of_isQuotedBy quoted
  have stop : byteLength text - byteLength marker =
      byteLength marker + byteLength (between text marker) := by
    have size := congrArg byteLength whole
    simp only [byteLength_append] at size
    omega
  have cut := slice?_append (String.ofList marker) (String.ofList (between text marker))
    (String.ofList marker)
  rwa [← String.ofList_append, ← String.ofList_append, ← whole, ← byteLength, ← byteLength,
    ← stop] at cut

/-- Every cut succeeds, and cutting between bytes reads what counting characters reads. -/
theorem slicedContents?_eq (literal : String) :
    slicedContents? literal = some (literalContents literal) := by
  unfold slicedContents? literalContents
  simp only [funext (isQuotedInBytes_eq _)]
  cases found : quoteMarkers.find? (isQuotedBy (literal.toList.dropWhile isLiteralMark)) with
  | none => simp [Text.trim]
  | some marker => simp [slice?_of_isQuotedBy (List.find?_some found), Text.trim]

end Bytes

/-- Reading a literal undoes quoting: any letters of a prefix, any of the four markers, any contents
and the marker again give the contents without white space at the ends, as long as contents between
markers of one quote escape this quote. And whatever text is read, it is never cut outside its
bounds or within a character. -/
theorem literalContents_undoes_quoting :
    (∀ marks marker contents : String, (∀ char ∈ marks.toList, char ∈ "rRbBuUfF".toList) →
        marker ∈ ["\"\"\"", "'''", "\"", "'"] →
        (∀ quote, marker = String.singleton quote → OccursEscaped quote contents.toList) →
        literalContents (marks ++ marker ++ contents ++ marker) = Text.trim contents) ∧
      ∀ literal, slicedContents? literal = some (literalContents literal) := by
  refine ⟨?_, slicedContents?_eq⟩
  intro marks marker contents areMarks isMarker escaped
  refine literalContents_quoted ?_ ?_ ?_
  · simpa [isLiteralMark] using areMarks
  · have listed : quoteMarkers = ["\"\"\"", "'''", "\"", "'"].map String.toList := rfl
    rw [listed]
    exact List.mem_map_of_mem isMarker
  · intro quote single
    refine (escaped quote ?_).head_ne
    rw [← String.toList_inj, single, String.toList_singleton]

theorem literalContents_undoes_quoting_of_escaped :
    OccursEscaped '\'' " caf\\'é ".toList ∧
      literalContents "Rb' caf\\'é '" = "caf\\'é" := by
  have escaped : OccursEscaped '\'' " caf\\'é ".toList := by decide
  refine ⟨escaped, ?_⟩
  have undone := literalContents_undoes_quoting.1 "Rb" "'" " caf\\'é " (by simp) (by simp) ?_
  · exact undone
  · intro quote single
    have same : ['\''] = [quote] := by simpa using congrArg String.toList single
    rwa [← List.singleton_inj.mp same]

end CodeFacts.Calls
