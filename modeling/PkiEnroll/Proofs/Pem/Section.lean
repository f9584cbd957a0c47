import Mathlib.Tactic.Common
import PkiEnroll.Pem.Section
import PkiEnroll.Proofs.Pem.Base64
import PkiEnroll.Proofs.Text.Utf8

namespace PkiEnroll

namespace Bytes

variable {size : Nat} {b piece : Bytes}

theorem flatten_piecesUpTo (hsize : 0 < size) {bound : Nat} (h : b.length ≤ bound) :
    (piecesUpTo size bound b).flatten = b := by
  induction bound generalizing b with
  | zero => exact (List.length_eq_zero_iff.1 (Nat.le_zero.1 h)).symm
  | succ bound ih =>
    cases b with
    | nil => rfl
    | cons c b =>
      have hrest : ((c :: b).drop size).length ≤ bound := by
        rw [List.length_drop]
        omega
      rw [piecesUpTo, List.flatten_cons, ih hrest, List.take_append_drop]
      simp

theorem flatten_pieces (hsize : 0 < size) (b : Bytes) : (pieces size b).flatten = b :=
  flatten_piecesUpTo hsize (Nat.le_refl _)

theorem length_le_of_mem_piecesUpTo {bound : Nat} (h : piece ∈ piecesUpTo size bound b) :
    piece.length ≤ size := by
  induction bound generalizing b with
  | zero => cases h
  | succ bound ih =>
    cases b with
    | nil => cases h
    | cons c b =>
      rw [piecesUpTo, List.mem_cons] at h
      · rcases h with rfl | h
        · exact List.length_take_le size _
        · exact ih h
      · simp

end Bytes

namespace Pem

def unlines (ls : List String) : String := String.join (ls.map (· ++ "\n"))

def IsLine (b : Bytes) : Prop := ∀ c ∈ b, c ≠ 10 ∧ c ≠ 13

instance (b : Bytes) : Decidable (IsLine b) := List.decidableBAll (fun c => c ≠ 10 ∧ c ≠ 13) b

theorem isLine_append {a b : Bytes} : IsLine (a ++ b) ↔ IsLine a ∧ IsLine b := List.forall_mem_append

theorem lines_append {line rest : Bytes} (h : IsLine line) :
    lines (line ++ 10 :: rest) = (line ++ [10]) :: lines rest := by
  induction line with
  | nil => rfl
  | cons c line ih =>
    obtain ⟨hc, hline⟩ := List.forall_mem_cons.1 h
    have hend : ¬(c = 10 ∨ c = 13) := not_or.2 hc
    rw [List.cons_append, lines, if_neg hend, ih hline]
    rfl

theorem ofString_unlines_cons (l : String) (ls : List String) :
    Bytes.ofString (unlines (l :: ls)) = Bytes.ofString l ++ 10 :: Bytes.ofString (unlines ls) := by
  have hend : Bytes.ofString "\n" = [10] := Bytes.ofString_ofList _
  rw [unlines, List.map_cons, String.join_cons, Bytes.ofString_append, Bytes.ofString_append, hend,
    List.append_assoc]
  rfl

theorem lines_unlines {ls : List String} (h : ∀ l ∈ ls, IsLine (Bytes.ofString l)) :
    lines (Bytes.ofString (unlines ls)) = ls.map fun l => Bytes.ofString l ++ [10] := by
  induction ls with
  | nil =>
    have hnone : Bytes.ofString (unlines []) = [] := Bytes.ofString_ofList []
    rw [hnone]
    rfl
  | cons l ls ih =>
    obtain ⟨hl, hls⟩ := List.forall_mem_cons.1 h
    rw [ofString_unlines_cons, lines_append hl, ih hls, List.map_cons]

theorem newline_not_mem {l : String} (h : IsLine (Bytes.ofString l)) : '\n' ∉ l.toList := by
  intro hmem
  have hbyte : (10 : UInt8) ∈ Bytes.ofString (String.ofList l.toList) := by
    rw [Bytes.ofString_ofList]
    exact List.mem_flatMap.2 ⟨'\n', hmem, by decide⟩
  rw [String.ofList_toList] at hbyte
  exact (h 10 hbyte).1 rfl

theorem splitOn_unlines {ls : List String} (h : ∀ l ∈ ls, IsLine (Bytes.ofString l)) :
    (unlines ls).toList.splitOn '\n' = ls.map String.toList ++ [[]] := by
  induction ls with
  | nil => rfl
  | cons l ls ih =>
    obtain ⟨hl, hls⟩ := List.forall_mem_cons.1 h
    have hcons : (unlines (l :: ls)).toList = l.toList ++ '\n' :: (unlines ls).toList := by
      rw [unlines, List.map_cons, String.join_cons, String.toList_append, String.toList_append,
        List.append_assoc]
      rfl
    rw [hcons, List.splitOn_append_cons_self_of_not_mem (newline_not_mem hl), ih hls]
    rfl

def beginLine (l : Label) : String := "-----BEGIN " ++ l.text ++ "-----"

def endLine (l : Label) : String := "-----END " ++ l.text ++ "-----"

theorem ofString_hyphens : Bytes.ofString "-----" = [45, 45, 45, 45, 45] := Bytes.ofString_ofList _

theorem beginMark_eq : beginMark = [45, 45, 45, 45, 45, 66, 69, 71, 73, 78, 32] := Bytes.ofString_ofList _

theorem endMark_eq (label : Bytes) :
    endMark label = [45, 45, 45, 45, 45, 69, 78, 68, 32] ++ label ++ [45, 45, 45, 45, 45] := by
  have hbegin : Bytes.ofString "-----END " = [45, 45, 45, 45, 45, 69, 78, 68, 32] := Bytes.ofString_ofList _
  rw [endMark, hbegin, ofString_hyphens]

theorem ofString_beginLine (l : Label) :
    Bytes.ofString (beginLine l) = beginMark ++ (Bytes.ofString l.text ++ [45, 45, 45, 45, 45]) := by
  rw [beginLine, Bytes.ofString_append, Bytes.ofString_append, ofString_hyphens, List.append_assoc]
  rfl

theorem ofString_endLine (l : Label) : Bytes.ofString (endLine l) = endMark (Bytes.ofString l.text) := by
  rw [endLine, Bytes.ofString_append, Bytes.ofString_append]
  rfl

/-- Where hyphens follow such bytes, none of the hyphens at the end is theirs. -/
def EndsPlain (b : Bytes) : Prop := ∀ c ∈ b.getLast?, c ≠ 45 ∧ c ≠ 10 ∧ c ≠ 13 ∧ c ≠ 32

instance (b : Bytes) : Decidable (EndsPlain b) := Option.decidableForallMem b.getLast?

theorem text_plain (l : Label) : IsLine (Bytes.ofString l.text) ∧ EndsPlain (Bytes.ofString l.text) := by
  obtain ⟨cs, htext, hplain⟩ : ∃ cs, l.text = String.ofList cs ∧
      IsLine (cs.flatMap String.utf8EncodeChar) ∧ EndsPlain (cs.flatMap String.utf8EncodeChar) := by
    cases l <;> exact ⟨_, rfl, by decide, by decide⟩
  rw [htext, Bytes.ofString_ofList]
  exact hplain

theorem length_text_le (l : Label) : l.text.length ≤ 19 := by
  cases l <;> decide

theorem isLine_boundaries (l : Label) :
    IsLine (Bytes.ofString (beginLine l)) ∧ IsLine (Bytes.ofString (endLine l)) := by
  have htext := (text_plain l).1
  rw [ofString_beginLine, ofString_endLine, beginMark_eq, endMark_eq]
  simp only [isLine_append]
  exact ⟨⟨by decide, htext, by decide⟩, ⟨by decide, htext⟩, by decide⟩

theorem length_boundaries_le (l : Label) : (beginLine l).length ≤ 64 ∧ (endLine l).length ≤ 64 := by
  have htext := length_text_le l
  have hbegin : "-----BEGIN ".length = 11 := rfl
  have hend : "-----END ".length = 9 := rfl
  have hhyphens : "-----".length = 5 := rfl
  rw [beginLine, endLine, String.length_append, String.length_append, String.length_append,
    String.length_append, hbegin, hend, hhyphens]
  omega

/-- From such a label on, no more hyphens are counted. -/
theorem trailingHyphens_reverse {count : Nat} {label : Bytes} (h : EndsPlain label) :
    trailingHyphens count label.reverse label.reverse = (count, label.reverse) := by
  unfold EndsPlain at h
  rw [List.getLast?_eq_head?_reverse] at h
  cases hlabel : label.reverse with
  | nil => rfl
  | cons c before =>
    rw [hlabel] at h
    obtain ⟨hhyphen, hblank⟩ := h c rfl
    rw [trailingHyphens, if_neg hhyphen, if_neg (by simpa only [not_or] using hblank)]

theorem labelOf?_begin {label : Bytes} (h : EndsPlain label) :
    labelOf? (beginMark ++ (label ++ [45, 45, 45, 45, 45]) ++ [10]) = some (some label) := by
  have hmark : beginMark.isPrefixOf (beginMark ++ ((label ++ [45, 45, 45, 45, 45]) ++ [10])) = true :=
    List.isPrefixOf_iff_prefix.2 (List.prefix_append _ _)
  have hreversed : ((label ++ [45, 45, 45, 45, 45]) ++ [10]).reverse =
      [10, 45, 45, 45, 45, 45] ++ label.reverse := by
    rw [List.reverse_append, List.reverse_append, ← List.append_assoc]
    rfl
  have hcount : trailingHyphens 0 ([10, 45, 45, 45, 45, 45] ++ label.reverse)
      ([10, 45, 45, 45, 45, 45] ++ label.reverse) = (5, label.reverse) :=
    -- the line end is passed over and the five hyphens are counted
    trailingHyphens_reverse h
  rw [List.append_assoc, labelOf?, if_pos hmark, List.drop_left, hreversed]
  dsimp only
  rw [hcount]
  exact congrArg (some ∘ some) (List.reverse_reverse label)

theorem labelOf?_beginLine (l : Label) :
    labelOf? (Bytes.ofString (beginLine l) ++ [10]) = some (some (Bytes.ofString l.text)) := by
  rw [ofString_beginLine]
  exact labelOf?_begin (text_plain l).2

theorem labelOf?_endLine (l : Label) : labelOf? (Bytes.ofString (endLine l) ++ [10]) = none := by
  have hmark : beginMark.isPrefixOf (endMark (Bytes.ofString l.text) ++ [10]) = false := by
    rw [beginMark_eq, endMark_eq]
    rfl
  rw [ofString_endLine, labelOf?, hmark]
  rfl

theorem endMark_endLine (l : Label) :
    (endMark (Bytes.ofString l.text)).isPrefixOf (Bytes.ofString (endLine l) ++ [10]) = true := by
  rw [ofString_endLine]
  exact List.isPrefixOf_iff_prefix.2 (List.prefix_append _ _)

theorem ofBytes?_text (l : Label) : Label.ofBytes? (Bytes.ofString l.text) = some l := by
  cases l <;> simp [Label.ofBytes?, Label.all, Text.ofString_inj, Label.text]

def asciiText (b : Bytes) : String := String.ofList (b.map fun c => Char.ofNat c.toNat)

def bodyLines (content : Bytes) : List Bytes := Bytes.pieces 64 (Base64.encode content)

def blockLines (s : Section) : List String :=
  beginLine s.label :: ((bodyLines s.content).map asciiText ++ [endLine s.label])

theorem encode_eq_unlines (s : Section) : encode s = unlines (blockLines s) := by
  apply String.toList_inj.1
  simp [encode, unlines, blockLines, bodyLines, beginLine, endLine, asciiText, String.toList_join,
    List.flatMap_map, Function.comp_def]

theorem plain_of_mem_bodyLines {content line : Bytes} (h : line ∈ bodyLines content) {c : UInt8}
    (hc : c ∈ line) : Base64.isBlank c = false ∧ c ≠ 45 ∧ c < 128 := by
  apply Base64.plain_of_mem_encode (b := content)
  rw [← Bytes.flatten_pieces (by decide : 0 < 64) (Base64.encode content)]
  exact List.mem_flatten.2 ⟨line, h, hc⟩

theorem ofString_asciiText {content line : Bytes} (h : line ∈ bodyLines content) :
    Bytes.ofString (asciiText line) = line :=
  Bytes.ofString_ascii fun _ hc => (plain_of_mem_bodyLines h hc).2.2

theorem isLine_of_mem_bodyLines {content line : Bytes} (h : line ∈ bodyLines content) : IsLine line := by
  intro c hc
  have hblank := (plain_of_mem_bodyLines h hc).1
  constructor
  · rintro rfl
    cases hblank
  · rintro rfl
    cases hblank

theorem mem_blockLines_iff {s : Section} {l : String} :
    l ∈ blockLines s ↔
      l = beginLine s.label ∨ (∃ line ∈ bodyLines s.content, asciiText line = l) ∨ l = endLine s.label := by
  rw [blockLines, List.mem_cons, List.mem_append, List.mem_singleton, List.mem_map]

theorem isLine_of_mem_blockLines {s : Section} {l : String} (h : l ∈ blockLines s) :
    IsLine (Bytes.ofString l) := by
  obtain ⟨hbegin, hend⟩ := isLine_boundaries s.label
  rcases mem_blockLines_iff.1 h with rfl | ⟨line, hline, rfl⟩ | rfl
  · exact hbegin
  · rw [ofString_asciiText hline]
    exact isLine_of_mem_bodyLines hline
  · exact hend

theorem length_le_of_mem_blockLines {s : Section} {l : String} (h : l ∈ blockLines s) :
    l.length ≤ 64 := by
  obtain ⟨hbegin, hend⟩ := length_boundaries_le s.label
  rcases mem_blockLines_iff.1 h with rfl | ⟨line, hline, rfl⟩ | rfl
  · exact hbegin
  · rw [asciiText, String.length_ofList, List.length_map]
    exact Bytes.length_le_of_mem_piecesUpTo hline
  · exact hend

theorem isPrefixOf_eq_false {mark line : Bytes} (hmark : mark.head? = some 45) (hline : ∀ c ∈ line, c ≠ 45) :
    mark.isPrefixOf line = false := by
  cases mark with
  | nil => cases hmark
  | cons m mark =>
    obtain rfl : m = 45 := Option.some.inj hmark
    cases line with
    | nil => rfl
    | cons c line =>
      have hc : c ≠ 45 := hline c List.mem_cons_self
      simp [List.isPrefixOf, hc.symm]

theorem head?_marks (label : Bytes) : beginMark.head? = some 45 ∧ (endMark label).head? = some 45 := by
  rw [beginMark_eq, endMark_eq]
  exact ⟨rfl, rfl⟩

/-- Lines without hyphens are gathered. -/
theorem readLines_gather {label gathered : Bytes} {body rest : List Bytes}
    (h : ∀ line ∈ body, ∀ c ∈ line, c ≠ 45) :
    readLines ⟨some label, gathered⟩ (body ++ rest) =
      readLines ⟨some label, gathered ++ body.flatten⟩ rest := by
  induction body generalizing gathered with
  | nil => rw [List.nil_append, List.flatten_nil, List.append_nil]
  | cons line body ih =>
    obtain ⟨hline, hbody⟩ := List.forall_mem_cons.1 h
    have hbegin : labelOf? line = none := by
      rw [labelOf?, isPrefixOf_eq_false (head?_marks label).1 hline]
      rfl
    have hend := isPrefixOf_eq_false (head?_marks label).2 hline
    rw [List.cons_append, readLines, hbegin]
    simp only [hend, Bool.false_eq_true, if_false]
    rw [ih hbody, List.flatten_cons, List.append_assoc]

theorem filter_flatten_bodyLines (content : Bytes) :
    ((bodyLines content).map (· ++ [10])).flatten.filter (fun c => !Base64.isBlank c) =
      Base64.encode content := by
  have hline : ∀ line ∈ bodyLines content,
      (line ++ [10]).filter (fun c => !Base64.isBlank c) = line := by
    intro line hline
    have hkept : line.filter (fun c => !Base64.isBlank c) = line := by
      rw [List.filter_eq_self]
      intro c hc
      rw [(plain_of_mem_bodyLines hline hc).1]
      rfl
    rw [List.filter_append, hkept]
    exact List.append_nil line
  have hlines : ((bodyLines content).map (· ++ [10])).map (List.filter fun c => !Base64.isBlank c) =
      bodyLines content := by
    rw [List.map_map]
    exact (List.map_congr_left hline).trans (List.map_id' _)
  rw [List.filter_flatten, hlines]
  exact Bytes.flatten_pieces (by decide) (Base64.encode content)

theorem readLines_block (s : Section) (rest : List Bytes) :
    readLines ⟨none, []⟩ ((blockLines s).map (fun l => Bytes.ofString l ++ [10]) ++ rest) =
      .ok s :: readLines ⟨none, []⟩ rest := by
  have hbody : ((bodyLines s.content).map asciiText).map (fun l => Bytes.ofString l ++ [10]) =
      (bodyLines s.content).map (· ++ [10]) := by
    rw [List.map_map]
    exact List.map_congr_left fun line hline => congrArg (· ++ [10]) (ofString_asciiText hline)
  have hplain : ∀ line ∈ (bodyLines s.content).map (· ++ [10]), ∀ c ∈ line, c ≠ 45 := by
    intro line hmem c hc
    obtain ⟨line, hline, rfl⟩ := List.mem_map.1 hmem
    rcases List.mem_append.1 hc with hc | hc
    · exact (plain_of_mem_bodyLines hline hc).2.1
    · rw [List.mem_singleton.1 hc]
      decide
  rw [blockLines, List.map_cons, List.map_append, hbody, List.map_singleton, List.cons_append,
    List.append_assoc, readLines, labelOf?_beginLine]
  dsimp only
  rw [readLines_gather hplain, List.nil_append, List.singleton_append, readLines, labelOf?_endLine]
  dsimp only
  rw [if_pos (endMark_endLine s.label), ofBytes?_text]
  dsimp only
  rw [Base64.decode?_of_filter (filter_flatten_bodyLines s.content)]

theorem join_encode (ss : List Section) :
    String.join (ss.map encode) = unlines (ss.flatMap blockLines) := by
  apply String.toList_inj.1
  simp [unlines, String.toList_join, encode_eq_unlines, List.flatMap_map, List.flatMap_assoc]

theorem isLine_of_mem_flatMap {ss : List Section} {l : String} (h : l ∈ ss.flatMap blockLines) :
    IsLine (Bytes.ofString l) := by
  obtain ⟨s, -, hl⟩ := List.mem_flatMap.1 h
  exact isLine_of_mem_blockLines hl

/-- Blocks are read in the order in which they are written, and nothing else is. -/
theorem sections_encode (ss : List Section) :
    sections (Bytes.ofString (String.join (ss.map encode))) = ss.map .ok := by
  rw [sections, join_encode, lines_unlines fun l hl => isLine_of_mem_flatMap hl]
  induction ss with
  | nil => rfl
  | cons s ss ih => rw [List.flatMap_cons, List.map_append, readLines_block, ih, List.map_cons]

theorem length_le_of_mem_splitOn {ss : List Section} {line : List Char}
    (h : line ∈ (String.join (ss.map encode)).toList.splitOn '\n') : line.length ≤ 64 := by
  rw [join_encode, splitOn_unlines fun l hl => isLine_of_mem_flatMap hl, List.mem_append] at h
  rcases h with hline | hlast
  · obtain ⟨l, hl, rfl⟩ := List.mem_map.1 hline
    obtain ⟨s, -, hl⟩ := List.mem_flatMap.1 hl
    exact length_le_of_mem_blockLines hl
  · rw [List.mem_singleton.1 hlast]
    exact Nat.zero_le 64

end Pem

end PkiEnroll
