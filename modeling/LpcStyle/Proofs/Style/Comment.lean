import Mathlib.Tactic
import LpcStyle.Proofs.Layout.Layouts
import LpcStyle.Proofs.Text.Closing
import LpcStyle.Proofs.Text.Finish
import LpcStyle.Proofs.Token.Calls
import LpcStyle.Style.Comment
import LpcStyle.Style.Options

/-!
What is read of a printed block comment. Every later line is printed behind a star, at the indentation where the comment
stands; and when it is read, this star is taken off together with all stars and blanks that follow. So a headline of four
stars loses them, and only such a line changes. Main statements:
- `LaidComment.reread`: a printed comment is a comment again, and which lines are read of it;
- `blockComment_reflow`: the same for the comments of a text, wherever they are printed.
-/

namespace LpcStyle

open Text

namespace Style

/-! ## Lines of a comment -/

/-- a line without the stars and blanks that it starts with -/
def unstarred (line : List Char) : List Char := line.dropWhile fun c => c == '*' || isBlank c

/-- a line that starts with four stars -/
def isHeadline (line : List Char) : Bool := startsWith "****".toList line

theorem commentLine_eq (line : List Char) :
    commentLine line = if isHeadline (trim line) then trim line else unstarred (trim line) := rfl

/-- blanks around a line do not matter -/
theorem commentLine_of_trim {line line' : List Char} (h : trim line = trim line') : commentLine line = commentLine line' := by
  rw [commentLine_eq, commentLine_eq, h]

theorem not_isHeadline_unstarred (line : List Char) : isHeadline (unstarred line) = false := by
  have hhead := head?_dropWhile (p := fun c => c == '*' || isBlank c) line
  cases hline : unstarred line with
  | nil => rfl
  | cons c rest =>
    have hc := hhead c (by change c ∈ (unstarred line).head?; rw [hline]; rfl)
    simp only [Bool.or_eq_false_iff, beq_eq_false_iff_ne] at hc
    simp [isHeadline, startsWith, List.isPrefixOf_cons_cons, hc.1.symm]

theorem unstarred_unstarred (line : List Char) : unstarred (unstarred line) = unstarred line :=
  dropWhile_eq_self (head?_dropWhile line)

theorem trimmed_unstarred {line : List Char} (h : Trimmed line) : Trimmed (unstarred line) := by
  refine ⟨fun c hc => ?_, fun c hc => ?_⟩
  · have := head?_dropWhile line c hc
    simp only [Bool.or_eq_false_iff] at this
    exact this.2
  · obtain ⟨front, hfront⟩ : unstarred line <:+ line := List.dropWhile_suffix _
    refine h.2 c ?_
    have hne : unstarred line ≠ [] := by
      intro hnil
      simp [hnil] at hc
    rw [← hfront, List.getLast?_append_of_ne_nil _ hne]
    exact hc

theorem trimmed_commentLine (line : List Char) : Trimmed (commentLine line) := by
  rw [commentLine_eq]
  split
  · exact trimmed_trim line
  · exact trimmed_unstarred (trimmed_trim line)

/-- a line that is no headline starts with neither star nor blank -/
theorem unstarred_commentLine {line : List Char} (h : isHeadline (commentLine line) = false) :
    unstarred (commentLine line) = commentLine line := by
  rw [commentLine_eq] at h ⊢
  split
  · next hhead => simp [hhead] at h
  · exact unstarred_unstarred _

theorem commentLine_commentLine (line : List Char) : commentLine (commentLine line) = commentLine line := by
  rw [commentLine_eq (commentLine line), (trimmed_commentLine line).trim_eq]
  split
  · rfl
  · next h => exact unstarred_commentLine (by simpa using h)

/-- a line with the star that it is printed with -/
def starred (line : List Char) : List Char := '*' :: if line.isEmpty then [] else ' ' :: line

/-- a printed line loses the star before it and all stars that follow -/
theorem commentLine_starred {line gap gap' : List Char} (hline : Trimmed line) (hgap : ∀ c ∈ gap, isBlank c = true)
    (hgap' : ∀ c ∈ gap', isBlank c = true) : commentLine (gap ++ starred line ++ gap') = unstarred line := by
  rw [commentLine_of_trim (trim_blanks (starred line) hgap hgap')]
  cases line with
  | nil => decide
  | cons c rest =>
    have htrim : trim ('*' :: ' ' :: c :: rest) = '*' :: ' ' :: c :: rest :=
      Trimmed.trim_eq ⟨by simpa using by decide, by simpa using hline.2⟩
    have hhead : isHeadline ('*' :: ' ' :: c :: rest) = false := by
      simp [isHeadline, startsWith, List.isPrefixOf_cons_cons]
    have hspace : isBlank ' ' = true := by decide
    change commentLine ('*' :: ' ' :: c :: rest) = unstarred (c :: rest)
    rw [commentLine_eq, htrim, hhead]
    simp [unstarred, hspace]

/-! ## Rows of a comment -/

/-- more than one line has text -/
def severalLines (lines : List (List Char)) : Bool := 1 < (lines.filter (!·.isEmpty)).length

/-- what follows the opening mark on the first row -/
def firstRow (line : List Char) : List Char := if line.isEmpty then [] else ' ' :: line

/-- the row of a comment with one line of text, or none -/
def onlyRow (body : List Char) : List Char :=
  if body.isEmpty then "/* */".toList else "/* ".toList ++ body ++ " */".toList

/-- the rows of a comment after the first, each at an indentation of its own -/
inductive LaidRows : List (List Char) → List (List Char) → Prop
  | last (n : Nat) (line : List Char) :
      LaidRows [line] [List.replicate n ' ' ++ ((if line.isEmpty then [] else " * ".toList ++ line) ++ " */".toList)]
  | row (n : Nat) (line : List Char) {lines rows : List (List Char)} (h : LaidRows lines rows) :
      LaidRows (line :: lines) ((List.replicate n ' ' ++ (" * ".toList ++ line)) :: rows)

/-- the rows of a comment with these lines -/
inductive LaidComment : List (List Char) → List (List Char) → Prop
  | several {first : List Char} {later rows : List (List Char)} (h : severalLines (first :: later) = true)
      (hrows : LaidRows later rows) : LaidComment (first :: later) (("/*".toList ++ firstRow first) :: rows)
  | few {lines : List (List Char)} (h : ¬severalLines lines = true) : LaidComment lines [onlyRow lines.flatten]

theorem later_ne_nil {first : List Char} {later : List (List Char)} (h : severalLines (first :: later) = true) :
    later ≠ [] := by
  rintro rfl
  simp only [severalLines, List.filter_cons, List.filter_nil] at h
  split at h <;> simp at h

theorem exists_blockCommentLines (text : List Char) : ∃ first later, blockCommentLines text = first :: later := by
  cases hlines : blockCommentLines text with
  | nil => exact absurd (List.map_eq_nil_iff.1 hlines) (splitOn_ne_nil _ _)
  | cons first later => exact ⟨first, later, rfl⟩

namespace LaidRows

variable {lines rows : List (List Char)}

theorem ne_nil (h : LaidRows lines rows) : lines ≠ [] ∧ rows ≠ [] := by
  cases h <;> simp

theorem oneLine (h : LaidRows lines rows) (hlines : ∀ line ∈ lines, '\n' ∉ line) : ∀ row ∈ rows, '\n' ∉ row := by
  induction h with
  | last n line =>
    have hline := hlines line List.mem_cons_self
    rw [List.forall_mem_singleton]
    split <;> simp [hline]
  | row n line h ih =>
    obtain ⟨hline, hrest⟩ := List.forall_mem_cons.1 hlines
    exact List.forall_mem_cons.2 ⟨by simp [hline], ih hrest⟩

/-- the last row ends with the closing mark -/
theorem closes (h : LaidRows lines rows) : ∃ rows' front, rows = rows' ++ [front ++ ['/']] := by
  induction h with
  | last n line =>
    exact ⟨[], List.replicate n ' ' ++ ((if line.isEmpty then [] else " * ".toList ++ line) ++ [' ', '*']), by simp⟩
  | row n line h ih =>
    obtain ⟨rows', front, rfl⟩ := ih
    exact ⟨(List.replicate n ' ' ++ (" * ".toList ++ line)) :: rows', front, by rw [List.cons_append]⟩

end LaidRows

namespace LaidComment

variable {lines rows : List (List Char)}

theorem oneLine (h : LaidComment lines rows) (hlines : ∀ line ∈ lines, '\n' ∉ line) : ∀ row ∈ rows, '\n' ∉ row := by
  cases h with
  | several hmany hrows =>
    obtain ⟨hfirst, hlater⟩ := List.forall_mem_cons.1 hlines
    refine List.forall_mem_cons.2 ⟨?_, hrows.oneLine hlater⟩
    rw [firstRow]
    split <;> simp [hfirst]
  | few hfew =>
    have hbody : '\n' ∉ lines.flatten := by
      intro hmem
      obtain ⟨line, hline, hfeed⟩ := List.mem_flatten.1 hmem
      exact hlines line hline hfeed
    rw [List.forall_mem_singleton, onlyRow]
    split
    · decide
    · simpa using hbody

theorem closes (h : LaidComment lines rows) : ∃ rows' front, rows = rows' ++ [front ++ ['/']] := by
  cases h with
  | several hmany hrows =>
    obtain ⟨rows', front, rfl⟩ := hrows.closes
    exact ⟨_ :: rows', front, rfl⟩
  | few hfew =>
    rw [onlyRow]
    split
    · exact ⟨[], "/* *".toList, rfl⟩
    · exact ⟨[], "/* ".toList ++ lines.flatten ++ [' ', '*'], by simp⟩

theorem opens (h : LaidComment lines rows) : ∃ row rows', rows = ('/' :: row) :: rows' := by
  cases h with
  | several hmany hrows => exact ⟨_, _, rfl⟩
  | few hfew =>
    rw [onlyRow]
    split
    · exact ⟨_, _, rfl⟩
    · exact ⟨_, _, rfl⟩

/-- no blank stands around a comment -/
theorem trimmed (h : LaidComment lines rows) : Trimmed (join ['\n'] rows) := by
  refine ⟨fun c hc => ?_, fun c hc => ?_⟩
  · obtain ⟨row, rows', rfl⟩ := h.opens
    obtain rfl : '/' = c := by
      cases rows' with
      | nil => simpa [join] using hc
      | cons next rows' => simpa [join_cons] using hc
    decide
  · obtain ⟨rows', front, rfl⟩ := h.closes
    obtain rfl : '/' = c := by
      by_cases hnil : rows' = []
      · subst hnil
        simpa [join] using hc
      · rw [join_concat hnil, ← List.cons_append, ← List.append_assoc, List.getLast?_concat] at hc
        exact Option.some.inj hc
    decide

end LaidComment

/-! ## Layouts of a comment -/

theorem rows_of_lays {lines : List (List Char)} {flat : Bool} {t : List Char} (hne : lines ≠ [])
    (h : (Doc.concat (laterCommentLines lines)).Lays flat t) :
    ∃ rows, LaidRows lines rows ∧ t ++ " */".toList = '\n' :: join ['\n'] rows := by
  have hnil {t : List Char} (h : (Doc.concat []).Lays flat t) : t = [] := by simpa [Doc.concat] using h
  fun_induction laterCommentLines lines generalizing t with
  | case1 => exact absurd rfl hne
  | case2 last hempty =>
    obtain ⟨x, y, rfl, hx, hy⟩ := Doc.lays_concat_cons.1 h
    obtain ⟨-, n, rfl⟩ := Doc.lays_hardline.1 hx
    obtain rfl := hnil hy
    exact ⟨_, .last n last, by simp [join, hempty]⟩
  | case3 last hfull =>
    obtain ⟨x, rest, rfl, hx, hrest⟩ := Doc.lays_concat_cons.1 h
    obtain ⟨x', y, rfl, hx', hy⟩ := Doc.lays_concat_cons.1 hrest
    obtain ⟨-, n, rfl⟩ := Doc.lays_hardline.1 hx
    obtain rfl := Doc.lays_word.1 hx'
    obtain rfl := hnil hy
    exact ⟨_, .last n last, by simp [join, hfull]⟩
  | case4 line lines hlines ih =>
    obtain ⟨x, rest, rfl, hx, hrest⟩ := Doc.lays_concat_cons.1 h
    obtain ⟨x', y, rfl, hx', hy⟩ := Doc.lays_concat_cons.1 hrest
    obtain ⟨-, n, rfl⟩ := Doc.lays_hardline.1 hx
    obtain rfl := Doc.lays_word.1 hx'
    obtain ⟨rows, hrows, hflat⟩ := ih hlines hy
    refine ⟨_, .row n line hrows, ?_⟩
    rw [join_cons _ _ hrows.ne_nil.2]
    simp only [List.append_assoc, hflat]
    simp

/-- **Every layout of a comment** stands in rows, whatever the indentation. -/
theorem laidComment_of_lays {text layout : List Char} {flat : Bool} (h : (blockComment text).Lays flat layout) :
    ∃ rows, LaidComment (blockCommentLines text) rows ∧ layout = join ['\n'] rows := by
  obtain ⟨first, later, hlines⟩ := exists_blockCommentLines text
  rw [blockComment, hlines] at h
  rw [hlines]
  by_cases hmany : severalLines (first :: later) = true
  · have hlength : ¬((first :: later).filter (!·.isEmpty)).length ≤ 1 := by simpa [severalLines] using hmany
    rw [if_neg hlength] at h
    obtain ⟨x, y, rfl, hx, hy⟩ := Doc.lays_concat_append.1 h
    obtain ⟨opening, later', rfl, hopening, hlater⟩ := Doc.lays_concat_append.1 hx
    obtain ⟨rows, hrows, hflat⟩ := rows_of_lays (later_ne_nil hmany) hlater
    obtain rfl : y = " */".toList := by simpa [Doc.concat] using hy
    obtain rfl : opening = "/*".toList ++ firstRow first := by
      rw [firstRow]
      by_cases hempty : first.isEmpty = true
      · simpa [hempty, Doc.concat] using hopening
      · simpa [hempty, Doc.concat, Doc.lays_andThen] using hopening
    refine ⟨_, .several hmany hrows, ?_⟩
    rw [join_cons _ _ hrows.ne_nil.2, List.append_assoc, hflat]
    simp
  · have hlength : ((first :: later).filter (!·.isEmpty)).length ≤ 1 := by simpa [severalLines] using hmany
    rw [if_pos hlength] at h
    exact ⟨_, .few hmany, Doc.lays_word.1 h⟩

/-! ## Texts of a comment -/

/-- a line as it is read of a comment: a text of its own without a closing mark -/
structure CommentText (line : List Char) : Prop where
  trimmed : Trimmed line
  oneLine : '\n' ∉ line
  unclosed : Unclosed line
  stable : commentLine line = line

theorem commentLine_within (line : List Char) : commentLine line <:+: line := by
  rw [commentLine_eq]
  split
  · exact trim_within line
  · exact (List.dropWhile_suffix _).isInfix.trans (trim_within line)

/-- the lines of a comment -/
def linesOf (inner : List Char) : List (List Char) := (lines inner).map commentLine

theorem blockCommentLines_marked (inner : List Char) : blockCommentLines (marked inner) = linesOf inner := by
  have hfront : dropFront? "/*".toList (marked inner) = some (inner ++ "*/".toList) :=
    dropFront?_eq_some_iff.2 (by simp [marked])
  rw [blockCommentLines, hfront, Option.getD_some, dropBack?_eq_some_iff.2 rfl, Option.getD_some, linesOf]

theorem commentText_of_mem {inner line : List Char} (h : Unclosed inner) (hline : line ∈ linesOf inner) :
    CommentText line := by
  obtain ⟨piece, hpiece, rfl⟩ := List.mem_map.1 hline
  have hwithin := commentLine_within piece
  refine ⟨trimmed_commentLine piece, fun hfeed => ?_, (h.within (within_of_mem_lines hpiece)).within hwithin,
    commentLine_commentLine piece⟩
  simpa using not_of_mem_splitOn hpiece '\n' (hwithin.mem hfeed)

theorem commentText_nil : CommentText [] := ⟨⟨by simp, by simp⟩, by simp, .nil, rfl⟩

/-- if at most one line has text, it is all there is -/
theorem commentText_flatten {ls : List (List Char)} (h : ∀ line ∈ ls, CommentText line)
    (hfew : ¬severalLines ls = true) : CommentText ls.flatten := by
  have hlength : (ls.filter (!·.isEmpty)).length ≤ 1 := by simpa [severalLines] using hfew
  rw [← List.flatten_filter_not_isEmpty]
  have hmem : ∀ line ∈ ls.filter (!·.isEmpty), CommentText line := fun line hline => h line (List.mem_of_mem_filter hline)
  generalize ls.filter (!·.isEmpty) = texts at hlength hmem ⊢
  obtain _ | ⟨line, _ | ⟨next, rest⟩⟩ := texts
  · exact commentText_nil
  · simpa using hmem line (by simp)
  · simp at hlength

/-! ## Rows that are read again -/

/-- a row between the marks of a comment, of which a line is read -/
structure RowOf (row line : List Char) : Prop where
  oneLine : '\n' ∉ row
  unclosed : Unclosed row
  read : commentLine row = line

/-- spaces and tabs -/
def Margin (gap : List Char) : Prop := ∀ c ∈ gap, c = ' ' ∨ c = '	'

namespace Margin

variable {gap : List Char}

theorem blank (h : Margin gap) : ∀ c ∈ gap, isBlank c = true := by
  intro c hc
  rcases h c hc with rfl | rfl <;> decide

theorem not_mem (h : Margin gap) {c : Char} (hc : isBlank c = false ∨ c = '\n') : c ∉ gap := by
  intro hmem
  rcases h c hmem with rfl | rfl <;> rcases hc with hc | hc <;> revert hc <;> decide

theorem unclosed (h : Margin gap) : Unclosed gap := unclosed_of_not_mem (h.not_mem (.inl rfl))

end Margin

theorem unclosed_starred {line : List Char} (h : Unclosed line) : Unclosed (starred line) := by
  rw [starred]
  split
  · exact .singleton _
  · exact (h.cons fun y _ hy => by simp at hy).cons fun y hy hslash => by simp_all

/-- a row of blanks -/
theorem rowOf_margin {gap : List Char} (h : Margin gap) : RowOf gap [] := by
  refine ⟨h.not_mem (.inr rfl), h.unclosed, ?_⟩
  have htrim : trim (gap ++ [] ++ []) = trim [] := trim_blanks [] h.blank (by simp)
  rw [List.append_nil, List.append_nil] at htrim
  rw [commentLine_of_trim htrim]
  decide

/-- a row with a star before its text -/
theorem rowOf_starred {gap gap' line : List Char} (hgap : Margin gap) (hgap' : Margin gap') (h : CommentText line) :
    RowOf (gap ++ starred line ++ gap') (unstarred line) := by
  refine ⟨?_, ?_, commentLine_starred h.trimmed hgap.blank hgap'.blank⟩
  · have hstarred : '\n' ∉ starred line := by
      rw [starred]
      split <;> simp [h.oneLine]
    simp [hgap.not_mem (.inr rfl), hgap'.not_mem (.inr rfl), hstarred]
  · refine (hgap.unclosed.append (unclosed_starred h.unclosed) (.inl fun hlast => ?_)).append hgap'.unclosed
      (.inr fun hhead => ?_)
    · exact hgap.not_mem (c := '*') (.inl rfl) (List.mem_of_mem_getLast? hlast)
    · exact hgap'.not_mem (c := '/') (.inl rfl) (List.mem_of_mem_head? hhead)

/-- the first row, behind the opening mark -/
theorem CommentText.rowOf_firstRow {line : List Char} (h : CommentText line) : RowOf (firstRow line) line := by
  rw [firstRow]
  split
  · next hempty =>
    obtain rfl := List.isEmpty_iff.1 hempty
    exact ⟨by simp, .nil, rfl⟩
  · refine ⟨by simpa using h.oneLine, h.unclosed.cons fun y _ hy => by simp at hy, ?_⟩
    have htrim : trim ([' '] ++ line ++ []) = trim line := trim_blanks line (List.forall_mem_singleton.2 rfl) (by simp)
    rw [List.append_nil, List.singleton_append] at htrim
    rw [commentLine_of_trim htrim, h.stable]

theorem CommentText.trimmed_firstRow {line : List Char} (h : CommentText line) :
    Trimmed ("/*".toList ++ firstRow line) := by
  rw [firstRow]
  split
  · exact ⟨by simpa using by decide, by simpa using by decide⟩
  · next hline =>
    have hne : line ≠ [] := fun hnil => hline (by simp [hnil])
    refine ⟨by simpa using by decide, ?_⟩
    rw [← List.singleton_append, ← List.append_assoc, List.getLast?_append_of_ne_nil _ hne]
    exact h.trimmed.2

theorem linesOf_join {rows ls : List (List Char)} (hne : rows ≠ []) (h : List.Forall₂ RowOf rows ls) :
    Unclosed (join ['\n'] rows) ∧ linesOf (join ['\n'] rows) = ls := by
  have hfacts : (∀ row ∈ rows, '\n' ∉ row ∧ Unclosed row) ∧ rows.map commentLine = ls := by
    clear hne
    induction h with
    | nil => simp
    | cons hrow _ ih => exact ⟨List.forall_mem_cons.2 ⟨⟨hrow.oneLine, hrow.unclosed⟩, ih.1⟩, by simp [hrow.read, ih.2]⟩
  refine ⟨unclosed_join fun row hrow => (hfacts.1 row hrow).2, ?_⟩
  rw [linesOf, lines_join hne fun row hrow => (hfacts.1 row hrow).1, hfacts.2]

/-! ## Finished rows -/

/-- what a later row starts with when it is finished -/
def margin (o : Options) (n : Nat) : List Char := Layout.indented o.useTabs o.tabWidth (List.replicate n ' ' ++ [' '])

theorem margin_margin (o : Options) (n : Nat) : Margin (margin o n) := by
  intro c hc
  rw [margin, ← List.replicate_succ', Layout.indented] at hc
  split at hc
  · simp only [Layout.tabbed, List.mem_append, List.mem_replicate] at hc
    rcases hc with (hc | hc) | hc
    · exact .inr hc.2
    · exact .inl hc.2
    · exact .inl (List.eq_of_mem_replicate (List.mem_of_mem_drop hc))
  · exact .inl (List.eq_of_mem_replicate hc)

variable (o : Options)

/-- a row that starts and ends without a blank stays as it is -/
theorem finishLine_trimmed {row : List Char} (h : Trimmed row) : Layout.finishLine o.useTabs o.tabWidth row = row := by
  have hend : trimEnd row = row := by
    rw [trimEnd, dropEndWhile, dropWhile_eq_self (by simpa using h.2), List.reverse_reverse]
  have hhead : row.head? ≠ some ' ' := by
    intro hspace
    exact absurd (h.1 ' ' hspace) (by decide)
  rw [Layout.finishLine_eq, hend, Layout.indented_solid _ _ hhead]

theorem trimEnd_starred {line : List Char} (h : Trimmed line) : trimEnd ('*' :: ' ' :: line) = starred line := by
  obtain rfl | ⟨front, c, rfl⟩ := List.eq_nil_or_concat' line
  · decide
  · simpa [starred] using trimEnd_concat ('*' :: ' ' :: front) (h.2 c (by simp))

theorem finishLine_starred (n : Nat) {line : List Char} (h : Trimmed line) :
    Layout.finishLine o.useTabs o.tabWidth (List.replicate n ' ' ++ (" * ".toList ++ line)) = margin o n ++ starred line := by
  have hrow := Layout.finishLine_front o.useTabs o.tabWidth (List.replicate n ' ' ++ [' ']) (c := '*') (by decide) (' ' :: line)
  rw [trimEnd_starred h] at hrow
  simpa [margin] using hrow

/-- the last row, with the closing mark -/
theorem finishLine_closing (n : Nat) (line : List Char) :
    Layout.finishLine o.useTabs o.tabWidth
        (List.replicate n ' ' ++ ((if line.isEmpty then [] else " * ".toList ++ line) ++ " */".toList)) =
      margin o n ++ (if line.isEmpty then [] else starred line ++ [' ']) ++ "*/".toList := by
  by_cases hline : line.isEmpty = true
  · have hrow := Layout.finishLine_front o.useTabs o.tabWidth (List.replicate n ' ' ++ [' ']) (c := '*') (by decide) ['/']
    rw [show trimEnd ['*', '/'] = ['*', '/'] from by decide] at hrow
    simpa [margin, hline] using hrow
  · have hrow := Layout.finishLine_front o.useTabs o.tabWidth (List.replicate n ' ' ++ [' ']) (c := '*') (by decide)
      (' ' :: line ++ " */".toList)
    have hend := trimEnd_concat ('*' :: ' ' :: line ++ " *".toList) (c := '/') (by decide)
    rw [show '*' :: (' ' :: line ++ " */".toList) = '*' :: ' ' :: line ++ " *".toList ++ ['/'] by simp, hend] at hrow
    simpa [margin, starred, hline] using hrow

/-- the later rows end with the closing mark, and before it all of them can be read again -/
theorem LaidRows.reread {ls rows : List (List Char)} (h : LaidRows ls rows) (hls : ∀ line ∈ ls, CommentText line) :
    ∃ inner, join ['\n'] (rows.map (Layout.finishLine o.useTabs o.tabWidth)) = join ['\n'] inner ++ "*/".toList ∧
      inner ≠ [] ∧ List.Forall₂ RowOf inner (ls.map unstarred) := by
  induction h with
  | last n line =>
    refine ⟨[margin o n ++ if line.isEmpty then [] else starred line ++ [' ']], ?_, by simp, ?_⟩
    · simp only [List.map_singleton, join, finishLine_closing]
    · rw [List.map_singleton, List.forall₂_cons, and_iff_left .nil]
      by_cases hline : line.isEmpty = true
      · obtain rfl := List.isEmpty_iff.1 hline
        simpa [unstarred] using rowOf_margin (margin_margin o n)
      · have hspace : Margin [' '] := by simp [Margin]
        have hrow := rowOf_starred (margin_margin o n) hspace (hls line List.mem_cons_self)
        simpa [hline] using hrow
  | row n line h ih =>
    obtain ⟨hline, hrest⟩ := List.forall_mem_cons.1 hls
    obtain ⟨inner, hjoin, hne, hrows⟩ := ih hrest
    have hnone : Margin [] := by simp [Margin]
    have hrow := rowOf_starred (margin_margin o n) hnone hline
    rw [List.append_nil] at hrow
    refine ⟨(margin o n ++ starred line) :: inner, ?_, by simp, .cons hrow hrows⟩
    rw [List.map_cons, finishLine_starred o n hline.trimmed, join_cons _ _ (by simpa using h.ne_nil.2), hjoin,
      join_cons _ _ hne]
    simp

/-- the lines that are read of a printed comment with these lines -/
def rereadLines : List (List Char) → List (List Char)
  | [] => []
  | first :: later =>
    if severalLines (first :: later) then first :: later.map unstarred else [(first :: later).flatten]

/-- **A printed comment is a comment again**, and its later lines have lost the stars that they start with. -/
theorem LaidComment.reread {ls rows : List (List Char)} (hne : ls ≠ []) (h : LaidComment ls rows)
    (hls : ∀ line ∈ ls, CommentText line) :
    ∃ inner, join ['\n'] (rows.map (Layout.finishLine o.useTabs o.tabWidth)) = marked inner ∧ Unclosed inner ∧
      linesOf inner = rereadLines ls := by
  cases h with
  | several hmany hrows =>
    next first later rows =>
    obtain ⟨hfirst, hlater⟩ := List.forall_mem_cons.1 hls
    obtain ⟨inner, hjoin, hinner, hall⟩ := hrows.reread o hlater
    obtain ⟨hunclosed, hread⟩ := linesOf_join (by simp) (List.Forall₂.cons hfirst.rowOf_firstRow hall)
    refine ⟨join ['\n'] (firstRow first :: inner), ?_, hunclosed, by rw [hread, rereadLines, if_pos hmany]⟩
    rw [List.map_cons, finishLine_trimmed o hfirst.trimmed_firstRow, join_cons _ _ (by simpa using hrows.ne_nil.2),
      hjoin, join_cons _ _ hinner]
    simp [marked]
  | few hfew =>
    have hbody := commentText_flatten hls hfew
    have hreread : rereadLines ls = [ls.flatten] := by
      obtain ⟨first, later, rfl⟩ := List.exists_cons_of_ne_nil hne
      rw [rereadLines, if_neg hfew]
    rw [hreread, onlyRow, List.map_singleton]
    generalize ls.flatten = body at hbody
    by_cases hempty : body.isEmpty = true
    · obtain rfl := List.isEmpty_iff.1 hempty
      exact ⟨[' '], finishLine_trimmed o (trimmed_marked [' ']), .singleton _, by decide⟩
    · have hspace : Margin [' '] := by simp [Margin]
      have htrim : trim ([' '] ++ body ++ [' ']) = trim body := trim_blanks body hspace.blank hspace.blank
      refine ⟨[' '] ++ body ++ [' '], ?_, ?_, ?_⟩
      · have hrow := finishLine_trimmed o (trimmed_marked ([' '] ++ body ++ [' ']))
        simpa [join, marked, hempty] using hrow
      · exact (hspace.unclosed.append hbody.unclosed (.inl (by simp))).append hspace.unclosed (.inr (by simp))
      · rw [linesOf, lines_of_not_mem (by simpa using hbody.oneLine), List.map_singleton, commentLine_of_trim htrim,
          hbody.stable]

/-! ## Counting stars -/

/-- only stars count -/
def starSieve : Sieve where
  passes c := c == '*'
  not_blank h := by
    simp only [beq_eq_false_iff_ne]
    rintro rfl
    exact absurd h (by decide)
  not_comma := by decide

def stars (text : List Char) : Nat := (starSieve.sift text).length

@[simp] theorem stars_append (front back : List Char) : stars (front ++ back) = stars front + stars back := by simp [stars]

/-- the stars of all lines together -/
def allStars (ls : List (List Char)) : Nat := (ls.map stars).sum

theorem stars_flatten (ls : List (List Char)) : stars ls.flatten = allStars ls := by
  induction ls with
  | nil => rfl
  | cons line ls ih => simp [ih, allStars]

theorem stars_unstarred_le (line : List Char) : stars (unstarred line) ≤ stars line :=
  ((List.dropWhile_sublist _).filter _).length_le

theorem stars_unstarred_lt {line : List Char} (h : isHeadline line = true) : stars (unstarred line) < stars line := by
  obtain ⟨rest, rfl⟩ := List.isPrefixOf_iff_prefix.1 h
  have hdrop : unstarred ("****".toList ++ rest) = unstarred rest := by simp [unstarred]
  have hfour : stars "****".toList = 4 := by decide
  have hle := stars_unstarred_le rest
  rw [hdrop, stars_append, hfour]
  omega

theorem allStars_unstarred_le (ls : List (List Char)) : allStars (ls.map unstarred) ≤ allStars ls := by
  induction ls with
  | nil => rfl
  | cons line ls ih =>
    have hle := stars_unstarred_le line
    simp only [allStars, List.map_cons, List.sum_cons] at ih ⊢
    omega

theorem allStars_unstarred_lt {ls : List (List Char)} (h : ls.any isHeadline = true) :
    allStars (ls.map unstarred) < allStars ls := by
  induction ls with
  | nil => simp at h
  | cons line ls ih =>
    rw [List.any_cons, Bool.or_eq_true] at h
    have hle := stars_unstarred_le line
    have hrest := allStars_unstarred_le ls
    rcases h with h | h
    · have hlt := stars_unstarred_lt h
      simp only [allStars, List.map_cons, List.sum_cons] at hrest ⊢
      omega
    · have hlt := ih h
      simp only [allStars, List.map_cons, List.sum_cons] at hlt ⊢
      omega

/-! ## Lines that change -/

/-- a headline stands below the first of several lines -/
def headlineBelow (lines : List (List Char)) : Bool := severalLines lines && lines.tail.any isHeadline

/-- without a headline below, what is read of several lines is what was printed -/
theorem rereadLines_of_plain {ls : List (List Char)} (h : ∀ line ∈ ls, CommentText line) (hmany : severalLines ls = true)
    (hplain : ls.tail.any isHeadline = false) : rereadLines ls = ls := by
  obtain _ | ⟨first, later⟩ := ls
  · rfl
  rw [rereadLines, if_pos hmany, List.cons_inj_right]
  refine (List.map_congr_left fun line hline => ?_).trans (List.map_id later)
  have hstable := (h line (List.mem_cons_of_mem _ hline)).stable
  have hhead : isHeadline line = false := by simpa using List.any_eq_false.1 hplain line hline
  have hread : unstarred (commentLine line) = commentLine line := unstarred_commentLine (by rw [hstable, hhead])
  rwa [hstable] at hread

/-- **The lines with text stay** exactly if no headline stands below the first of several lines. -/
theorem filter_rereadLines_iff {ls : List (List Char)} (h : ∀ line ∈ ls, CommentText line) :
    (rereadLines ls).filter (!·.isEmpty) = ls.filter (!·.isEmpty) ↔ headlineBelow ls = false := by
  obtain _ | ⟨first, later⟩ := ls
  · simp [rereadLines, headlineBelow]
  by_cases hmany : severalLines (first :: later) = true
  · rw [headlineBelow, hmany, Bool.true_and, List.tail_cons]
    constructor
    · intro heq
      by_contra hhead
      -- the text of all lines together would have as many stars as before
      have hstars := congrArg (fun ls => stars ls.flatten) heq
      simp only [List.flatten_filter_not_isEmpty, stars_flatten, rereadLines, hmany, if_true] at hstars
      have hlt := allStars_unstarred_lt (Bool.eq_true_of_not_eq_false hhead)
      simp only [allStars, List.map_cons, List.sum_cons] at hstars hlt
      omega
    · intro hplain
      rw [rereadLines_of_plain h hmany hplain]
  · have hlength : ((first :: later).filter (!·.isEmpty)).length ≤ 1 := by simpa [severalLines] using hmany
    rw [headlineBelow, Bool.eq_false_of_not_eq_true hmany, Bool.false_and, rereadLines, if_neg hmany,
      ← List.flatten_filter_not_isEmpty]
    have hfull : ∀ line ∈ (first :: later).filter (!·.isEmpty), line.isEmpty = false := by simp
    generalize (first :: later).filter (!·.isEmpty) = texts at hlength hfull
    obtain _ | ⟨line, _ | ⟨next, rest⟩⟩ := texts
    · simp
    · simpa using hfull line (by simp)
    · simp at hlength

/-- what is read of a printed comment has no headline below its first line -/
theorem headlineBelow_rereadLines (ls : List (List Char)) : headlineBelow (rereadLines ls) = false := by
  obtain _ | ⟨first, later⟩ := ls
  · rfl
  rw [rereadLines]
  split
  · simp [headlineBelow, not_isHeadline_unstarred]
  · simp [headlineBelow]

/-! ## Comments of a text -/

/-- the lines of a comment that have text -/
def textLines (text : List Char) : List (List Char) := (blockCommentLines text).filter (!·.isEmpty)

/-- what becomes of a comment `text` that is laid out as `layout` and finished as `p`: wherever the layout stands, `p` is in
the finished text; it is one comment, which ends with its first closing mark; and the lines with text that are read of it
are those of the comment, but for the stars of headlines below the first of several lines. Printed again, the lines stay -/
structure Reflowed (o : Options) (text layout p : List Char) : Prop where
  alone : Layout.finish o.useTabs o.tabWidth layout = p ++ ['\n']
  inside : ∀ whole, layout <:+: whole → p <:+: Layout.finish o.useTabs o.tabWidth whole
  opens : startsWith "/*".toList p = true
  closes : Pattern.blockComment p = some p.length
  lines : textLines p = (rereadLines (blockCommentLines text)).filter (!·.isEmpty)
  kept : textLines p = textLines text ↔ headlineBelow (blockCommentLines text) = false
  again : ∀ {flat : Bool} {layout' : List Char}, (blockComment p).Lays flat layout' →
    textLines (Layout.finishLines o.useTabs o.tabWidth layout') = textLines p

theorem exists_reread {inner layout : List Char} {flat : Bool} (h : Unclosed inner)
    (hlays : (blockComment (marked inner)).Lays flat layout) : Trimmed layout ∧
      ∃ inner', Layout.finishLines o.useTabs o.tabWidth layout = marked inner' ∧ Unclosed inner' ∧
        linesOf inner' = rereadLines (linesOf inner) := by
  have hlines : ∀ line ∈ linesOf inner, CommentText line := fun line => commentText_of_mem h
  obtain ⟨rows, hrows, rfl⟩ := laidComment_of_lays hlays
  rw [blockCommentLines_marked] at hrows
  refine ⟨hrows.trimmed, ?_⟩
  have hne : rows ≠ [] := by
    obtain ⟨row, rows', rfl⟩ := hrows.opens
    simp
  have hlinesNe : linesOf inner ≠ [] := by simp [linesOf, Text.lines, splitOn_ne_nil]
  rw [Layout.finishLines, lines_join hne (hrows.oneLine fun line hline => (hlines line hline).oneLine)]
  exact hrows.reread o hlinesNe hlines

theorem blockComment_marked {inner : List Char} (h : Unclosed inner) :
    Pattern.blockComment (marked inner) = some (marked inner).length := by
  have hfind := find_closing h []
  rw [List.append_nil] at hfind
  simp only [Pattern.blockComment, marked, List.append_assoc, List.drop_left' (show "/*".toList.length = 2 from rfl), hfind]
  simp

theorem finish_marked {layout inner : List Char}
    (h : Layout.finishLines o.useTabs o.tabWidth layout = marked inner) :
    Layout.finish o.useTabs o.tabWidth layout = marked inner ++ ['\n'] := by
  have hbody : dropEndWhile (· == '\n') (marked inner) = marked inner := by
    rw [dropEndWhile, dropWhile_eq_self (by simp [marked]), List.reverse_reverse]
  rw [Layout.finish, ← Layout.finishLines, h, hbody, if_neg (by simp [marked])]

/-- a comment without a closing mark inside is printed as such a comment -/
theorem reflowed_marked {inner layout : List Char} {flat : Bool} (h : Unclosed inner)
    (hlays : (blockComment (marked inner)).Lays flat layout) :
    Reflowed o (marked inner) layout (Layout.finishLines o.useTabs o.tabWidth layout) := by
  obtain ⟨htrimmed, inner', hp, hopen, hread⟩ := exists_reread o h hlays
  have hlines (inner : List Char) : textLines (marked inner) = (linesOf inner).filter (!·.isEmpty) := by
    rw [textLines, blockCommentLines_marked]
  refine ⟨by rw [hp, finish_marked o hp], fun whole hwhole => Layout.finish_within _ _ htrimmed hwhole, ?_, ?_, ?_, ?_,
    fun hlays' => ?_⟩
  · simp [hp, marked, startsWith]
  · rw [hp, blockComment_marked hopen]
  · rw [hp, hlines, hread, blockCommentLines_marked]
  · rw [hp, hlines, hlines, hread, blockCommentLines_marked]
    exact filter_rereadLines_iff fun line => commentText_of_mem h
  · rw [hp] at hlays' ⊢
    obtain ⟨-, inner'', hp', -, hread'⟩ := exists_reread o hopen hlays'
    rw [hp', hlines, hlines, hread']
    refine (filter_rereadLines_iff fun line => commentText_of_mem hopen).2 ?_
    rw [hread]
    exact headlineBelow_rereadLines _

end Style

open Lexer Style

/-- **What printing a comment changes of its text.** A block comment of any text, laid out at any indentation and finished
with any options, is one comment again. The lines with text that are read of it are the same, in order, exactly if no
headline stands below the first of several lines; such a headline has lost the stars that it starts with, and is a line as
any other from then on. -/
theorem blockComment_reflow {text : List Char} {n : Nat} (hkind : (call text n).kind = .blockComment) (o : Options)
    {flat : Bool} {layout : List Char} (hlays : (blockComment (call text n).text).Lays flat layout) :
    Reflowed o (call text n).text layout (Layout.finishLines o.useTabs o.tabWidth layout) := by
  have hspelt : Spelt (call text n).kind (call text n).text := (afterCalls text n).spelt_step_iff.2 fun hstray => by
    have hclosure := hstray.kind
    change (call text n).kind = .closureEnd at hclosure
    rw [hkind] at hclosure
    cases hclosure
  rw [hkind] at hspelt
  obtain ⟨inner, hinner, hopen⟩ := hspelt
  rw [hinner] at hlays ⊢
  exact reflowed_marked o hopen hlays

/-- two lines, four spaces further in, with tabs of that width -/
theorem blockComment_reflow_tabs : Reflowed { tabWidth := 4, useTabs := true } "/* a\nb */".toList
    "/* a\n     * b */".toList "/* a\n\t * b */".toList := by
  have htext : (call "/* a\nb */".toList 0).text = "/* a\nb */".toList := by decide +kernel
  have hrender : (Doc.nested 4 (blockComment "/* a\nb */".toList)).render 80 = "/* a\n     * b */".toList := by
    decide +kernel
  have hlays : (blockComment (call "/* a\nb */".toList 0).text).Lays false "/* a\n     * b */".toList := by
    rw [htext, ← hrender]
    exact Doc.lays_nested.1 (Doc.lays_render 80 _)
  have hfinish : Layout.finishLines true 4 "/* a\n     * b */".toList = "/* a\n\t * b */".toList := by decide +kernel
  have hreflow := blockComment_reflow (by decide +kernel) { tabWidth := 4, useTabs := true } hlays
  rwa [htext, hfinish] at hreflow

/-- of the headline that is printed behind a star only its text is read -/
theorem not_textLines_headline : ¬∀ (text : List Char) (n : Nat) (o : Options) (layout : List Char),
    (call text n).kind = .blockComment → (blockComment (call text n).text).Lays false layout →
      textLines (Layout.finishLines o.useTabs o.tabWidth layout) = textLines (call text n).text := by
  intro hall
  have hlines := hall "/*\n**** A ****\ntext\n*/".toList 0 {} _ (by decide +kernel) (Doc.lays_render 80 _)
  exact absurd hlines (by decide +kernel)

end LpcStyle
