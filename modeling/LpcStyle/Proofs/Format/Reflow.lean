import Mathlib.Tactic
import LpcStyle.Format
import LpcStyle.Proofs.Layout.Fixed
import LpcStyle.Proofs.Style.Comment
import LpcStyle.Proofs.Token.Written

/-!
Block comments that are formatted twice. The first run puts a star before every later line of a comment; the second one
takes it off again together with all stars that follow, so a headline of four stars loses them. Main statement:
`format_comment_stable_iff`, which says exactly which comments come out of the second run as they went in. A comment
among other tokens need not come out of the first run: what stands behind it may be printed into it, or it is printed twice.
-/

namespace LpcStyle

open Text

namespace Style

/-! ## Rows at the left margin -/

/-- the rows of a comment after the first -/
def laterRows : List (List Char) → List (List Char)
  | [] => []
  | [last] => [(if last.isEmpty then [] else " * ".toList ++ last) ++ " */".toList]
  | line :: lines => (" * ".toList ++ line) :: laterRows lines

/-- the rows that a comment with these lines is printed in -/
def commentRows : List (List Char) → List (List Char)
  | [] => []
  | first :: later =>
    if severalLines (first :: later) then ("/*".toList ++ firstRow first) :: laterRows later
    else
      let body := (first :: later).flatten
      [if body.isEmpty then "/* */".toList else "/* ".toList ++ body ++ " */".toList]

theorem laidRows_laterRows {lines : List (List Char)} (h : lines ≠ []) : LaidRows lines (laterRows lines) := by
  fun_induction laterRows lines with
  | case1 => exact absurd rfl h
  | case2 last => exact .last 0 last
  | case3 line lines hne ih => exact .row 0 line (ih hne)

theorem laidComment_commentRows {lines : List (List Char)} (h : lines ≠ []) : LaidComment lines (commentRows lines) := by
  obtain ⟨first, later, rfl⟩ := List.exists_cons_of_ne_nil h
  rw [commentRows]
  split
  · next hmany => exact .several hmany (laidRows_laterRows (later_ne_nil hmany))
  · next hfew => exact .few hfew

theorem fixed_laterCommentLines {lines : List (List Char)} (h : lines ≠ []) : ∃ texts : List (List Char),
    (laterCommentLines lines).map Doc.fixed? = texts.map some ∧
      texts.flatten ++ " */".toList = '\n' :: join ['\n'] (laterRows lines) := by
  fun_induction laterRows lines with
  | case1 => exact absurd rfl h
  | case2 last =>
    by_cases hlast : last.isEmpty
    · exact ⟨[['\n']], by simp [laterCommentLines, hlast, Doc.fixed_hardline], by simp [join, hlast]⟩
    · refine ⟨[['\n'], " * ".toList ++ last], ?_, by simp [join, hlast]⟩
      simp only [laterCommentLines, hlast, Bool.false_eq_true, if_false, List.map_cons, Doc.fixed_hardline,
        Doc.fixed_word, List.map_nil]
  | case3 line lines hne ih =>
    obtain ⟨texts, htexts, hflat⟩ := ih hne
    refine ⟨['\n'] :: (" * ".toList ++ line) :: texts, ?_, ?_⟩
    · rw [laterCommentLines]
      · simp only [List.map_cons, htexts, Doc.fixed_hardline, Doc.fixed_word]
      · exact hne
    · rw [join_cons _ _ (laidRows_laterRows hne).ne_nil.2]
      simp only [List.flatten_cons, List.append_assoc, hflat]
      simp

/-- a comment is printed in its rows -/
theorem fixed_blockComment (text : List Char) :
    (blockComment text).fixed? = some (join ['\n'] (commentRows (blockCommentLines text))) := by
  obtain ⟨first, later, hlines⟩ := exists_blockCommentLines text
  rw [blockComment, hlines, commentRows]
  by_cases hmany : severalLines (first :: later) = true
  · have hlength : ¬((first :: later).filter (!·.isEmpty)).length ≤ 1 := by simpa [severalLines] using hmany
    rw [if_neg hlength, if_pos hmany, join_cons _ _ (laidRows_laterRows (later_ne_nil hmany)).ne_nil.2]
    obtain ⟨texts, htexts, hflat⟩ := fixed_laterCommentLines (later_ne_nil hmany)
    have hfirst : ∃ words : List (List Char), (if first.isEmpty then [] else [Doc.lit " ", Doc.word first]).map
        Doc.fixed? = words.map some ∧ words.flatten = firstRow first := by
      by_cases hempty : first.isEmpty
      · exact ⟨[], by simp [hempty], by simp [firstRow, hempty]⟩
      · exact ⟨[[' '], first], by simp [hempty, Doc.fixed_word, Doc.fixed_lit], by simp [firstRow, hempty]⟩
    obtain ⟨words, hwords, hrow⟩ := hfirst
    have hall : (Doc.lit "/*" :: (if first.isEmpty then [] else [Doc.lit " ", Doc.word first]) ++
        laterCommentLines later ++ [Doc.lit " */"]).map Doc.fixed? =
        ("/*".toList :: words ++ texts ++ [" */".toList]).map some := by
      simp only [List.map_append, List.map_cons, hwords, htexts, Doc.fixed_lit, List.map_nil]
    refine (Doc.fixed_concat hall).trans ?_
    simp only [List.flatten_append, List.flatten_cons, List.flatten_nil, hrow, List.append_nil, List.append_assoc, hflat,
      List.singleton_append]
  · have hlength : ((first :: later).filter (!·.isEmpty)).length ≤ 1 := by simpa [severalLines] using hmany
    rw [if_pos hlength, if_neg hmany, Doc.fixed_word]
    simp [join]

/-- a comment with these lines as it is printed -/
def printed (options : Options) (ls : List (List Char)) : List Char :=
  join ['\n'] ((commentRows ls).map (Layout.finishLine options.useTabs options.tabWidth))

/-! ## Counting stars -/

/-- finishing and joining rows leaves their stars -/
theorem stars_printed (options : Options) (ls : List (List Char)) :
    stars (printed options ls) = allStars (commentRows ls) := by
  rw [stars, printed, starSieve.sift_join starSieve.sift_lineFeed, List.flatMap_map, List.length_flatMap]
  simp only [starSieve.sift_finishLine]
  rfl

/-- the stars of the rows after the first -/
def laterStars (ls : List (List Char)) : Nat := allStars (laterRows ls)

theorem laterStars_cons {ls : List (List Char)} (line : List Char) (h : ls ≠ []) :
    laterStars (line :: ls) = 1 + stars line + laterStars ls := by
  have hfront : stars " * ".toList = 1 := by decide
  rw [laterStars, laterRows]
  · rw [allStars, List.map_cons, List.sum_cons, stars_append, hfront]
    rfl
  · exact h

theorem laterStars_singleton (line : List Char) :
    laterStars [line] = (if line.isEmpty then 0 else 1 + stars line) + 1 := by
  have hback : stars " */".toList = 1 := by decide
  have hfront : stars " * ".toList = 1 := by decide
  simp only [laterStars, laterRows, allStars, List.map_singleton, List.sum_singleton, stars_append, hback]
  split
  · rfl
  · rw [stars_append, hfront]

theorem allStars_lt_laterStars {ls : List (List Char)} (h : ls ≠ []) : allStars ls < laterStars ls := by
  induction ls with
  | nil => exact absurd rfl h
  | cons line ls ih =>
    by_cases hls : ls = []
    · subst hls
      rw [laterStars_singleton]
      split
      · next hempty => simp [allStars, List.isEmpty_iff.1 hempty, stars]
      · simp [allStars]
    · have := ih hls
      rw [laterStars_cons line hls]
      simp only [allStars, List.map_cons, List.sum_cons] at this ⊢
      omega

/-- the rows lose at least as many stars as the lines -/
theorem laterStars_unstarred (ls : List (List Char)) :
    laterStars (ls.map unstarred) + allStars ls ≤ laterStars ls + allStars (ls.map unstarred) := by
  induction ls with
  | nil => simp [laterStars, laterRows]
  | cons line ls ih =>
    have hle := stars_unstarred_le line
    by_cases hls : ls = []
    · subst hls
      simp only [List.map_cons, List.map_nil, laterStars_singleton, allStars, List.sum_singleton]
      by_cases hempty : line.isEmpty
      · simp [List.isEmpty_iff.1 hempty, unstarred]
      · simp only [hempty, Bool.false_eq_true, if_false]
        split <;> omega
    · rw [List.map_cons, laterStars_cons line hls, laterStars_cons _ (by simpa using hls)]
      simp only [allStars, List.map_cons, List.sum_cons] at ih ⊢
      omega

theorem allStars_commentRows_several {first : List Char} {later : List (List Char)}
    (h : severalLines (first :: later) = true) :
    allStars (commentRows (first :: later)) = 1 + stars first + laterStars later := by
  have hopen : stars "/*".toList = 1 := by decide
  have hrow : stars (firstRow first) = stars first := by
    rw [firstRow]
    split
    · next hempty => rw [List.isEmpty_iff.1 hempty]
    · have hspace : stars [' '] = 0 := by decide
      rw [← List.singleton_append, stars_append, hspace, Nat.zero_add]
  rw [commentRows, if_pos h, allStars, List.map_cons, List.sum_cons, stars_append, hopen, hrow]
  rfl

theorem allStars_commentRows_few {first : List Char} {later : List (List Char)}
    (h : ¬severalLines (first :: later) = true) :
    allStars (commentRows (first :: later)) = 2 + allStars (first :: later) := by
  have hmarks : stars "/* */".toList = 2 ∧ stars "/* ".toList = 1 ∧ stars " */".toList = 1 := by decide
  rw [commentRows, if_neg h, ← stars_flatten (first :: later), allStars, List.map_singleton, List.sum_singleton]
  split
  · next hempty => rw [List.isEmpty_iff.1 hempty, hmarks.1]; rfl
  · rw [stars_append, stars_append, hmarks.2.1, hmarks.2.2]
    omega

/-- later headlines cost stars -/
theorem allStars_reread_lt {first : List Char} {later : List (List Char)} (hmany : severalLines (first :: later) = true)
    (hhead : later.any isHeadline = true) :
    allStars (commentRows (rereadLines (first :: later))) < allStars (commentRows (first :: later)) := by
  have hlt := allStars_unstarred_lt hhead
  rw [allStars_commentRows_several hmany, rereadLines, if_pos hmany]
  by_cases hstill : severalLines (first :: later.map unstarred) = true
  · have hle := laterStars_unstarred later
    rw [allStars_commentRows_several hstill]
    omega
  · have hlater := allStars_lt_laterStars (later_ne_nil hmany)
    rw [allStars_commentRows_few hstill]
    simp only [allStars, List.map_cons, List.sum_cons] at hlt hlater ⊢
    omega

/-- **The rows of a comment are stable** under reading exactly if no later line of several is a headline. -/
theorem printed_reread_iff (options : Options) {first : List Char} {later : List (List Char)}
    (h : ∀ line ∈ first :: later, CommentText line) :
    printed options (rereadLines (first :: later)) = printed options (first :: later) ↔
      ¬(severalLines (first :: later) = true ∧ later.any isHeadline = true) := by
  constructor
  · rintro heq ⟨hmany, hhead⟩
    have hstars := congrArg stars heq
    rw [stars_printed, stars_printed] at hstars
    exact absurd hstars (allStars_reread_lt hmany hhead).ne
  · intro hnot
    by_cases hmany : severalLines (first :: later) = true
    · rw [rereadLines_of_plain h hmany (by simpa [hmany] using hnot)]
    · have hone : ¬severalLines [(first :: later).flatten] = true := by
        intro hseveral
        exact later_ne_nil hseveral rfl
      rw [printed, rereadLines, if_neg hmany, commentRows, if_neg hone, printed, commentRows, if_neg hmany]
      simp

end Style

open Style

/-! ## Reading a comment -/

theorem tokenCut_comment (s : Lexer) (rest : List Char) :
    s.tokenCut '/' ('*' :: rest) = Lexer.blockCommentCut s.brackets ('/' :: '*' :: rest) := rfl

/-- a comment is cut off before anything -/
theorem cutsOff_comment {inner : List Char} (h : Unclosed inner) (back : List Char) :
    CutsOff 0 0 .blockComment (marked inner) back := by
  refine ⟨by decide, by decide, '/', '*' :: (inner ++ "*/".toList), by simp [marked], by decide, fun s hs => ?_⟩
  have hclosed : Pattern.blockComment ('/' :: '*' :: (inner ++ "*/".toList ++ back)) = some (inner.length + 4) := by
    simpa [Pattern.blockComment] using find_closing h back
  rw [List.cons_append, tokenCut_comment, Lexer.blockCommentCut, hclosed, hs.brackets]
  simp [marked]

/-- a comment that stands alone is the only token of its text -/
theorem written_comment {inner back : List Char} (h : Unclosed inner) (hback : Gap back) :
    Written 0 [(.blockComment, marked inner)] (marked inner ++ back) :=
  .token gap_nil (cutsOff_comment h back) (.done hback)

/-- and the only statement -/
theorem parse_comment {inner back : List Char} (h : Unclosed inner) (hback : Gap back) :
    ∃ span, parse (marked inner ++ back) = .ok ⟨marked inner ++ back, [.ofComment ⟨.block, span, marked inner⟩]⟩ := by
  suffices hrun : ∃ span s, (sourceFile (.ofText (marked inner ++ back))).run (.ofText (marked inner ++ back)) =
      .ok ([.ofComment ⟨.block, span, marked inner⟩], s) by
    obtain ⟨span, s, hrun⟩ := hrun
    exact ⟨span, parseWith_eq_ok_iff.2 ⟨rfl, s, hrun⟩⟩
  obtain ⟨hspelling, -, hfault⟩ := Stream.ofText_written (written_comment h hback) (by simp)
  have hend := Stream.eof_ofText (marked inner ++ back)
  unfold Reading.ofText Rules.ofText
  generalize hstream : Stream.ofText (marked inner ++ back) = stream at hspelling hfault hend
  obtain ⟨ahead, ⟨eofKind, eofSpan, eofText, eofFault, eofLine⟩⟩ := stream
  obtain ⟨⟨kind, span, text, fault, ownLine⟩, rfl, htoken⟩ := List.map_eq_singleton_iff.1 hspelling
  obtain ⟨rfl, rfl⟩ := Prod.mk.inj htoken
  dsimp only at hend hfault
  subst hend hfault
  exact ⟨span, _, rfl⟩

/-! ## Formatting a comment twice -/

/-- a comment that stands alone is formatted to its rows -/
theorem format_comment (options : Options) {inner back : List Char} (h : Unclosed inner) (hback : Gap back) :
    format options (marked inner ++ back) = .ok (printed options (linesOf inner) ++ ['\n']) := by
  obtain ⟨span, hparse⟩ := parse_comment h hback
  obtain ⟨first, later, hlines⟩ := exists_blockCommentLines (marked inner)
  rw [blockCommentLines_marked] at hlines
  have hlaid := laidComment_commentRows (List.cons_ne_nil first later)
  obtain ⟨rows, front, hrows⟩ := hlaid.closes
  have hfeeds : ∀ row ∈ rows ++ [front ++ ['/']], '\n' ∉ row := by
    rw [← hrows]
    exact hlaid.oneLine fun line hline => (commentText_of_mem h (hlines ▸ hline)).oneLine
  have hfixed : (comment .block (marked inner)).fixed? = some (join ['\n'] (rows ++ [front ++ ['/']])) := by
    rw [comment, (trimmed_marked inner).trim_eq, fixed_blockComment, blockCommentLines_marked, hlines, hrows]
  have hfull (env : Env) : (print env .listed (.ofComment ⟨.block, span, marked inner⟩)).full =
      comment .block (marked inner) ++ Doc.nil := by
    simp only [print, Node.ofComment, layout]
    rfl
  have hprint := Document.print_fixed (d := ⟨marked inner ++ back, [.ofComment ⟨.block, span, marked inner⟩]⟩) options rfl
    (by decide) hfeeds (by rw [hfull]; exact (Doc.fixed_andThen hfixed Doc.fixed_nil).trans (by rw [List.append_nil]))
  rw [format, hparse]
  exact congrArg Except.ok (by rw [hprint, printed, hlines, hrows])

/-- **The second run leaves a comment alone exactly if it took no stars**: under all options, a comment that stands alone
is formatted, and so is the result. Both are the same exactly if, among several lines with text, none after the first is a
headline. -/
theorem format_comment_stable_iff (options : Options) {inner : List Char} (h : contains "*/".toList inner = false) :
    ∃ out again, format options (marked inner) = .ok out ∧ format options out = .ok again ∧
      (again = out ↔ ¬(severalLines (linesOf inner) = true ∧ (linesOf inner).tail.any isHeadline = true)) := by
  have hopen := unclosed_of_not_contains h
  obtain ⟨first, later, hlines⟩ := exists_blockCommentLines (marked inner)
  rw [blockCommentLines_marked] at hlines
  have hmem : ∀ line ∈ first :: later, CommentText line := by
    rw [← hlines]
    exact fun line => commentText_of_mem hopen
  have hne : first :: later ≠ [] := List.cons_ne_nil first later
  obtain ⟨inner', hprinted, hopen', hreread⟩ := (laidComment_commentRows hne).reread options hne hmem
  have hfirst := format_comment options hopen (⟨by simp, by simp⟩ : Gap [])
  have hsecond := format_comment options hopen' (⟨List.forall_mem_singleton.2 rfl, by decide⟩ : Gap ['\n'])
  rw [List.append_nil, hlines] at hfirst
  rw [← hprinted, hreread] at hsecond
  refine ⟨_, _, hfirst, hsecond, ?_⟩
  rw [List.append_left_inj, hlines]
  exact printed_reread_iff options hmem

namespace Style

/-! ## Comments among other tokens -/

/-- what is printed of a line comment -/
def lineText (text : List Char) : List Char :=
  let body := trim ((dropFront? "//".toList (trim text)).getD (trim text))
  if body.isEmpty then "//".toList else "// ".toList ++ body

/-- the line comments of a text -/
def lineComments (text : List Char) : List (List Char) :=
  ((Stream.ofText text).ahead.filter (·.kind = .lineComment)).map Token.text

/-- a comment of a lone array that is printed with the rest of the statement in it -/
theorem lineComments_format_swallowed :
    format {} "foo((\x7b1\x7d) // c\n);".toList = .ok "foo((\x7b1\x7d) // c);\n".toList ∧
    ¬∀ s ∈ lineComments "foo((\x7b1\x7d) // c);\n".toList, s = "//".toList ∨
      ∃ r ∈ lineComments "foo((\x7b1\x7d) // c\n);".toList, s = lineText r := by
  decide +kernel

/-- tokens of a text that are of a kind -/
def countKind (kind : Kind) (text : List Char) : Nat :=
  ((Stream.ofText text).toList.filter (·.kind = kind)).length

/-- one block comment that is printed twice: with the type around it and after the declaration -/
theorem blockComments_format_doubled : countKind .lineComment "struct /*c*/ s x;".toList = 0 ∧
    countKind .directive "struct /*c*/ s x;".toList = 0 ∧
    format {} "struct /*c*/ s x;".toList = .ok "struct /*c*/ s x; /* c */\n".toList ∧
    countKind .blockComment "struct /*c*/ s x; /* c */\n".toList ≠ countKind .blockComment "struct /*c*/ s x;".toList := by
  decide +kernel

end Style

end LpcStyle
