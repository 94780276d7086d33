import Mathlib.Data.List.DropRight
import Mathlib.Tactic
import LpcStyle.Format
import LpcStyle.Proofs.Text.Finish

/-!
The normal form of what is printed. The last pass gives a text as rows that are finished, the last of them not empty, with
a line feed behind each (`finish_eq_fed`). A second pass finds the same rows, so it changes nothing. Main statement:
`format_lineNormal`.
-/

namespace LpcStyle

open Text

namespace Layout

variable (useTabs : Bool) (tabWidth : Nat)

/-! ## One row -/

/-- no blank at the end of a row -/
def EndsSolid (row : List Char) : Prop := ∀ c ∈ row.getLast?, isBlank c = false

theorem trimEnd_of_endsSolid {row : List Char} (h : EndsSolid row) : trimEnd row = row := by
  simpa [trimEnd, dropEndWhile] using dropEndWhile_append_of_getLast [] h

theorem endsSolid_trimEnd (row : List Char) : EndsSolid (trimEnd row) := by
  intro c hc
  exact head?_dropWhile row.reverse c (by simpa [trimEnd, dropEndWhile] using hc)

theorem EndsSolid.indented {row : List Char} (h : EndsSolid row) : EndsSolid (indented useTabs tabWidth row) := by
  obtain rfl | ⟨front, c, rfl⟩ := List.eq_nil_or_concat' row
  · rw [indented_nil]
    exact h
  · have hc : isBlank c = false := h c (by simp)
    rw [indented_front _ _ front (by simpa using not_blank_ne_space hc)]
    simpa [EndsSolid] using hc

theorem tabbed_replicate (spaces : Nat) {rest : List Char} (h : rest.head? ≠ some ' ') :
    tabbed tabWidth (List.replicate spaces ' ' ++ rest) =
      List.replicate (spaces / tabWidth) '\t' ++ (List.replicate (spaces % tabWidth) ' ' ++ rest) := by
  have hspaces : ∀ c ∈ List.replicate spaces ' ', (c == ' ') = true := by simp
  have hself : (List.replicate spaces ' ').takeWhile (· == ' ') = List.replicate spaces ' ' :=
    List.takeWhile_eq_self_iff.2 hspaces
  rw [tabbed_append tabWidth _ h, tabbed, hself, List.length_replicate, List.drop_of_length_le (by simp),
    List.append_nil, List.append_assoc]

/-- tabs and fewer spaces than one of them stands for are left alone -/
theorem tabbed_tabbed (hwidth : 0 < tabWidth) (line : List Char) :
    tabbed tabWidth (tabbed tabWidth line) = tabbed tabWidth line := by
  obtain ⟨spaces, rest, rfl, hrest⟩ : ∃ spaces rest, line = List.replicate spaces ' ' ++ rest ∧ rest.head? ≠ some ' ' := by
    refine ⟨(line.takeWhile (· == ' ')).length, line.dropWhile (· == ' '), ?_, fun h => ?_⟩
    · have hall : line.takeWhile (· == ' ') = List.replicate (line.takeWhile (· == ' ')).length ' ' :=
        List.eq_replicate_iff.2 ⟨rfl, fun c hc => by simpa using List.mem_takeWhile_imp hc⟩
      rw [← hall, List.takeWhile_append_dropWhile]
    · have hspace := head?_dropWhile (p := (· == ' ')) line ' ' h
      simp at hspace
  rw [tabbed_replicate tabWidth spaces hrest]
  cases htabs : spaces / tabWidth with
  | zero =>
    have hless : spaces % tabWidth / tabWidth = 0 := Nat.div_eq_of_lt (Nat.mod_lt _ hwidth)
    rw [List.replicate_zero, List.nil_append, tabbed_replicate tabWidth _ hrest, hless, Nat.mod_mod]
    rfl
  | succ tabs =>
    have hfront : (List.replicate (tabs + 1) '\t' ++ (List.replicate (spaces % tabWidth) ' ' ++ rest)).head? ≠
        some ' ' := by
      simp [List.replicate_succ]
    simpa [tabbed] using tabbed_append tabWidth [] hfront

theorem indented_indented (row : List Char) :
    indented useTabs tabWidth (indented useTabs tabWidth row) = indented useTabs tabWidth row := by
  simp only [indented]
  split
  · next h =>
    have hwidth : 0 < tabWidth := by simpa using (Bool.and_eq_true_iff.1 h).2
    exact tabbed_tabbed tabWidth hwidth row
  · rfl

theorem endsSolid_finishLine (line : List Char) : EndsSolid (finishLine useTabs tabWidth line) := by
  rw [finishLine_eq]
  exact (endsSolid_trimEnd line).indented useTabs tabWidth

/-- a finished row is finished -/
theorem finishLine_finishLine (line : List Char) :
    finishLine useTabs tabWidth (finishLine useTabs tabWidth line) = finishLine useTabs tabWidth line := by
  conv_lhs => rw [finishLine_eq, trimEnd_of_endsSolid (endsSolid_finishLine useTabs tabWidth line)]
  rw [finishLine_eq, indented_indented]

theorem lineFeed_not_mem_finishLine {line : List Char} (h : '\n' ∉ line) : '\n' ∉ finishLine useTabs tabWidth line := by
  have htrim : '\n' ∉ trimEnd line := fun hmem => h (by
    have hmem : '\n' ∈ line.reverse.dropWhile isBlank := by simpa [trimEnd, dropEndWhile] using hmem
    exact List.mem_reverse.1 ((List.dropWhile_sublist _).subset hmem))
  rw [finishLine_eq, indented]
  split
  · have hdrop (n : Nat) : '\n' ∉ (trimEnd line).drop n := fun hmem => htrim ((List.drop_sublist _ _).subset hmem)
    simp [tabbed, List.mem_replicate, hdrop]
  · exact htrim

theorem lineFeed_not_mem_of_mem_lines {text line : List Char} (h : line ∈ lines text) : '\n' ∉ line := by
  intro hmem
  simpa using not_of_mem_splitOn h '\n' hmem

/-! ## All rows -/

/-- rows with a line feed behind each -/
def fed (rows : List (List Char)) : List Char := rows.flatMap (· ++ ['\n'])

/-- the rows that the last pass leaves: empty ones at the end are dropped -/
def finishedRows (text : List Char) : List (List Char) :=
  ((lines text).map (finishLine useTabs tabWidth)).rdropWhile List.isEmpty

theorem join_eq_fed {rows : List (List Char)} (h : rows ≠ []) : join ['\n'] rows ++ ['\n'] = fed rows := by
  induction rows with
  | nil => exact absurd rfl h
  | cons row rows ih =>
    cases rows with
    | nil => simp [join, fed]
    | cons next rows =>
      rw [join_cons _ _ (by simp), List.append_assoc, ih (by simp)]
      rfl

/-- line feeds at the end of joined rows are the empty rows there -/
theorem dropEndWhile_join {rows : List (List Char)} (h : ∀ row ∈ rows, '\n' ∉ row) :
    dropEndWhile (· == '\n') (join ['\n'] rows) = join ['\n'] (rows.rdropWhile List.isEmpty) := by
  induction rows using List.reverseRecOn with
  | nil => rfl
  | append_singleton rows row ih =>
    cases row with
    | nil =>
      rw [List.rdropWhile_concat_pos _ _ _ rfl]
      by_cases hrows : rows = []
      · subst hrows
        rfl
      · rw [join_concat hrows, dropEndWhile_append _ (by simp)]
        exact ih fun row hrow => h row (List.mem_append_left _ hrow)
    | cons c row =>
      rw [List.rdropWhile_concat_neg _ _ _ (by simp)]
      -- the last character of the last row stands, and it is no line feed
      have hlast : ∀ d ∈ (join ['\n'] (rows ++ [c :: row])).getLast?, (d == '\n') = false := by
        intro d hd
        have hmem : d ∈ c :: row := by
          refine List.mem_of_getLast? ?_
          by_cases hrows : rows = []
          · subst hrows
            exact hd
          · rw [join_concat hrows, List.append_cons, List.getLast?_append_of_ne_nil _ (by simp)] at hd
            exact hd
        refine beq_eq_false_iff_ne.2 ?_
        rintro rfl
        exact h (c :: row) (by simp) hmem
      simpa [dropEndWhile] using dropEndWhile_append_of_getLast [] hlast

theorem join_finishedRows_ne_nil {text : List Char} (h : finishedRows useTabs tabWidth text ≠ []) :
    join ['\n'] (finishedRows useTabs tabWidth text) ≠ [] := by
  have hlast : ¬(List.getLast _ h).isEmpty = true := List.rdropWhile_last_not _ _ h
  intro hnil
  have hwithin := within_join (List.getLast_mem h) ['\n']
  rw [hnil, List.infix_nil] at hwithin
  exact hlast (by rw [hwithin]; rfl)

theorem mem_finishedRows {text row : List Char} (h : row ∈ finishedRows useTabs tabWidth text) :
    ∃ line, '\n' ∉ line ∧ row = finishLine useTabs tabWidth line := by
  obtain ⟨line, hline, rfl⟩ := List.mem_map.1 ((List.rdropWhile_prefix _ _).subset h)
  exact ⟨line, lineFeed_not_mem_of_mem_lines hline, rfl⟩

theorem lineFeed_not_mem_finishedRows {text row : List Char} (h : row ∈ finishedRows useTabs tabWidth text) :
    '\n' ∉ row := by
  obtain ⟨line, hline, rfl⟩ := mem_finishedRows useTabs tabWidth h
  exact lineFeed_not_mem_finishLine useTabs tabWidth hline

/-- **The last pass gives finished rows**, each with a line feed behind it. -/
theorem finish_eq_fed (text : List Char) : finish useTabs tabWidth text = fed (finishedRows useTabs tabWidth text) := by
  have hrows : ∀ row ∈ (lines text).map (finishLine useTabs tabWidth), '\n' ∉ row := by
    intro row hrow
    obtain ⟨line, hline, rfl⟩ := List.mem_map.1 hrow
    exact lineFeed_not_mem_finishLine useTabs tabWidth (lineFeed_not_mem_of_mem_lines hline)
  simp only [finish, dropEndWhile_join hrows]
  rw [← finishedRows]
  by_cases hne : finishedRows useTabs tabWidth text = []
  · rw [hne]
    rfl
  · rw [if_neg (by simpa using join_finishedRows_ne_nil useTabs tabWidth hne), join_eq_fed hne]

theorem lines_fed {rows : List (List Char)} (h : ∀ row ∈ rows, '\n' ∉ row) : lines (fed rows) = rows ++ [[]] := by
  induction rows with
  | nil => rfl
  | cons row rows ih =>
    obtain ⟨hrow, hrows⟩ := List.forall_mem_cons.1 h
    rw [fed, List.flatMap_cons, List.append_assoc, List.singleton_append, lines_append hrow, ← fed, ih hrows]
    rfl

/-- a second pass finds the same rows -/
theorem finishedRows_fed (text : List Char) :
    finishedRows useTabs tabWidth (fed (finishedRows useTabs tabWidth text)) = finishedRows useTabs tabWidth text := by
  have hself : (finishedRows useTabs tabWidth text).map (finishLine useTabs tabWidth) =
      finishedRows useTabs tabWidth text := by
    refine List.map_congr_left (g := id) (fun row hrow => ?_) |>.trans (List.map_id _)
    obtain ⟨line, -, rfl⟩ := mem_finishedRows useTabs tabWidth hrow
    exact finishLine_finishLine useTabs tabWidth line
  have hempty : finishLine useTabs tabWidth [] = [] := by
    simp [finishLine_eq, trimEnd, dropEndWhile, indented_nil]
  conv_lhs => rw [finishedRows, lines_fed fun row => lineFeed_not_mem_finishedRows useTabs tabWidth]
  rw [List.map_append, hself, List.map_singleton, hempty, List.rdropWhile_concat_pos _ _ _ rfl, finishedRows,
    List.rdropWhile_idempotent]

/-! ## Normal texts -/

/-- a text that is empty or ends with one line feed, behind a character that is not blank, and has no blank at the end of
a line -/
structure LineNormal (text : List Char) : Prop where
  ending : text = [] ∨ ∃ body c, text = body ++ [c, '\n'] ∧ isBlank c = false
  rows : ∀ line ∈ lines text, EndsSolid line

theorem finish_finish (text : List Char) :
    finish useTabs tabWidth (finish useTabs tabWidth text) = finish useTabs tabWidth text := by
  rw [finish_eq_fed useTabs tabWidth text, finish_eq_fed, finishedRows_fed]

theorem lineNormal_finish (text : List Char) : LineNormal (finish useTabs tabWidth text) where
  ending := by
    rw [finish_eq_fed]
    by_cases hne : finishedRows useTabs tabWidth text = []
    · exact .inl (by rw [hne]; rfl)
    · right
      have hlast : ¬(List.getLast _ hne).isEmpty = true := List.rdropWhile_last_not _ _ hne
      obtain ⟨line, -, hrow⟩ := mem_finishedRows useTabs tabWidth (List.getLast_mem hne)
      have hsolid : EndsSolid (List.getLast _ hne) := hrow ▸ endsSolid_finishLine useTabs tabWidth line
      obtain hnil | ⟨front, c, hconcat⟩ := List.eq_nil_or_concat' (List.getLast _ hne)
      · exact absurd (by rw [hnil]; rfl) hlast
      · refine ⟨fed (finishedRows useTabs tabWidth text).dropLast ++ front, c, ?_, hsolid c (by simp [hconcat])⟩
        conv_lhs => rw [← List.dropLast_append_getLast hne, hconcat]
        simp [fed]
  rows := by
    intro line hline
    rw [finish_eq_fed, lines_fed fun row => lineFeed_not_mem_finishedRows useTabs tabWidth] at hline
    rcases List.mem_append.1 hline with hrow | hnone
    · obtain ⟨line, -, rfl⟩ := mem_finishedRows useTabs tabWidth hrow
      exact endsSolid_finishLine useTabs tabWidth line
    · obtain rfl := List.mem_singleton.1 hnone
      simp [EndsSolid]

end Layout

/-- **What is printed is in normal form**: for every text that can be read and all settings, the result is empty or ends
with one line feed behind a character that is not blank, no line of it ends with a blank, and the last pass leaves it as
it is. -/
theorem format_lineNormal {text : List Char} {d : Document} (h : parse text = .ok d) (o : Options) :
    ∃ out, format o text = .ok out ∧ Layout.LineNormal out ∧ Layout.finish o.useTabs o.tabWidth out = out := by
  refine ⟨d.print o, by rw [format, h]; rfl, ?_, ?_⟩
  · exact Layout.lineNormal_finish o.useTabs o.tabWidth _
  · exact Layout.finish_finish o.useTabs o.tabWidth _

/-- a comment and a string over several lines, with blanks before the line feeds and a row of blanks in between -/
def raggedRows : List Char := "f() \x7b /* a \r\n \t \n   b */ x = \x22p  \n     q\x22; \x7d\n\n".toList

theorem format_lineNormal_raggedRows : ∃ d, parse raggedRows = .ok d ∧
    (∃ out, format { useTabs := true, tabWidth := 3 } raggedRows = .ok out ∧ Layout.LineNormal out ∧
      Layout.finish true 3 out = out) ∧
    ∃ out, format { useTabs := true, tabWidth := 0 } raggedRows = .ok out ∧ Layout.LineNormal out ∧
      Layout.finish true 0 out = out := by
  have hparse : (parse raggedRows).toOption.isSome = true := by decide +kernel
  cases hd : parse raggedRows with
  | error e => simp [hd, Except.toOption] at hparse
  | ok d =>
    exact ⟨d, rfl, format_lineNormal hd { useTabs := true, tabWidth := 3 },
      format_lineNormal hd { useTabs := true, tabWidth := 0 }⟩

end LpcStyle
