import Mathlib.Tactic
import LpcStyle.Proofs.Grammar.Typeset.File
import LpcStyle.Proofs.Style.Typeset

/-!
The layouts of files of sentences. Every layout is a text of the statements, one on a line, with an empty line where the
sentence has a blank line before it (`lays_sourceFile`), and the last pass leaves such a text behind (`finish_statements`).
Files whose nodes write the same terms are printed the same (`sourceFile_eq`).
-/

namespace LpcStyle

open Text Style

variable {env : Env} {flat : Bool} {t : List Char}

/-! ## Statements -/

theorem Writes.takesSemicolon {tok : Nat → Token} {i j : Nat} {n : Node} {e : Term} (h : Writes tok i j n e) :
    takesSemicolon n.shape = true := by
  cases h <;> first | rfl | (simp only [Node.shape, joint]; split_ifs <;> rfl)

/-- a term that stands as a statement has a semicolon -/
theorem Writes.full_listed {tok : Nat → Token} {i j : Nat} {n : Node} {e : Term} (h : Writes tok i j n e) (env : Env) :
    (print env .listed n).full = (print env .listed n).bare.grouped ++ Doc.lit ";" := by
  have hslot : (print env .listed n).slot.isStatement = true := by
    cases n
    rfl
  rw [Printed.full, Printed.shape, Printed.suffix, node_print, h.takesSemicolon, hslot, h.suffix]
  simp

/-- every layout of the sentence as a statement is a text of its term -/
def Sentence.Laid (env : Env) (x : Sentence) : Prop :=
  ∀ flat t, (print env .listed x.node).full.Lays flat t → ∃ w, Typeset x.term w ∧ t = w ++ [';']

theorem Sentence.ReadFrom.laid {text : List Char} {x : Sentence} (h : x.ReadFrom text) (hquiet : Quiet text)
    (hlegitimate : Legitimate text) (henv : env.source = text) (hn : x.node.RefersNowhere) : x.Laid env := by
  intro flat t ht
  have hlt := h.writes.lt
  have hlength : x.start + x.size ≤ (row text).length := by
    have := lt_length_of_place (Echo.ne_endOfFile_of_isTerm (h.terms (x.size - 1) (by omega)))
    omega
  have hwrites := h.writes.shift
  rw [hwrites.full_listed] at ht
  obtain ⟨w, rfl, hw⟩ := Doc.lays_andThen_lit.1 ht
  obtain ⟨flat', -, hw⟩ := hw.ungroup
  exact ⟨w, hwrites.typeset hquiet hlegitimate henv hlength (hwrites.sound hlegitimate hn) hw, rfl⟩

/-! ## Files -/

theorem lays_newline {d : Doc} (h : (Doc.hardline ++ d).Lays flat t) :
    ∃ k w, d.Lays flat w ∧ t = '\n' :: List.replicate k ' ' ++ w := by
  obtain ⟨_, w, rfl, hline, hw⟩ := Doc.lays_andThen.1 h
  obtain ⟨-, k, rfl⟩ := Doc.lays_hardline.1 hline
  exact ⟨k, w, hw, rfl⟩

theorem full_blank (env : Env) (t : Token) : (print env .listed (Parser.leaf t .blankLine)).full = .nil := by
  simp only [Parser.leaf, print, layout]
  rfl

theorem lays_blank {b : Token} (h : (print env .listed (Parser.leaf b .blankLine)).full.Lays flat t) : t = [] := by
  rwa [full_blank, Doc.lays_nil] at h

/-- an empty line -/
theorem blankGap_newlines (k m : Nat) : BlankGap ('\n' :: List.replicate k ' ' ++ '\n' :: List.replicate m ' ') where
  blank := List.forall_mem_append.2 ⟨(Doc.wideGap_newline k).blank, (Doc.wideGap_newline m).blank⟩
  lineFeeds := by simp [List.count_append]

/-- sentences on lines of their own after a statement -/
theorem lays_later {G : List Sentence} (hG : ∀ x ∈ G, x.Laid env) {ts : List (List Char)}
    (hts : List.Forall₂ (fun d t => (Doc.hardline ++ d).Lays flat t)
      ((G.flatMap Sentence.nodes).map fun n => (print env .listed n).full) ts)
    (blank : Bool) {e : Term} {w : List Char} (hw : Typeset e w) :
    TypesetAll ((blank, e) :: G.map Sentence.told) (w ++ [';'] ++ ts.flatten) := by
  induction G generalizing ts blank e w with
  | nil =>
    cases hts
    simpa using TypesetAll.last hw
  | cons x G ih =>
    obtain ⟨hx, hlater⟩ := List.forall_mem_cons.1 hG
    obtain ⟨before, node, term, start, size⟩ := x
    cases before with
    | none =>
      cases hts with
      | cons hline hts =>
        obtain ⟨k, _, hnode, rfl⟩ := lays_newline hline
        obtain ⟨v, hv, rfl⟩ := hx _ _ hnode
        have hmore : TypesetAll ((blank, e) :: (false, term) :: G.map Sentence.told) _ :=
          .more hw (Doc.wideGap_newline k) (ih hlater hts false hv)
        simpa [Sentence.told] using hmore
    | some b =>
      cases hts with
      | cons hblank hts =>
        cases hts with
        | cons hline hts =>
          obtain ⟨k, _, hnil, rfl⟩ := lays_newline hblank
          obtain rfl := lays_blank hnil
          obtain ⟨m, _, hnode, rfl⟩ := lays_newline hline
          obtain ⟨v, hv, rfl⟩ := hx _ _ hnode
          have hmore : TypesetAll ((blank, e) :: (true, term) :: G.map Sentence.told) _ :=
            .more hw (blankGap_newlines k m) (ih hlater hts true hv)
          simpa [Sentence.told] using hmore

/-- **Every layout of sentences** is a text of their statements and a line end. -/
theorem lays_sourceFile {x : Sentence} {G : List Sentence} (hlaid : ∀ y ∈ x :: G, y.Laid env) (hfirst : x.blank = none)
    (h : (Style.sourceFile env ((x :: G).flatMap Sentence.nodes)).Lays flat t) :
    ∃ w k, TypesetAll ((x :: G).map Sentence.told) w ∧ t = w ++ '\n' :: List.replicate k ' ' := by
  obtain ⟨before, node, term, start, size⟩ := x
  subst hfirst
  obtain ⟨hx, hG⟩ := List.forall_mem_cons.1 hlaid
  have hnodes : ((⟨none, node, term, start, size⟩ : Sentence) :: G).flatMap Sentence.nodes = node :: G.flatMap Sentence.nodes :=
    rfl
  rw [hnodes, Style.sourceFile, List.isEmpty_cons, if_neg Bool.false_ne_true, printAll_eq_map] at h
  obtain ⟨_, _, rfl, hstatements, hend⟩ := Doc.lays_andThen.1 h
  obtain ⟨-, k, rfl⟩ := Doc.lays_hardline.1 hend
  rw [statements, List.map_cons, List.map_cons, Doc.join, List.map_map, Doc.lays_joined] at hstatements
  obtain ⟨_, ts, rfl, hnode, hts⟩ := hstatements
  obtain ⟨w, hw, rfl⟩ := hx _ _ hnode
  exact ⟨_, k, lays_later hG hts false hw, rfl⟩

/-- **What the last pass makes of statements** is a text of them with one line feed behind it. -/
theorem finish_statements (useTabs : Bool) (tabWidth : Nat) {es : List (Bool × Term)} {w : List Char}
    (h : TypesetAll es w) (k : Nat) : ∃ w', TypesetAll es w' ∧
      Layout.finish useTabs tabWidth (w ++ '\n' :: List.replicate k ' ') = w' ++ ['\n'] := by
  have hlast : Layout.finishLines useTabs tabWidth (List.replicate k ' ') = [] := by
    have hline : '\n' ∉ List.replicate k ' ' := fun hmem => absurd (List.eq_of_mem_replicate hmem) (by decide)
    have hblank : trimEnd (List.replicate k ' ') = [] := by
      simp [trimEnd, dropEndWhile, show isBlank ' ' = true by decide]
    rw [Layout.finishLines_line _ _ hline, Layout.finishLine_eq, hblank, Layout.indented_nil]
  have hfinish := h.finish useTabs tabWidth
  obtain ⟨front, hfront⟩ := hfinish.ends
  refine ⟨_, hfinish, ?_⟩
  have hbody : dropEndWhile (· == '\n') (Layout.finishLines useTabs tabWidth (w ++ '\n' :: List.replicate k ' ')) =
      Layout.finishLines useTabs tabWidth w := by
    rw [Layout.finishLines_newline, hlast, hfront]
    simp [dropEndWhile]
  rw [Layout.finish, ← Layout.finishLines, hbody, if_neg (by simp [hfront])]

/-! ## The same statements in two texts -/

section

variable {text text' : List Char} {env' : Env} {n n' : Node} {ns ns' : List Node}

/-- statements that are read again are the same but for their places -/
theorem Again.unplaced (h : Again text text' n n') : n.unplaced true = n'.unplaced true := by
  cases h with
  | blank => rfl
  | term h h' =>
    obtain ⟨i, j, -, h⟩ := h
    obtain ⟨i', j', -, h'⟩ := h'
    exact h.unplaced h'

theorem unplacedAll_eq_of_again (h : List.Forall₂ (Again text text') ns ns') :
    Node.unplacedAll true ns = Node.unplacedAll true ns' := by
  induction h with
  | nil => rfl
  | cons hn _ ih => simp [Node.unplacedAll, hn.unplaced, ih]

variable (hquiet : Quiet text) (hquiet' : Quiet text') (hlegitimate : Legitimate text)
  (hspelt' : ∀ k, Spelt (place text' k).kind (place text' k).text) (henv : env.source = text) (henv' : env'.source = text')
  (hoptions : env.options = env'.options)

include hquiet hquiet' hlegitimate hspelt' henv henv' hoptions

theorem Again.full_eq (h : Again text text' n n') (hn : n.RefersNowhere) :
    (print env .listed n).full = (print env' .listed n').full := by
  cases h with
  | blank => rw [full_blank, full_blank]
  | term h h' =>
    obtain ⟨i, j, hj, h⟩ := h
    obtain ⟨i', j', hj', h'⟩ := h'
    rw [h.full_listed, h'.full_listed, h.bare_eq hquiet hquiet' hlegitimate.spelt hspelt' henv henv' hoptions h' hj hj'
      (h.sound hlegitimate hn) rfl]

/-- **Statements that are read again are printed again.** -/
theorem sourceFile_eq (h : List.Forall₂ (Again text text') ns ns') (hns : ∀ n ∈ ns, n.RefersNowhere) :
    Style.sourceFile env ns = Style.sourceFile env' ns' := by
  have hfull : (ns.map (print env .listed)).map Printed.full = (ns'.map (print env' .listed)).map Printed.full := by
    induction h with
    | nil => rfl
    | cons hn _ ih =>
      obtain ⟨hfirst, hlater⟩ := List.forall_mem_cons.1 hns
      simp only [List.map_cons, hn.full_eq hquiet hquiet' hlegitimate hspelt' henv henv' hoptions hfirst, ih hlater]
  have hempty : ns.isEmpty = ns'.isEmpty := by
    cases h <;> rfl
  rw [Style.sourceFile, Style.sourceFile, hempty, printAll_eq_map, printAll_eq_map, statements, statements, hfull]

end

end LpcStyle
