import Mathlib.Tactic
import LpcStyle.Format
import LpcStyle.Proofs.Grammar.Statement
import LpcStyle.Proofs.Grammar.Walks.Parse

/-!
Formatting conserves content. The tree of a text without comments and preprocessor lines holds all its tokens, and the
layout prints all that the tree holds. Main statement: `content_format`.
-/

namespace LpcStyle

open Text Pattern LpcStyle.Parser

/-- no comment and no preprocessor line among the tokens -/
def Uncommented (ts : List Token) : Prop := ∀ t ∈ ts, t.kind.isComment = false ∧ t.kind ≠ .directive

instance (ts : List Token) : Decidable (Uncommented ts) := by
  unfold Uncommented
  infer_instance

/-- the source of a text that is cut into tokens up to its end -/
def Source.ofText (text : List Char) (hplain : PlainBlanks text) (hkinds : Uncommented (Stream.ofText text).toList)
    (hgoes : ¬(Stream.ofText text).Stalled) : Source where
  text := text
  tokens := (Stream.ofText text).ahead
  eof := (Stream.ofText text).eof
  eof_kind := Stream.eof_ofText text
  kinds t ht := by
    obtain ⟨hcomment, hdirective⟩ := hkinds t (Stream.ahead_subset_toList _ ht)
    exact ⟨hcomment, hdirective, Stream.ne_endOfFile_ofText text t ht⟩
  spelt t ht := Stream.spelt_ofText hplain t ht
  tiled := by simpa only [hgoes, not_false_eq_true] using Stream.tiled_ofText text

namespace Source

variable (σ : Source)

/-- the significant tokens have all the ink of the text -/
theorem content_text : content σ.text = inkOf (significant σ.tokens) := by
  rw [content, σ.tiled_significant.sift contentSieve trivial]
  rfl

/-- reading starts before all significant tokens -/
theorem fits_start : Fits σ { source := σ.text, ahead := σ.tokens, eof := σ.eof } (significant σ.tokens) :=
  ⟨rfl, rfl, rfl, by simp, List.suffix_rfl, rfl⟩

/-- **The statements of a file hold all its tokens.** -/
theorem reads_sourceFile (depth : Nat) : Reads σ (significant σ.tokens) (sourceFile (.upTo depth)) fun roots _ =>
    HoldAll σ roots (significant σ.tokens) := by
  unfold sourceFile
  refine .bind (Grammar.reads_statementList (Rules.sound_upTo depth) .file []) ?_
  rintro roots b ⟨⟨ts, hts, hroots⟩, hend⟩
  -- only the end of the file ends the list of its statements
  obtain rfl : b = [] := by
    cases b with
    | nil => rfl
    | cons t b =>
      have hmem : t ∈ significant σ.tokens := by simp [hts]
      have hkind := (σ.kinds t (List.mem_of_mem_filter hmem)).2.2
      exact absurd (by simpa using hend) hkind
  rw [List.append_nil] at hts
  rw [← hts] at hroots
  refine .raw_bind fun t _ => ?_
  extract_lets last finish
  have hfinish : Reads σ [] (finish ()) fun roots _ => HoldAll σ roots (significant σ.tokens) := by
    dsimp only [finish]
    split
    · exact .bind (P := fun _ _ => False) .unexpected (by simp)
    · exact .pure hroots
  split
  · exact .bind (P := fun _ _ => False) .refuse (by simp)
  · exact hfinish

end Source

/-- the document of a source is its text and statements that hold all its tokens -/
theorem Source.holds_parse {text : List Char} {d : Document} (hplain : PlainBlanks text)
    (hkinds : Uncommented (Stream.ofText text).toList) (hgoes : ¬(Stream.ofText text).Stalled) (h : parse text = .ok d) :
    d.text = text ∧ HoldAll (.ofText text hplain hkinds hgoes) d.roots
      (significant (Source.ofText text hplain hkinds hgoes).tokens) := by
  obtain ⟨htext, s, hrun⟩ := parseWith_eq_ok_iff.1 h
  obtain ⟨b, -, hroots⟩ :=
    (Source.ofText text hplain hkinds hgoes).reads_sourceFile _ _ (Source.fits_start _) d.roots s hrun
  exact ⟨htext, hroots⟩

/-- **Formatting conserves content**: under all options, a text without comments and preprocessor lines that can be read
is laid out, and blanks, semicolons and commas aside the result has the characters of the text in their order. -/
theorem content_format {text : List Char} {d : Document} (options : Options) (hplain : PlainBlanks text)
    (hkinds : Uncommented (Stream.ofText text).toList) (h : parse text = .ok d) :
    ∃ out, format options text = .ok out ∧ content out = content text := by
  have hgoes : ¬(Stream.ofText text).Stalled := (sitAll_parse h).2.1
  obtain ⟨htext, hroots⟩ := Source.holds_parse hplain hkinds hgoes h
  refine ⟨d.print options, by simp [format, h, bind, Except.bind, pure, Except.pure], ?_⟩
  calc content (d.print options)
    _ = d.roots.flatMap (Node.ink d.text) := content_print d options hroots.free
    _ = d.roots.flatMap (Node.ink text) := by rw [htext]
    _ = inkOf (significant (Stream.ofText text).ahead) := hroots.ink.symm
    _ = content text := (Source.ofText text hplain hkinds hgoes).content_text.symm

/-- a text with a modifier, a foreach, a cast and an array to be broken -/
def conserved : List Char :=
  "private int * f ( int a , string * b ) { foreach ( int x , int y : b ) a += ( int ) x [ 1 .. < 2 ] ; }".toList

theorem content_format_conserved : PlainBlanks conserved ∧ Uncommented (Stream.ofText conserved).toList ∧
    ∃ out, format { printWidth := 10 } conserved = .ok out ∧ content out = content conserved := by
  have hplain : PlainBlanks conserved := by decide +kernel
  have hkinds : Uncommented (Stream.ofText conserved).toList := by decide +kernel
  have hparse : (parse conserved).toOption.isSome = true := by decide +kernel
  cases hd : parse conserved with
  | error e => simp [hd, Except.toOption] at hparse
  | ok d => exact ⟨hplain, hkinds, content_format _ hplain hkinds hd⟩

namespace Style

/-! ## Tokens

The characters are conserved, but where nothing is printed between two parts, two tokens may be read as one. -/

/-- tokens that the printer may add, drop or move -/
def isLoose : Kind → Bool
  | .semicolon | .comma | .blankLines | .endOfFile => true
  | _ => false

/-- the other tokens of a text, by their kinds and what they spell without blanks -/
def tokenSequence (text : List Char) : List (Kind × List Char) :=
  ((Stream.ofText text).toList.filter (!isLoose ·.kind)).map fun t => (t.kind, t.text.filter (!isBlank ·))

/-- two names in an index that are printed as one -/
theorem tokenSequence_format_names_ne : PlainBlanks "a[b c];".toList ∧
    Uncommented (Stream.ofText "a[b c];".toList).toList ∧ format {} "a[b c];".toList = .ok "a[bc];\n".toList ∧
    tokenSequence "a[bc];\n".toList ≠ tokenSequence "a[b c];".toList := by
  decide +kernel

end Style

end LpcStyle
