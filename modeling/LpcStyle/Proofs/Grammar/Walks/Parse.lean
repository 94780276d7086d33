import Mathlib.Tactic
import LpcStyle.Proofs.Grammar.Comments
import LpcStyle.Proofs.Grammar.Walks.Statement
import LpcStyle.Text.Location

/-!
Whole texts. A text that is read to a tree has been walked through from its start to its end, and a text that is refused
up to the token that is wrong. Main statements:
- `parse_balances`: a text that is read to a tree has no fault, and its brackets are well-nested;
- `parse_places_errors`: an error stands at a token, and no fault stands before it.
-/

namespace LpcStyle

open Text Grammar LpcStyle.Parser

/-- **Every depth** that is allowed walks through the tokens. -/
theorem Rules.walk_upTo (text : List Char) (depth : Nat) : (Rules.upTo depth).Walk text := by
  induction depth with
  | zero => exact ⟨.exhausted, .exhausted, fun _ _ => .exhausted, .exhausted, fun _ => .exhausted⟩
  | succ depth ih =>
    exact ⟨walks_expression ih, walks_operand ih, fun h => walks_climb ih h, walks_argument ih, walks_statement ih⟩

variable {text : List Char}

/-! ## A run over a whole text -/

theorem run_of_parse_ok {d : Document} (h : parse text = .ok d) :
    ∃ s, (sourceFile (.ofText text)).run (.ofText text) = .ok (d.roots, s) := (parseWith_eq_ok_iff.1 h).2

theorem Failure.report_refused {cause : Cause} {span : Span} (h : cause ≠ .lexical .stalled) :
    (Failure.refused ⟨cause, span⟩).report = .refused ⟨cause, span⟩ := by
  unfold report
  split
  · next heq =>
    cases heq
    exact absurd rfl h
  · rfl

/-- only the error of a lexer that breaks off is reported as something else -/
theorem Failure.report_eq_refused {failure : Failure} {e : ParseError} (h : failure.report = .refused e) :
    failure = .refused e ∧ e.cause ≠ .lexical .stalled := by
  unfold Failure.report at h
  split at h
  · cases h
  · next hother =>
    subst h
    refine ⟨rfl, fun hcause => ?_⟩
    obtain ⟨cause, span⟩ := e
    obtain rfl : cause = .lexical .stalled := hcause
    exact hother span rfl

theorem run_of_parse_refused {e : ParseError} (h : parse text = .error (.refused e)) :
    (sourceFile (.ofText text)).run (.ofText text) = .error (.refused e) ∧ e.cause ≠ .lexical .stalled := by
  obtain ⟨failure, hrun, hreport⟩ := parseWith_eq_error_iff.1 h
  obtain ⟨rfl, hcause⟩ := Failure.report_eq_refused hreport
  exact ⟨hrun, hcause⟩

/-- reading starts with all tokens ahead and no bracket open -/
theorem Reading.stands_ofText (text : List Char) : (Reading.ofText text).Stands text [] 0 where
  eof := rfl
  held := by simp [Reading.ofText]
  behind := ⟨[], rfl, by simp, rfl⟩
  ascends := Stream.ascends_ofText text
  quiet _ := rfl

theorem walks_sourceFile {rules : Rules} (ok : rules.Walk text) :
    Walks text Anywhere [] 0 (sourceFile rules) [] (Node.SitAll text 0) := by
  unfold sourceFile
  refine .bind (walks_statementList ok .file []) fun roots m _ hroots => .raw_bind fun t => ?_
  cases hfault : t.fault with
  | some fault => exact .refuseRaw_bind hfault
  | none => exact .ite (fun _ => .unexpected_bind) fun _ => .pure hroots

/-- **A run over a whole text** gives nodes that lie in order, with no bracket left open, or refuses a token that stands
behind no fault. -/
theorem outcome_sourceFile (text : List Char) :
    Outcome text [] 0 (Node.SitAll text 0) ((sourceFile (.ofText text)).run (.ofText text)) :=
  walks_sourceFile (Rules.walk_upTo text _) _ (Reading.stands_ofText text) trivial

/-- reading ends before the end of the file, which has no fault -/
theorem raw_of_sourceFile {rules : Rules} {r s : Reading} {roots : List Node}
    (h : (sourceFile rules).run r = .ok (roots, s)) : s.raw.kind = .endOfFile ∧ s.raw.fault = none := by
  obtain ⟨items, t, hlist, hrun⟩ := Parser.of_run_bind h
  have hend := raw_of_statementList hlist
  rw [Parser.run_raw_bind] at hrun
  cases hfault : t.raw.fault with
  | some fault =>
    rw [hfault] at hrun
    cases hrun
  | none =>
    simp only [hfault, hend, ne_eq, not_true_eq_false, if_false] at hrun
    cases hrun
    exact ⟨hend, hfault⟩

/-- **The tokens of a text** once only its end is ahead: none has a fault, and their brackets leave open what is open. -/
theorem Reading.Stands.finished {opened : List Enclosure} {lo : Nat} {s : Reading} (h : s.Stands text opened lo)
    (hkind : s.raw.kind = .endOfFile) (hfault : s.raw.fault = none) :
    (∀ t ∈ (Stream.ofText text).closed, t.fault = none) ∧ nesting [] (Stream.ofText text).closed = some opened := by
  have hnil := h.sane.ahead_eq_nil hkind
  have hheld : s.held = none := by
    cases hheld : s.held with
    | none => rfl
    | some b =>
      rw [Reading.raw, hheld, Option.getD_some, (h.held b (by simp [hheld])).1] at hkind
      cases hkind
  have heof : s.raw = (Stream.ofText text).eof := by
    rw [Reading.raw, hheld, Option.getD_none, Reading.front, hnil, List.headD_nil, h.eof]
  obtain ⟨before, hahead, hclean, hopened⟩ := h.behind
  rw [hnil, List.append_nil] at hahead
  constructor
  · rw [Stream.closed, hahead]
    exact List.forall_mem_append.2 ⟨hclean, List.forall_mem_singleton.2 (heof ▸ hfault)⟩
  · rw [Stream.closed, nesting_append, hahead, hopened]
    refine nesting_of_bracket_none (List.forall_mem_singleton.2 ?_) opened
    rw [Stream.eof_ofText]
    rfl

/-- **A text that is read to a tree**: its roots lie in order, it has been read to the end, and no call broke off. -/
theorem sitAll_parse {d : Document} (h : parse text = .ok d) :
    (∃ hi, Node.SitAll text 0 d.roots hi) ∧ ¬(Stream.ofText text).Stalled ∧
      (∀ t ∈ (Stream.ofText text).toList, t.fault = none) ∧ nesting [] (Stream.ofText text).toList = some [] := by
  obtain ⟨s, hrun⟩ := run_of_parse_ok h
  have houtcome := outcome_sourceFile text
  rw [hrun] at houtcome
  obtain ⟨hi, -, hstands, hroots⟩ := houtcome
  obtain ⟨hkind, hfault⟩ := raw_of_sourceFile hrun
  obtain ⟨hclean, hnesting⟩ := hstands.finished hkind hfault
  have hgoes : ¬(Stream.ofText text).Stalled := by
    rw [Stream.Stalled, hclean _ (by simp [Stream.closed])]
    simp
  rw [Stream.toList_of_not_stalled hgoes]
  exact ⟨⟨hi, hroots⟩, hgoes, hclean, hnesting⟩

/-- **A text that is refused** is refused at a token that stands behind no fault, whose own fault the error names. -/
theorem blames_parse {e : ParseError} (h : parse text = .error (.refused e)) : Blames text e := by
  have houtcome := outcome_sourceFile text
  rw [(run_of_parse_refused h).1] at houtcome
  exact houtcome e rfl

/-- only a lexer that breaks off is refused for its want of progress -/
theorem stalled_of_run {e : ParseError} (h : (sourceFile (.ofText text)).run (.ofText text) = .error (.refused e))
    (hcause : e.cause = .lexical .stalled) : (Stream.ofText text).Stalled := by
  have houtcome := outcome_sourceFile text
  rw [h] at houtcome
  obtain ⟨t, ⟨before, after, hclosed, -⟩, -, hfault⟩ := houtcome e rfl
  have ht : t ∈ (Stream.ofText text).closed := by simp [hclosed]
  have hmark := (hfault _).2 hcause
  rcases List.mem_append.1 ht with hahead | heof
  · exact absurd hmark (Stream.fault_ne_stalled_ofText text t hahead)
  · rw [List.mem_singleton.1 heof] at hmark
    exact hmark

/-! ## Brackets -/

/-- **A text that is read to a tree is clean and balanced**: no token has a fault, the end of the file included, and its
brackets, the braces and those that the lexer pairs, are well-nested together. -/
theorem parse_balances {d : Document} (h : parse text = .ok d) :
    (∀ t ∈ (Stream.ofText text).toList, t.fault = none) ∧ WellNested (marks (Stream.ofText text).toList) := by
  obtain ⟨-, -, hclean, hnesting⟩ := sitAll_parse h
  exact ⟨hclean, wellNested_of_nesting hnesting⟩

/-- brackets of every construct -/
def bracketed : List Char :=
  "void f(int i) \x7b\n  a = (\x7b ([ i : b[0] ]), (: return $1; :), lambda((\x7b 1 \x7d), 2) \x7d);\n\x7d\n".toList

/-- eight brackets, each with the one that closes it -/
theorem parse_balances_bracketed : (∃ d, parse bracketed = .ok d) ∧ (marks (Stream.ofText bracketed).toList).length = 16 ∧
    WellNested (marks (Stream.ofText bracketed).toList) := by
  have hparse : (parse bracketed).toOption.isSome = true := by decide +kernel
  have hcount : (marks (Stream.ofText bracketed).toList).length = 16 := by decide +kernel
  cases h : parse bracketed with
  | error e =>
    rw [h] at hparse
    cases hparse
  | ok d => exact ⟨⟨d, rfl⟩, hcount, (parse_balances h).2⟩

/-! ## Errors -/

/-- an end of a span that selects a part of the text has a location -/
theorem locate_of_slice {span : Span} {part : List Char} (h : slice? text span = some part) :
    span.start ≤ span.stop ∧ span.stop ≤ byteLength text ∧ (locate? text span.start).isSome = true ∧
      (locate? text span.stop).isSome = true := by
  obtain ⟨before, after, rfl, hstart, hstop⟩ := slice?_eq_some_iff.1 h
  have hlength : span.stop + byteLength after = byteLength (before ++ part ++ after) := by
    rw [byteLength_append, byteLength_append, hstart, hstop]
  have hlocate {front back : List Char} (h : before ++ part ++ after = front ++ back) :
      (locate? (before ++ part ++ after) (byteLength front)).isSome = true := by
    have hmin : min (byteLength front) (byteLength (before ++ part ++ after)) = byteLength front := by
      rw [h, byteLength_append]
      omega
    rw [locate?, hmin, takeBytes?_eq_some_iff.2 ⟨back, h, rfl⟩]
    rfl
  refine ⟨by omega, by omega, ?_, ?_⟩
  · rw [← hstart]
    exact hlocate (List.append_assoc _ _ _)
  · have hfront : byteLength (before ++ part) = span.stop := by rw [byteLength_append, hstart, hstop]
    rw [← hfront]
    exact hlocate rfl

namespace Blames

variable {e : ParseError} {t : Token}

/-- what is blamed is a token of the text, unless a call broke off -/
theorem token (h : Blames text e) (hcause : e.cause ≠ .lexical .stalled) : ∃ t ∈ (Stream.ofText text).toList,
    t.span = e.span ∧ (∀ fault, t.fault = some fault ↔ e.cause = .lexical fault) ∧ slice? text e.span = some t.text := by
  obtain ⟨t, ⟨before, after, hclosed, -⟩, hspan, hfault⟩ := h
  have ht : t ∈ (Stream.ofText text).closed := by simp [hclosed]
  refine ⟨t, ?_, hspan, hfault, hspan ▸ Stream.slice_ofText text t ht⟩
  rcases List.mem_append.1 ht with hahead | heof
  · exact Stream.ahead_subset_toList _ hahead
  · have hgoes : ¬(Stream.ofText text).Stalled := fun hstalled => hcause ((hfault _).1 (List.mem_singleton.1 heof ▸ hstalled))
    rwa [Stream.toList_of_not_stalled hgoes]

/-- a token with a fault stands at what is blamed or behind it -/
theorem start_le (h : Blames text e) (ht : t ∈ (Stream.ofText text).toList) (hfault : t.fault ≠ none) :
    e.span.start ≤ t.span.start := by
  obtain ⟨u, ⟨before, after, hclosed, hclean⟩, hspan, -⟩ := h
  have hascends : Ascends 0 (before ++ u :: after) := hclosed ▸ Stream.ascends_ofText text
  have ht := Stream.toList_subset_closed _ ht
  rw [hclosed] at ht
  rw [← hspan]
  rcases List.mem_append.1 ht with hbefore | hbehind
  · exact absurd (hclean t hbefore) hfault
  · rcases List.mem_cons.1 hbehind with rfl | hafter
    · exact le_rfl
    · have hlater := hascends.right.2
      exact hlater.1.trans (hlater.2.start_le hafter)

end Blames

/-- **Errors are well placed.** An error has the span of a token of its text, whose fault it names if there is one; so it lies
in the text, and its ends have locations. And a text with a faulty token, or whose end is faulty, is never read to a tree, and no error in it starts behind
the first such token. -/
theorem parse_places_errors (text : List Char) :
    (∀ e, parse text = .error (.refused e) →
      (∃ t ∈ (Stream.ofText text).toList, t.span = e.span ∧ ∀ fault, t.fault = some fault ↔ e.cause = .lexical fault) ∧
      e.span.start ≤ e.span.stop ∧ e.span.stop ≤ byteLength text ∧ (slice? text e.span).isSome = true ∧
      (locate? text e.span.start).isSome = true ∧ (locate? text e.span.stop).isSome = true) ∧
    ∀ t ∈ (Stream.ofText text).toList, t.fault ≠ none → (∀ d, parse text ≠ .ok d) ∧
      ∀ e, parse text = .error (.refused e) → e.span.start ≤ t.span.start := by
  constructor
  · intro e he
    obtain ⟨t, ht, hspan, hnamed, hslice⟩ := (blames_parse he).token (run_of_parse_refused he).2
    obtain ⟨hordered, hinside, hstart, hstop⟩ := locate_of_slice hslice
    exact ⟨⟨t, ht, hspan, hnamed⟩, hordered, hinside, by rw [hslice]; rfl, hstart, hstop⟩
  · intro t ht hfault
    constructor
    · intro d hd
      exact hfault ((sitAll_parse hd).2.2.1 t ht)
    · intro e he
      exact (blames_parse he).start_le ht hfault

/-- a string that is not closed, behind a call that is not complete -/
def unclosed : List Char := "f(1 2 \"x".toList

/-- the error stands at the number, before the string -/
theorem parse_places_errors_unclosed : ∃ e, parse unclosed = .error (.refused e) ∧
    (∃ t ∈ (Stream.ofText unclosed).toList, t.fault ≠ none) ∧ (∃ t ∈ (Stream.ofText unclosed).toList, t.span = e.span) ∧
    ∀ t ∈ (Stream.ofText unclosed).toList, t.fault ≠ none → e.span.start ≤ t.span.start := by
  have hfault : ∃ t ∈ (Stream.ofText unclosed).toList, t.fault ≠ none := by decide +kernel
  have hmap : (parse unclosed).map (fun _ => ()) = .error (.refused ⟨.expected (.separator ")") (some ['2']), ⟨4, 5⟩⟩) := by
    decide +kernel
  have hparse : parse unclosed = .error (.refused ⟨.expected (.separator ")") (some ['2']), ⟨4, 5⟩⟩) := by
    cases h : parse unclosed with
    | ok d =>
      rw [h] at hmap
      cases hmap
    | error failure =>
      rw [h] at hmap
      cases hmap
      rfl
  obtain ⟨hplaced, hfaults⟩ := parse_places_errors unclosed
  obtain ⟨t, ht, hspan, -⟩ := (hplaced _ hparse).1
  exact ⟨_, hparse, hfault, ⟨t, ht, hspan⟩, fun t ht hfault => (hfaults t ht hfault).2 _ hparse⟩

end LpcStyle
