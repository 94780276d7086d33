import Mathlib.Tactic
import LpcStyle.Proofs.Grammar.Declaration
import LpcStyle.Proofs.Text.Rows

/-!
Statements, and by induction over the depth of calls all rules: `Rules.sound_upTo`. The separator of a `foreach` is read
off the source text between its variables and what they run through: `Source.foreachMark_eq`.
-/

namespace LpcStyle

open Text LpcStyle.Parser

variable {σ : Source} {rules : Rules} {a b : List Token} {ts us : List Token}

/-! ## The separator of a foreach -/

theorem trim_frame {gap word gap' : List Char} (hgap : ∀ c ∈ gap, isBlank c = true)
    (hword : ∀ c ∈ word, isBlank c = false) (hgap' : ∀ c ∈ gap', isBlank c = true) : trim (gap ++ word ++ gap') = word := by
  rw [trim_blanks word hgap hgap']
  exact Trimmed.trim_eq ⟨fun c hc => hword c (List.mem_of_mem_head? hc), fun c hc => hword c (List.mem_of_mem_getLast? hc)⟩

theorem foreachMarks : (content "in".toList = mark "in" ∧ ∀ c ∈ "in".toList, isBlank c = false) ∧
    content ":".toList = mark ":" ∧ ∀ c ∈ ":".toList, isBlank c = false :=
  ⟨⟨by decide +kernel, plain_of_all (by decide +kernel)⟩, by decide +kernel, plain_of_all (by decide +kernel)⟩

/-- the separator as it is found in the source text is the token between the variables and what they run through -/
theorem Source.foreachMark_eq {separator : Token} {n iterable : Node} (ns : List Node)
    (h : ts ++ separator :: (us ++ b) <:+ significant σ.tokens) (hk : separator.kind = .foreachIn)
    (hstop : ts.getLast?.map (·.span.stop) = some n.stop) (hiterable : iterable.Covers σ us) :
    foreachMark σ.text (n :: ns).reverse iterable = separator.ink := by
  have hspelt : separator.text = "in".toList ∨ separator.text = ":".toList := by
    have hmem : separator ∈ σ.tokens := List.mem_of_mem_filter (h.mem (by simp))
    simpa [hk] using σ.spelt separator hmem
  have hstart := hiterable.start
  obtain _ | ⟨w, us⟩ := us
  · simp at hstart
  cases ts using List.reverseRecOn with
  | nil => simp at hstop
  | append_singleton ts t =>
    obtain ⟨front, hfront⟩ := h
    have htiled := σ.tiled_significant
    have hsplit : front ++ (ts ++ [t] ++ separator :: (w :: us ++ b)) = front ++ ts ++ t :: separator :: w :: (us ++ b) := by
      simp
    rw [← hfront, hsplit] at htiled
    obtain ⟨gap, gap', hgap, hgap', hslice⟩ := htiled.slice_gap
    simp only [List.getLast?_append, List.getLast?_singleton, Option.some_or, Option.map_some, Option.some.injEq] at hstop
    simp only [List.head?_cons, Option.map_some, Option.some.injEq] at hstart
    have hvars : ((n :: ns).reverse.getLast?.map Node.stop).getD iterable.start = t.span.stop := by simp [hstop]
    rw [foreachMark, hvars, ← hstart, hslice]
    rcases hspelt with htext | htext
    · rw [htext, trim_frame hgap foreachMarks.1.2 hgap', if_pos (by simp), Token.ink, htext, foreachMarks.1.1]
    · rw [htext, trim_frame hgap foreachMarks.2.2 hgap', if_neg (by decide), Token.ink, htext, foreachMarks.2.1]

namespace Grammar

/-! ## Bodies and branches -/

theorem reads_headComments : Reads σ a headComments fun found b => found = [] ∧ b = a := by
  unfold headComments
  refine .bind (P := fun found b => found = [] ∧ b = a) (.loop (fun found b => found = [] ∧ b = a) ⟨rfl, rfl⟩ ?_) ?_
  · rintro found b ⟨rfl, rfl⟩
    refine .known_next fun htrivia _ => .raw_bind fun t ht => ?_
    have hcomment : t.kind.isComment = false := by
      rcases ht with hblank | rfl
      · rw [hblank]
        rfl
      · simpa [Kind.isTrivia] using (Bool.or_eq_false_iff.1 htrivia).1
    rw [hcomment]
    exact .pure ⟨rfl, rfl⟩
  · rintro found b ⟨rfl, rfl⟩
    exact .pure ⟨rfl, rfl⟩

theorem reads_placeholder : Reads σ a placeholder (Stated σ a) := by
  unfold placeholder
  refine .expect_bind (by simp) ?_
  rintro semicolon b rfl -
  exact .pure ⟨[semicolon], rfl, (Node.Covers.leaf rfl rfl rfl).toHolds⟩

theorem reads_body (ok : rules.Sound σ) : Reads σ a (body rules) (Stated σ a) := by
  unfold body
  refine .bind reads_headComments ?_
  rintro comments b ⟨rfl, rfl⟩
  change Reads σ b (do
    if ← at? .leftBrace then block rules none
    else if ← at? .semicolon then placeholder else rules.statement .block) (Stated σ b)
  refine .at_bind ?_
  split
  · exact (reads_block ok).mono fun _ _ => Spanned.stated
  refine .at_bind ?_
  split
  · exact reads_placeholder
  · exact ok.statement .block b

/-- an expression in parentheses, and the tokens around it -/
theorem reads_condition (ok : rules.Sound σ) : Reads σ a (condition rules) fun test b =>
    ∃ ts, a = ts ++ b ∧ inkOf ts = mark "(" ++ test.ink σ.text ++ mark ")" ∧ test.DirectiveFree := by
  unfold condition
  refine .mark_bind rfl ?_
  rintro start b rfl - hstart
  refine .bind (ok.expression b) ?_
  rintro test c ⟨ts, rfl, htest⟩
  refine .mark_bind rfl ?_
  rintro close d rfl - hclose
  exact .pure ⟨start :: ts ++ [close], by simp, by simp [hstart, htest.ink, hclose], htest.free⟩

theorem reads_ifElse (ok : rules.Sound σ) (hk : (σ.next a).kind = .ifWord) :
    Reads σ a (ifElse rules) (Stated σ a) := by
  unfold ifElse
  refine .takeMark_bind rfl hk ?_
  rintro keyword b rfl - hkeyword
  refine .mark_bind rfl ?_
  rintro start c rfl - hstart
  refine .bind (ok.expression c) ?_
  rintro test d ⟨ts, rfl, htest⟩
  refine .at_bind ?_
  dsimp only
  split
  · refine .peek_bind (.bind (P := fun _ _ => False) .refuse (by simp))
  refine .mark_bind rfl ?_
  rintro close e rfl - hclose
  refine .bind (reads_body ok) ?_
  rintro consequent f ⟨us, rfl, hconsequent⟩
  refine .trailingComment_bind (.bind (.holdBlank rfl : Reads σ f holdBlank fun _ h => h = f) ?_)
  rintro - h rfl
  refine .get_bind fun r hr => ?_
  split
  swap
  · refine .build ⟨keyword :: start :: ts ++ close :: us, by simp, .ofShape ?_ rfl ?_⟩
    · simp [Shape.ink, hkeyword, hstart, htest.ink, hclose, hconsequent.ink]
    · simp [Shape.parts, htest.free, hconsequent.free]
  next helse =>
  rw [hr.front_eq (by simp [helse, Kind.isTrivia, Kind.isComment])] at helse
  refine .bind (.dropHeld rfl : Reads σ h dropHeld fun _ c => c = h) ?_
  rintro - c rfl
  refine .takeMark_bind rfl helse ?_
  rintro word d rfl - hword
  -- a chained condition and a plain body are put together with the rest in the same way
  have hjoin {alternate : Node} {e : List Token} (h : Stated σ d alternate e) :
      Reads σ e (build keyword.span.start alternate.stop (.ifElse test consequent (some alternate)))
        (Stated σ (keyword :: start :: (ts ++ close :: (us ++ word :: d)))) := by
    obtain ⟨vs, rfl, halternate⟩ := h
    refine .build ⟨keyword :: start :: ts ++ close :: us ++ word :: vs, by simp, .ofShape ?_ rfl ?_⟩
    · simp [Shape.ink, hkeyword, hstart, htest.ink, hclose, hconsequent.ink, hword, halternate.ink]
    · simp [Shape.parts, htest.free, hconsequent.free, halternate.free]
  refine .at_bind ?_
  split
  · exact .bind (ok.statement .block d) fun _ _ => hjoin
  · exact .bind (reads_body ok) fun _ _ => hjoin

/-! ## Loops -/

theorem reads_whileLoop (ok : rules.Sound σ) (hk : (σ.next a).kind = .whileWord) :
    Reads σ a (whileLoop rules) (Stated σ a) := by
  unfold whileLoop
  refine .takeMark_bind rfl hk ?_
  rintro keyword b rfl - hkeyword
  refine .bind (reads_condition ok) ?_
  rintro test c ⟨ts, rfl, htest, hfree⟩
  refine .bind (reads_body ok) ?_
  rintro body d ⟨us, rfl, hbody⟩
  refine .build ⟨keyword :: ts ++ us, by simp, .ofShape ?_ rfl ?_⟩
  · simp [Shape.ink, hkeyword, htest, hbody.ink]
  · simp [Shape.parts, hfree, hbody.free]

theorem reads_doWhile (ok : rules.Sound σ) (hk : (σ.next a).kind = .doWord) :
    Reads σ a (doWhile rules) (Stated σ a) := by
  unfold doWhile
  refine .takeMark_bind rfl hk ?_
  rintro keyword b rfl - hkeyword
  refine .bind (reads_body ok) ?_
  rintro body c ⟨ts, rfl, hbody⟩
  refine .mark_bind rfl ?_
  rintro word d rfl - hword
  refine .bind (reads_condition ok) ?_
  rintro test e ⟨us, rfl, htest, hfree⟩
  refine .mark_bind rfl ?_
  rintro semicolon f rfl - hsemicolon
  refine .build ⟨keyword :: ts ++ word :: us ++ [semicolon], by simp, .ofShape ?_ rfl ?_⟩
  · simp [Shape.ink, hkeyword, hbody.ink, hword, htest, hsemicolon]
  · simp [Shape.parts, hbody.free, hfree]

/-- an expression, or several with commas between them -/
theorem reads_commaList (ok : rules.Sound σ) : Reads σ a (commaList rules) (Stated σ a) := by
  unfold commaList
  refine .bind (ok.expression a) ?_
  rintro first b ⟨ts, rfl, hfirst⟩
  refine .bind (P := fun items c => ∃ n ns us, items = n :: ns ∧ b = us ++ c ∧ Chain σ n ns (ts ++ us) ∧
      (ns = [] → n = first)) (.loop (fun items c => ∃ n ns us, items = n :: ns ∧ b = us ++ c ∧ Chain σ n ns (ts ++ us) ∧
      (ns = [] → n = first)) ⟨first, [], [], rfl, rfl, by simpa using .one hfirst, fun _ => rfl⟩ ?_) ?_
  · rintro items c ⟨n, ns, us, rfl, rfl, hchain, hone⟩
    refine .eatMark_bind rfl (fun _ => .pure ⟨n, ns, us, rfl, rfl, hchain, hone⟩) ?_
    rintro comma d rfl - hcomma
    refine .bind (ok.expression d) ?_
    rintro next e ⟨vs, rfl, hnext⟩
    exact .pure ⟨next, n :: ns, us ++ comma :: vs, rfl, by simp, by simpa using hchain.next hcomma hnext, by simp⟩
  · rintro items c ⟨n, ns, us, rfl, rfl, hchain, hone⟩
    cases ns with
    | nil =>
      obtain rfl := hone rfl
      have hall := hchain.all
      exact .pure ⟨ts ++ us, by simp, by simpa using hall.ink, hfirst.suffix, hfirst.free⟩
    | cons m ns =>
      refine .build ⟨ts ++ us, by simp, .ofShape ?_ rfl hchain.all.free⟩
      simp only [hchain.all.ink, Shape.ink, Node.inks_eq_flatMap]

/-- a part that may be left out -/
def Maybe (σ : Source) (a : List Token) (x : Option Node) (b : List Token) : Prop :=
  ∃ ts, a = ts ++ b ∧ inkOf ts = Node.ink? σ.text x ∧ ∀ n ∈ x, n.DirectiveFree

theorem Maybe.none : Maybe σ a none a := ⟨[], rfl, rfl, by simp⟩

theorem Maybe.some {n : Node} (h : Stated σ a n b) : Maybe σ a (some n) b := by
  obtain ⟨ts, rfl, hn⟩ := h
  exact ⟨ts, rfl, hn.ink, by simpa using hn.free⟩

theorem reads_forLoop (ok : rules.Sound σ) (hk : (σ.next a).kind = .forWord) :
    Reads σ a (forLoop rules) (Stated σ a) := by
  unfold forLoop
  refine .takeMark_bind rfl hk ?_
  rintro keyword b rfl - hkeyword
  refine .mark_bind rfl ?_
  rintro start c rfl - hstart
  refine .peekKind_bind ?_
  extract_lets afterInit
  have hinit : ∀ init d, Maybe σ c init d → Reads σ d (afterInit init) (Stated σ (keyword :: start :: c)) := by
    rintro init d ⟨ts, rfl, hinit, hinitFree⟩
    refine .mark_bind rfl ?_
    rintro semicolon e rfl - hsemicolon
    refine .at_bind ?_
    extract_lets afterTest
    have htest : ∀ test f, Maybe σ e test f →
        Reads σ f (afterTest test) (Stated σ (keyword :: start :: (ts ++ semicolon :: e))) := by
      rintro test f ⟨us, rfl, htest, htestFree⟩
      refine .mark_bind rfl ?_
      rintro semicolon' g rfl - hsemicolon'
      refine .at_bind ?_
      extract_lets afterUpdate
      have hupdate : ∀ update h, Maybe σ g update h → Reads σ h (afterUpdate update)
          (Stated σ (keyword :: start :: (ts ++ semicolon :: (us ++ semicolon' :: g)))) := by
        rintro update h ⟨vs, rfl, hupdate, hupdateFree⟩
        refine .mark_bind rfl ?_
        rintro close i rfl - hclose
        refine .bind (reads_body ok) ?_
        rintro body j ⟨ws, rfl, hbody⟩
        refine .build ⟨keyword :: start :: ts ++ semicolon :: us ++ semicolon' :: vs ++ close :: ws, by simp,
          .ofShape ?_ rfl ?_⟩
        · simp [Shape.ink, hkeyword, hstart, hinit, hsemicolon, htest, hsemicolon', hupdate, hclose, hbody.ink]
        · simp only [Shape.parts, List.forall_mem_append, Option.mem_toList, List.forall_mem_singleton]
          exact ⟨⟨⟨hinitFree, htestFree⟩, hupdateFree⟩, hbody.free⟩
      split
      · exact hupdate none g .none
      · exact .bind (.map ((reads_commaList ok).mono fun _ _ => .some)) hupdate
    split
    · exact htest none e .none
    · exact .bind (.map ((ok.expression e).mono fun _ _ h => .some h.stated)) htest
  split
  · exact hinit none c .none
  · exact .bind (.map ((reads_localDeclaration ok).mono fun _ _ h => .some h.stated)) hinit
  · exact .bind (.map ((reads_localDeclaration ok).mono fun _ _ h => .some h.stated)) hinit
  · exact .bind (.map ((reads_commaList ok).mono fun _ _ => .some)) hinit

/-- an expression, or a range of two -/
theorem reads_maybeRange (ok : rules.Sound σ) : Reads σ a (maybeRange rules) (Spanned σ a) := by
  unfold maybeRange
  refine .bind (ok.expression a) ?_
  rintro first b ⟨ts, rfl, hfirst⟩
  refine .eatMark_bind rfl (fun _ => .pure ⟨ts, rfl, hfirst⟩) ?_
  rintro dots c rfl - hdots
  refine .bind (ok.expression c) ?_
  rintro last d ⟨us, rfl, hlast⟩
  refine .build ⟨ts ++ dots :: us, by simp, .ofShape ?_ rfl ?_ (hfirst.start_append _) ?_⟩
  · simp [Shape.ink, hfirst.ink, hdots, hlast.ink]
  · simp [Shape.parts, hfirst.free, hlast.free]
  · rw [List.append_cons]
    exact hlast.stop_append _

theorem reads_foreachLoop (ok : rules.Sound σ) (hk : (σ.next a).kind = .foreachWord) :
    Reads σ a (foreachLoop rules) (Stated σ a) := by
  unfold foreachLoop
  refine .takeMark_bind rfl hk ?_
  rintro keyword b rfl - hkeyword
  refine .mark_bind rfl ?_
  rintro start c rfl - hstart
  refine .known fun hknown => ?_
  refine .bind (P := fun vars d => ∃ n ns ts, vars = n :: ns ∧ c = ts ++ d ∧ Chain σ n ns ts)
    (.loop (fun vars d => Listed σ c vars.reverse d) .nil ?_) ?_
  · rintro vars d ⟨ts, rfl, hvars⟩
    refine .bind (ok.argument d) ?_
    rintro var e ⟨us, rfl, hvar⟩
    have hchain : Chain σ var vars (ts ++ us) :=
      ⟨by simpa using hvars.append (.one hvar.toHolds), hvar.stop_append ts⟩
    refine .eatMark_bind rfl (fun _ => .pure ⟨var, vars, ts ++ us, rfl, by simp, hchain⟩) ?_
    rintro comma f rfl - hcomma
    exact .pure ⟨ts ++ us ++ [comma], by simp, hchain.all.skip hcomma⟩
  rintro vars d ⟨n, ns, ts, rfl, rfl, hvars⟩
  refine .expect_bind (by simp) ?_
  rintro separator e rfl hseparator
  refine .bind (reads_maybeRange ok) ?_
  rintro iterable f ⟨us, rfl, hiterable⟩
  have hmark := Source.foreachMark_eq ns hknown hseparator hvars.stop hiterable
  refine .mark_bind rfl ?_
  rintro close g rfl - hclose
  refine .bind (reads_body ok) ?_
  rintro body h ⟨vs, rfl, hbody⟩
  refine .build ⟨keyword :: start :: ts ++ separator :: us ++ close :: vs, by simp, .ofShape ?_ rfl ?_⟩
  · rw [Shape.ink, hmark]
    simp [hkeyword, hstart, hvars.all.ink, hiterable.ink, hclose, hbody.ink]
  · simp only [Shape.parts, List.forall_mem_append, List.forall_mem_cons]
    exact ⟨hvars.all.free, hiterable.free, hbody.free, by simp⟩

/-! ## Choices and jumps -/

theorem reads_switchCase (ok : rules.Sound σ) (hk : (σ.next a).kind = .caseWord ∨ (σ.next a).kind = .defaultWord) :
    Reads σ a (switchCase rules) (Stated σ a) := by
  unfold switchCase
  have hword : ∃ k m, (σ.next a).kind = k ∧ k.mark? = some m ∧ m = if k = .caseWord then mark "case" else mark "default" := by
    rcases hk with hk | hk
    · exact ⟨_, _, hk, rfl, rfl⟩
    · exact ⟨_, _, hk, rfl, rfl⟩
  obtain ⟨k, m, hnext, hm, hink⟩ := hword
  refine .takeMark_bind hm hnext ?_
  rintro keyword b rfl rfl hkeyword
  extract_lets afterTest
  have hrest : ∀ test c, Maybe σ b test c → (test.isNone ↔ keyword.kind ≠ .caseWord) →
      Reads σ c (afterTest test) (Stated σ (keyword :: b)) := by
    rintro test c ⟨ts, rfl, htest, hfree⟩ hnone
    refine .mark_bind rfl ?_
    rintro colon d rfl - hcolon
    refine .bind (reads_statementList ok .block [.caseWord, .defaultWord, .rightBrace]) ?_
    rintro body e ⟨⟨us, rfl, hbody⟩, -⟩
    refine .build ⟨keyword :: ts ++ colon :: us, by simp, .ofShape ?_ rfl ?_⟩
    · simp [Shape.ink, hkeyword, hink, hnone, htest, hcolon, hbody.ink]
    · simp only [Shape.parts, List.forall_mem_append, Option.mem_toList]
      exact ⟨hfree, hbody.free⟩
  split
  · next hcase =>
    refine .bind (P := fun test c => Maybe σ b test c ∧ test.isSome = true)
      (.map ((reads_maybeRange ok).mono fun _ _ h => ⟨.some h.stated, rfl⟩)) ?_
    rintro test c ⟨htest, hsome⟩
    exact hrest test c htest (by simpa [hcase] using Option.isSome_iff_ne_none.1 hsome)
  · next hcase => exact hrest none b .none (by simpa using hcase)

theorem reads_switch (ok : rules.Sound σ) (hk : (σ.next a).kind = .switchWord) :
    Reads σ a (switch rules) (Stated σ a) := by
  unfold switch
  refine .takeMark_bind rfl hk ?_
  rintro keyword b rfl - hkeyword
  refine .bind (reads_condition ok) ?_
  rintro test c ⟨ts, rfl, htest, hfree⟩
  refine .mark_bind rfl ?_
  rintro start d rfl - hstart
  refine .bind (P := fun cases e => Listed σ d cases.reverse e)
    (.loop (fun cases e => Listed σ d cases.reverse e) .nil ?_) ?_
  · intro cases e hcases
    refine .raw_bind_takeRaw (g := fun _ => pure (.inl cases)) (fun t ht => by simp [ht]) (fun _ _ => .pure hcases) ?_
    refine .known_next fun htrivia _ => ?_
    split
    · next hk => simp [hk, Kind.isTrivia, Kind.isComment] at htrivia
    · next hk => simp [hk, Kind.isTrivia, Kind.isComment] at htrivia
    · next hk => simp [hk, Kind.isTrivia] at htrivia
    · next hk => exact .bind (reads_switchCase ok (.inl hk)) fun n f hn => .pure (hcases.push hn)
    · next hk => exact .bind (reads_switchCase ok (.inr hk)) fun n f hn => .pure (hcases.push hn)
    · exact .pure hcases
  · rintro cases e ⟨us, rfl, hcases⟩
    refine .mark_bind rfl ?_
    rintro close f rfl - hclose
    refine .build ⟨keyword :: ts ++ start :: us ++ [close], by simp, .ofShape ?_ rfl ?_⟩
    · simp [Shape.ink, hkeyword, htest, hstart, hcases.ink, hclose]
    · simp only [Shape.parts, List.forall_mem_cons]
      exact ⟨hfree, hcases.free⟩

theorem reads_returnValue (ok : rules.Sound σ) (hk : (σ.next a).kind = .returnWord) :
    Reads σ a (returnValue rules) (Stated σ a) := by
  unfold returnValue
  refine .takeMark_bind rfl hk ?_
  rintro keyword b rfl - hkeyword
  refine .peekKind_bind ?_
  extract_lets afterArgument
  have hrest : ∀ argument c, Maybe σ b argument c → Reads σ c (afterArgument argument) (Stated σ (keyword :: b)) := by
    rintro argument c ⟨ts, rfl, hargument, hfree⟩
    have hheld {us : List Token} (hus : inkOf us = []) (span : Span) :
        (Node.mk span (.returnValue argument) none).Holds σ (keyword :: ts ++ us) :=
      .ofShape (by simp [Shape.ink, hkeyword, hargument, hus]) rfl (by simpa [Shape.parts] using hfree)
    refine .eatMark_bind rfl (fun _ => .at_bind ?_) ?_
    · split
      · exact .build ⟨keyword :: ts ++ [], by simp, hheld rfl _⟩
      · exact .wanted
    · rintro semicolon d rfl - hsemicolon
      exact .build ⟨keyword :: ts ++ [semicolon], by simp, hheld (by simp [hsemicolon]) _⟩
  split
  · exact hrest none b .none
  · exact .bind (.map ((ok.expression b).mono fun _ _ h => .some h.stated)) hrest

theorem reads_jump (hk : (σ.next a).kind = .breakWord ∨ (σ.next a).kind = .continueWord) :
    Reads σ a jump (Stated σ a) := by
  unfold jump
  have hword : ∃ k m, (σ.next a).kind = k ∧ k.mark? = some m ∧
      m = (if k = .breakWord then Jump.breakOff else .goOn).ink := by
    rcases hk with hk | hk
    · exact ⟨_, _, hk, rfl, rfl⟩
    · exact ⟨_, _, hk, rfl, rfl⟩
  obtain ⟨k, m, hnext, hm, hink⟩ := hword
  refine .takeMark_bind hm hnext ?_
  rintro keyword b rfl rfl hkeyword
  refine .mark_bind rfl ?_
  rintro semicolon c rfl - hsemicolon
  refine .build ⟨[keyword, semicolon], rfl, .ofShape ?_ rfl (by simp [Shape.parts])⟩
  simp [Shape.ink, hkeyword, hink, hsemicolon]

/-! ## Expressions as statements -/

/-- a call is a function without a heading: it has the same ink -/
theorem holds_function {span span' : Span} {callee : Node} {args : List Node} {body : Option Node}
    (h : (Node.mk span (.call callee args) none).Holds σ ts)
    (hbody : inkOf us = Node.ink? σ.text body) (hfree : ∀ n ∈ body, n.DirectiveFree) :
    (Node.mk span' (.function [] none false callee args body) none).Holds σ (ts ++ us) := by
  have hink := h.ink
  simp only [Node.ink, Shape.ink, Option.toList_none, List.flatMap_nil, List.append_nil] at hink
  refine .ofShape ?_ rfl ?_
  · simp only [inkOf_append, hink, hbody, Shape.ink, headingInk, List.nil_append, Option.toList_none, List.flatMap_nil,
      Bool.false_eq_true, if_false]
  · have hparts := h.free.parts
    simp only [Shape.parts] at hparts
    simp only [Shape.parts, List.forall_mem_append, Option.mem_toList]
    exact ⟨hparts, hfree⟩

theorem reads_expressionStatement (ok : rules.Sound σ) (scope : Scope) :
    Reads σ a (expressionStatement rules scope) (Stated σ a) := by
  unfold expressionStatement
  refine .bind (reads_expression ok) ?_
  rintro node b ⟨ts, rfl, hnode⟩
  have hplain : Reads σ b (do statementEnd; return node) (Stated σ (ts ++ b)) := by
    refine .bind reads_statementEnd ?_
    rintro - c ⟨us, rfl, hend⟩
    exact .pure ⟨ts ++ us, by simp, by simp [hend, hnode.ink], hnode.suffix, hnode.free⟩
  obtain ⟨span, shape, suffix⟩ := node
  obtain rfl : suffix = none := hnode.suffix
  split
  swap
  · exact hplain
  next callee args hcall =>
  obtain rfl : shape = .call callee args := hcall
  split
  · exact hplain
  refine .at_bind ?_
  split
  · refine .bind (reads_functionBody ok) ?_
    rintro body c ⟨us, rfl, hbody⟩
    exact .spanning_bind (.pure ⟨ts ++ us, by simp, holds_function hnode.toHolds hbody.ink (by simpa using hbody.free)⟩)
  · refine .bind reads_statementEnd ?_
    rintro - c ⟨us, rfl, hend⟩
    split
    · exact .pure ⟨ts ++ us, by simp, holds_function hnode.toHolds hend (by simp)⟩
    · exact .pure ⟨ts ++ us, by simp, by simp [hend, hnode.ink], hnode.suffix, hnode.free⟩

theorem reads_statement (ok : rules.Sound σ) (scope : Scope) : Reads σ a (statement rules scope) (Stated σ a) := by
  unfold statement
  refine .known_next fun _ hdirective => .peekKind_bind ?_
  split
  · exact (reads_block ok).mono fun _ _ => Spanned.stated
  · next hk => exact reads_ifElse ok hk
  · next hk => exact reads_whileLoop ok hk
  · next hk => exact reads_doWhile ok hk
  · next hk => exact reads_forLoop ok hk
  · next hk => exact reads_foreachLoop ok hk
  · next hk => exact reads_switch ok hk
  · next hk => exact reads_returnValue ok hk
  · next hk => exact reads_jump (.inl hk)
  · next hk => exact reads_jump (.inr hk)
  · have hnone : inkOf [] = headingInk [] none := rfl
    exact .peek_bind ((reads_inherit ok hnone _).mono fun _ _ h => h.stated rfl)
  · next hk => exact absurd hk hdirective
  · exact reads_declaration ok scope
  · exact reads_declaration ok scope
  · exact reads_expressionStatement ok scope

end Grammar

/-! ## All rules -/

theorem Rules.sound_exhausted : Rules.exhausted.Sound σ :=
  ⟨fun _ => .throw, fun _ => .throw, fun _ _ _ => .throw, fun _ => .throw, fun _ _ => .throw⟩

/-- **Every rule of the grammar reads nodes that hold or cover what it takes**, however deep its calls go. -/
theorem Rules.sound_upTo (depth : Nat) : (Rules.upTo depth).Sound σ := by
  induction depth with
  | zero => exact sound_exhausted
  | succ depth ih =>
    exact ⟨fun _ => Grammar.reads_expression ih, fun _ => Grammar.reads_operand ih,
      fun hleft min _ => Grammar.reads_climb ih hleft min, fun _ => Grammar.reads_argument ih,
      fun scope _ => Grammar.reads_statement ih scope⟩

end LpcStyle
