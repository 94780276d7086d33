import Mathlib.Tactic
import LpcStyle.Proofs.Grammar.Reads
import LpcStyle.Proofs.Style.Ink

/-!
Nodes and the tokens they are read from. A node holds tokens if its ink is theirs; it covers them if it also starts and
ends with them. `Rules.Sound` says of the rules that refer back to themselves that they read nodes which hold or cover
what was taken. Main statements about single tokens: `Source.ink_eq` and `Source.cast_ink`.
-/

namespace LpcStyle

open Text Pattern

/-! ## The ink of tokens -/

/-- the characters of a token, blanks, semicolons and commas aside -/
def Token.ink (t : Token) : List Char := content t.text

@[simp] theorem content_text (t : Token) : content t.text = t.ink := rfl

@[simp] theorem content_ofToken (t : Token) : content (Lexeme.ofToken t).text = t.ink := rfl

def inkOf (ts : List Token) : List Char := ts.flatMap Token.ink

@[simp] theorem inkOf_nil : inkOf [] = [] := rfl

@[simp] theorem inkOf_cons (t : Token) (ts : List Token) : inkOf (t :: ts) = t.ink ++ inkOf ts := rfl

@[simp] theorem inkOf_append (ts us : List Token) : inkOf (ts ++ us) = inkOf ts ++ inkOf us := by simp [inkOf]

/-- the ink of the kinds that have only one -/
def Kind.mark? : Kind → Option (List Char)
  | .semicolon | .comma | .blankLines => some []
  | .closureStart => some (mark "(:")
  | .closureEnd => some (mark ":)")
  | k => k.spelling?.map mark

/-- the spelling of a kind is its ink, semicolons and commas aside -/
theorem content_spelling : ∀ k ∈ Kind.all, (k.spelling?.all fun spelling =>
    k == .semicolon || k == .comma || content spelling.toList == mark spelling) = true := by
  decide +kernel

theorem content_separators : content ";".toList = [] ∧ content ",".toList = [] := by decide

theorem content_closure : content ['('] ++ content [':'] = mark "(:" ∧ content [':'] ++ content [')'] = mark ":)" := by
  decide +kernel

/-- a kind with one spelling allows only that -/
theorem eq_of_spelt {k : Kind} {text : List Char} (h : Spelt k text) {spelling : String}
    (hk : k.spelling? = some spelling) : text = spelling.toList := by
  cases k <;> simp only [Spelt, Kind.spelling?, Option.some.injEq, reduceCtorEq, Option.mem_some, forall_eq'] at h hk <;>
    exact hk ▸ h

/-- blanks between two characters leave no ink -/
theorem content_frame (c d : Char) {blanks : List Char} (hblanks : ∀ c ∈ blanks, isBlank c = true) :
    content (c :: blanks ++ [d]) = content [c] ++ content [d] := by
  rw [List.cons_append, ← List.singleton_append, content_append, content_append, content_blanks hblanks,
    List.nil_append]

/-- **The ink of a token is the mark of its kind**, where the kind has one. -/
theorem ink_of_spelt {t : Token} (h : Spelt t.kind t.text) {m : List Char} (hm : t.kind.mark? = some m) : t.ink = m := by
  rw [Token.ink]
  unfold Kind.mark? at hm
  split at hm
  · next hk =>
    rw [eq_of_spelt h (by rw [hk]; rfl), content_separators.1, Option.some.inj hm]
  · next hk =>
    rw [eq_of_spelt h (by rw [hk]; rfl), content_separators.2, Option.some.inj hm]
  · next hk =>
    rw [hk] at h
    rw [content_blanks h, Option.some.inj hm]
  · next hk =>
    rw [hk] at h
    obtain ⟨blanks, hblanks, htext⟩ := h
    rw [htext, content_frame _ _ hblanks, content_closure.1, Option.some.inj hm]
  · next hk =>
    rw [hk] at h
    obtain ⟨blanks, hblanks, htext⟩ := h
    rw [htext, content_frame _ _ hblanks, content_closure.2, Option.some.inj hm]
  · next _ hsemicolon hcomma _ _ _ =>
    obtain ⟨spelling, hspelling, rfl⟩ := Option.map_eq_some_iff.1 hm
    have hmark := content_spelling t.kind t.kind.mem_all
    rw [hspelling] at hmark
    have hne : t.kind ≠ .semicolon ∧ t.kind ≠ .comma := ⟨hsemicolon, hcomma⟩
    rw [eq_of_spelt h hspelling]
    simpa [hne.1, hne.2] using hmark

/-! ## Casts -/

/-- the types of casts are words of letters -/
theorem castTypes_letters : ∀ type ∈ Words.castTypes, (type.toList.head?.any Char.isAlpha) = true ∧
    (type.toList.all Char.isAlphanum) = true ∧ type.toList.contains '*' = false := by
  decide

theorem not_isAlphanum_of_isBlank {c : Char} (h : isBlank c = true) : c.isAlphanum = false ∧ c ≠ '*' ∧ c ≠ '_' := by
  have hblank := isBlank_bounds h
  refine ⟨?_, ?_, ?_⟩
  · by_contra halpha
    have := isLetterOrDigit_bounds (c := c) (by simp [isLetterOrDigit, halpha])
    omega
  · rintro rfl
    exact absurd hblank (by decide)
  · rintro rfl
    exact absurd hblank (by decide)

/-- the type word of a cast is the type that it is spelled with, and it has a star if it is spelled with one -/
theorem castType_of_castText {type star : List Char} {t : Token} (h : CastText type star t.text) :
    (Grammar.castType t).text = type ∧ t.text.contains '*' = star.contains '*' := by
  obtain ⟨hknown, hstar, front, middle, back, hfront, hmiddle, hback, htext⟩ := h
  obtain ⟨word, hword, heq⟩ := List.any_eq_true.1 hknown
  obtain ⟨hhead, hletters, hnostar⟩ := castTypes_letters word hword
  rw [beq_iff_eq.1 heq] at hhead hletters hnostar
  have hplain : ∀ c ∈ middle ++ star ++ back ++ [')'], (c.isAlphanum || c == '_') = false := by
    have hblank {part : List Char} (hpart : ∀ c ∈ part, isBlank c = true) :
        ∀ c ∈ part, (c.isAlphanum || c == '_') = false := fun c hc => by
      obtain ⟨halpha, -, hunder⟩ := not_isAlphanum_of_isBlank (hpart c hc)
      simp [halpha, hunder]
    simp only [List.forall_mem_append, List.forall_mem_singleton]
    refine ⟨⟨⟨hblank hmiddle, ?_⟩, hblank hback⟩, by decide⟩
    rcases hstar with rfl | rfl
    · simp
    · simp only [List.forall_mem_singleton]
      decide
  have hdrop : t.text.dropWhile (!·.isAlpha) = type ++ (middle ++ star ++ back ++ [')']) := by
    have hopen : ∀ c ∈ '(' :: front, (!c.isAlpha) = true := by
      refine List.forall_mem_cons.2 ⟨by decide, fun c hc => ?_⟩
      have halpha := (not_isAlphanum_of_isBlank (hfront c hc)).1
      simp only [Char.isAlphanum, Bool.or_eq_false_iff] at halpha
      simp [halpha.1]
    have hsplit : t.text = ('(' :: front) ++ (type ++ (middle ++ star ++ back ++ [')'])) := by simp [htext]
    rw [hsplit, List.dropWhile_append_of_pos hopen]
    obtain _ | ⟨c, cs⟩ := type
    · simp at hhead
    · simp only [List.head?_cons, Option.any_some] at hhead
      simp [hhead]
  constructor
  · simp only [Grammar.castType, hdrop]
    rw [List.takeWhile_append_of_pos fun c hc => by simp [List.all_eq_true.1 hletters c hc]]
    have hnone : (middle ++ star ++ back ++ [')']).takeWhile (fun c => c.isAlphanum || c == '_') = [] := by
      cases hrest : middle ++ star ++ back ++ [')'] with
      | nil => rfl
      | cons c cs =>
        have hc := hplain c (hrest ▸ List.mem_cons_self)
        simp [hc]
    rw [hnone, List.append_nil]
  · have hblank {part : List Char} (hpart : ∀ c ∈ part, isBlank c = true) : part.contains '*' = false := by
      by_contra hc
      have hmem : '*' ∈ part := by simpa using hc
      exact (not_isAlphanum_of_isBlank (hpart _ hmem)).2.1 rfl
    rw [htext]
    simp only [List.cons_append, List.contains_cons, List.contains_append, hblank hfront, hblank hmiddle, hblank hback,
      hnostar]
    simp

/-- the ink of a cast -/
theorem Token.cast_ink {t : Token} (h : Spelt .typeCast t.text) : t.ink =
    mark "(" ++ content (Grammar.castType t).text ++ (if t.text.contains '*' then mark "*" else []) ++ mark ")" := by
  obtain ⟨type, star, hcast⟩ := h
  obtain ⟨htype, hcontains⟩ := castType_of_castText hcast
  obtain ⟨-, hstar, front, middle, back, hfront, hmiddle, hback, htext⟩ := hcast
  have hmarks : content ['('] = mark "(" ∧ content ['*'] = mark "*" ∧ content [')'] = mark ")" := by decide +kernel
  have hink : content star = if star.contains '*' then mark "*" else [] := by
    rcases hstar with rfl | rfl
    · rfl
    · exact hmarks.2.1
  rw [htype, hcontains, ← hink, Token.ink, htext, List.cons_append, ← List.singleton_append]
  simp only [content_append, content_blanks hfront, content_blanks hmiddle, content_blanks hback, hmarks,
    List.append_assoc, List.nil_append]

/-! ## Nodes and their tokens -/

/-- the node has the ink of the tokens; no comment and no preprocessor line is part of it -/
structure Node.Holds (σ : Source) (n : Node) (ts : List Token) : Prop where
  ink : inkOf ts = n.ink σ.text
  suffix : n.suffix = none
  free : n.DirectiveFree

/-- the node holds the tokens, and it starts and ends with them -/
structure Node.Covers (σ : Source) (n : Node) (ts : List Token) : Prop extends n.Holds σ ts where
  start : ts.head?.map (·.span.start) = some n.start
  stop : ts.getLast?.map (·.span.stop) = some n.stop

/-- the nodes have the ink of the tokens together -/
structure HoldAll (σ : Source) (ns : List Node) (ts : List Token) : Prop where
  ink : inkOf ts = ns.flatMap (Node.ink σ.text)
  suffix : ∀ n ∈ ns, n.suffix = none
  free : ∀ n ∈ ns, n.DirectiveFree

/-- a node that covers the tokens taken from `a` together with those in front of them -/
def Grown (σ : Source) (front a : List Token) (n : Node) (b : List Token) : Prop :=
  ∃ ts, a = ts ++ b ∧ n.Covers σ (front ++ ts)

/-- a node that covers the tokens taken from `a` -/
def Spanned (σ : Source) (a : List Token) (n : Node) (b : List Token) : Prop := ∃ ts, a = ts ++ b ∧ n.Covers σ ts

/-- a node that holds the tokens taken from `a` -/
def Stated (σ : Source) (a : List Token) (n : Node) (b : List Token) : Prop := ∃ ts, a = ts ++ b ∧ n.Holds σ ts

/-- every rule reads nodes that hold or cover what it takes -/
structure Rules.Sound (σ : Source) (rules : Rules) : Prop where
  expression (a : List Token) : Reads σ a rules.expression (Spanned σ a)
  operand (a : List Token) : Reads σ a rules.operand (Spanned σ a)
  climb {left : Node} {front : List Token} (hleft : left.Covers σ front) (min : Nat) (a : List Token) :
    Reads σ a (rules.climb left min) (Grown σ front a)
  argument (a : List Token) : Reads σ a rules.argument (Spanned σ a)
  statement (scope : Scope) (a : List Token) : Reads σ a (rules.statement scope) (Stated σ a)

variable {σ : Source} {α β : Type} {a b : List Token} {n : Node} {ts us : List Token}

theorem Spanned.stated (h : Spanned σ a n b) : Stated σ a n b := by
  obtain ⟨ts, hts, hn⟩ := h
  exact ⟨ts, hts, hn.toHolds⟩

theorem Grown.refl {front : List Token} (h : n.Covers σ front) : Grown σ front a n a := ⟨[], rfl, by simpa using h⟩

/-- what was grown from something in front is spanned from there -/
theorem Grown.spanned {front c : List Token} (h : Grown σ front b n c) (ha : a = front ++ b) : Spanned σ a n c := by
  obtain ⟨ts, rfl, hn⟩ := h
  exact ⟨front ++ ts, by simp [ha], hn⟩

/-- growing goes on from where it stopped -/
theorem Grown.trans {front c : List Token} {m : Node} (h : a = ts ++ b) (hm : Grown σ (front ++ ts) b m c) :
    Grown σ front a m c := by
  obtain ⟨us, rfl, hm⟩ := hm
  exact ⟨ts ++ us, by simp [h], by simpa using hm⟩

namespace Node

variable {span : Span} {shape : Shape Node}

theorem Holds.ofShape (ink : inkOf ts = Shape.ink σ.text span shape) (own : shape.isDirective = false)
    (parts : ∀ k ∈ shape.parts, k.DirectiveFree) : (Node.mk span shape none).Holds σ ts :=
  ⟨by simp [Node.ink, ink], rfl, .mk own parts⟩

theorem Covers.ofShape (ink : inkOf ts = Shape.ink σ.text span shape) (own : shape.isDirective = false)
    (parts : ∀ k ∈ shape.parts, k.DirectiveFree) (start : ts.head?.map (·.span.start) = some span.start)
    (stop : ts.getLast?.map (·.span.stop) = some span.stop) : (Node.mk span shape none).Covers σ ts :=
  ⟨.ofShape ink own parts, start, stop⟩

/-- a leaf covers its token -/
theorem Covers.leaf {t : Token} {shape : Shape Node} (ink : t.ink = Shape.ink σ.text t.span shape)
    (own : shape.isDirective = false) (parts : shape.parts = []) : (Parser.leaf t shape).Covers σ [t] :=
  .ofShape (by simpa using ink) own (by simp [parts]) rfl rfl

theorem stop_concat (ts : List Token) (t : Token) : (ts ++ [t]).getLast?.map (·.span.stop) = some t.span.stop := by simp

theorem Covers.start_append (h : n.Covers σ ts) (us : List Token) :
    (ts ++ us).head?.map (·.span.start) = some n.start := by
  have hstart := h.start
  cases ts with
  | nil => simp at hstart
  | cons t ts => exact hstart

/-- what ends a list of tokens also ends a longer one -/
theorem stop_append {stop : Nat} (h : us.getLast?.map (·.span.stop) = some stop) (ts : List Token) :
    (ts ++ us).getLast?.map (·.span.stop) = some stop := by
  cases us using List.reverseRecOn with
  | nil => simp at h
  | append_singleton us u => simpa [← List.append_assoc] using h

theorem Covers.stop_append (h : n.Covers σ us) (ts : List Token) :
    (ts ++ us).getLast?.map (·.span.stop) = some n.stop := Node.stop_append h.stop ts

theorem Covers.stop_cons (h : n.Covers σ ts) (t : Token) : (t :: ts).getLast?.map (·.span.stop) = some n.stop :=
  h.stop_append [t]

end Node

namespace HoldAll

theorem nil : HoldAll σ [] [] := ⟨rfl, by simp, by simp⟩

theorem one (h : n.Holds σ ts) : HoldAll σ [n] ts := ⟨by simp [h.ink], by simpa using h.suffix, by simpa using h.free⟩

theorem append {ms ns : List Node} (hm : HoldAll σ ms ts) (hn : HoldAll σ ns us) : HoldAll σ (ms ++ ns) (ts ++ us) :=
  ⟨by simp [hm.ink, hn.ink], List.forall_mem_append.2 ⟨hm.suffix, hn.suffix⟩,
    List.forall_mem_append.2 ⟨hm.free, hn.free⟩⟩

/-- a token without ink changes nothing -/
theorem skip {ns : List Node} (h : HoldAll σ ns ts) {t : Token} (ht : t.ink = []) : HoldAll σ ns (ts ++ [t]) :=
  ⟨by simp [h.ink, ht], h.suffix, h.free⟩

/-- the blank lines at the end of a list may be left out -/
theorem dropBlank {ns : List Node} {ts : List Token} (h : HoldAll σ ns.reverse ts) :
    HoldAll σ (ns.dropWhile (·.shape.isBlankLine)).reverse ts := by
  induction ns with
  | nil => exact h
  | cons n ns ih =>
    cases hn : n.shape.isBlankLine with
    | false => simpa [hn] using h
    | true =>
      simp only [List.dropWhile_cons, hn, if_true]
      have hink : n.ink σ.text = [] := by
        have hsuffix := h.suffix n (by simp)
        cases n with
        | mk span shape suffix =>
          cases shape <;> simp [Node.shape, Shape.isBlankLine] at hn
          simp only [Node.suffix] at hsuffix
          simp [Node.ink, Shape.ink, hsuffix]
      refine ih ⟨by simpa [hink] using h.ink, fun k hk => h.suffix k ?_, fun k hk => h.free k ?_⟩
      · simp only [List.reverse_cons, List.mem_append]
        exact .inl hk
      · simp only [List.reverse_cons, List.mem_append]
        exact .inl hk

end HoldAll

/-- nodes with separators between them, newest first: they hold the tokens, and the newest ends with them -/
structure Chain (σ : Source) (newest : Node) (before : List Node) (ts : List Token) : Prop where
  all : HoldAll σ (newest :: before).reverse ts
  stop : ts.getLast?.map (·.span.stop) = some newest.stop

theorem Chain.one (h : n.Covers σ ts) : Chain σ n [] ts := ⟨.one h.toHolds, h.stop⟩

theorem Chain.next {m : Node} {ns : List Node} (h : Chain σ n ns ts) {t : Token} (ht : t.ink = [])
    (hm : m.Covers σ us) : Chain σ m (n :: ns) (ts ++ t :: us) := by
  have hall := (h.all.skip ht).append (.one hm.toHolds)
  refine ⟨by simpa using hall, ?_⟩
  rw [List.append_cons]
  exact hm.stop_append _

/-! ## Tokens of the source -/

theorem Source.ink_eq {t : Token} (ht : t ∈ σ.tokens) {m : List Char} (hm : t.kind.mark? = some m) : t.ink = m :=
  ink_of_spelt (σ.spelt t ht) hm

theorem Source.cast_ink {t : Token} (ht : t ∈ σ.tokens) (hk : t.kind = .typeCast) : t.ink =
    mark "(" ++ content (Grammar.castType t).text ++ (if t.text.contains '*' then mark "*" else []) ++ mark ")" :=
  Token.cast_ink (hk ▸ σ.spelt t ht)

/-- the significant tokens tile the text too -/
theorem Source.tiled_significant (σ : Source) : Tiled True 0 σ.text (significant σ.tokens) := by
  refine σ.tiled.filter fun t ht htrivia => ?_
  have hkind : t.kind = .blankLines := by
    simpa [Kind.isTrivia, (σ.kinds t ht).1] using htrivia
  have hspelt := σ.spelt t ht
  rw [hkind] at hspelt
  exact hspelt

namespace Reads

variable {p : Parser α} {Q : α → List Token → Prop} {R : β → List Token → Prop}

theorem known_mem (h : (∀ t ∈ a, t ∈ σ.tokens) → Reads σ a p Q) : Reads σ a p Q :=
  known fun ha => h fun _ ht => List.mem_of_mem_filter (ha.mem ht)

/-- takes a token of a kind that has only one ink -/
theorem mark_bind {k : Kind} {m : List Char} {what : Wanted} {f : Token → Parser β} (hm : k.mark? = some m)
    (h : ∀ t b, a = t :: b → t.kind = k → t.ink = m → Reads σ b (f t) R) :
    Reads σ a (Parser.expect k what >>= f) R := by
  refine known_mem fun ha => expect_bind (by rintro rfl; cases hm) fun t b hab hk => h t b hab hk ?_
  exact σ.ink_eq (ha t (by simp [hab])) (hk ▸ hm)

/-- takes a token of a kind that has only one ink, if it comes next -/
theorem eatMark_bind {k : Kind} {m : List Char} {f : Option Token → Parser β} (hm : k.mark? = some m)
    (hnone : (σ.next a).kind ≠ k → Reads σ a (f none) R)
    (hsome : ∀ t b, a = t :: b → t.kind = k → t.ink = m → Reads σ b (f (some t)) R) :
    Reads σ a (Parser.eat? k >>= f) R := by
  refine known_mem fun ha => eat_bind (by rintro rfl; cases hm) hnone fun t b hab hk => hsome t b hab hk ?_
  exact σ.ink_eq (ha t (by simp [hab])) (hk ▸ hm)

/-- takes the next token, which is known to be there -/
theorem takeSome_bind {f : Token → Parser β} (hk : (σ.next a).kind ≠ .endOfFile)
    (h : ∀ t b, a = t :: b → Reads σ b (f t) R) : Reads σ a (Parser.take >>= f) R := by
  obtain ⟨t, b, rfl, -⟩ := Source.eq_cons_of_next hk rfl
  exact take_bind (h t b rfl)

/-- takes the next token, which is known to be of a kind that has only one ink -/
theorem takeMark_bind {k : Kind} {m : List Char} {f : Token → Parser β} (hm : k.mark? = some m)
    (hk : (σ.next a).kind = k) (h : ∀ t b, a = t :: b → t.kind = k → t.ink = m → Reads σ b (f t) R) :
    Reads σ a (Parser.take >>= f) R := by
  refine known_mem fun ha => ?_
  obtain ⟨t, b, rfl, ht⟩ := Source.eq_cons_of_next (by rintro rfl; cases hm) hk
  exact take_bind (h t b rfl ht (σ.ink_eq (ha t List.mem_cons_self) (ht ▸ hm)))

end Reads

end LpcStyle
