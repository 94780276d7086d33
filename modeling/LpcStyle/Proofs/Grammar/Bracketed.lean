import Mathlib.Tactic
import LpcStyle.Proofs.Grammar.Cover

/-!
Lists of statements, lists with commas, and the forms between brackets: each reads nodes that hold or cover the tokens
it takes, if the rules do that it refers back to.
-/

namespace LpcStyle.Grammar

open Text LpcStyle.Parser

variable {σ : Source} {rules : Rules} {a : List Token}

/-! ## Lists -/

/-- nodes that hold the tokens taken from `a` -/
def Listed (σ : Source) (a : List Token) (ns : List Node) (b : List Token) : Prop :=
  ∃ ts, a = ts ++ b ∧ HoldAll σ ns ts

theorem Listed.nil : Listed σ a [] a := ⟨[], rfl, .nil⟩

/-- the newest node comes first while a list is read -/
theorem Listed.push {ns : List Node} {n : Node} {b c : List Token} (h : Listed σ a ns.reverse b) (hn : Stated σ b n c) :
    Listed σ a (n :: ns).reverse c := by
  obtain ⟨ts, rfl, hns⟩ := h
  obtain ⟨us, rfl, hn⟩ := hn
  exact ⟨ts ++ us, by simp, by simpa using hns.append (.one hn)⟩

/-- a token without ink may be passed over -/
theorem Listed.skip {ns : List Node} {t : Token} {b : List Token} (h : Listed σ a ns (t :: b)) (ht : t.ink = []) :
    Listed σ a ns b := by
  obtain ⟨ts, rfl, hns⟩ := h
  exact ⟨ts ++ [t], by simp, hns.skip ht⟩

/-- a blank line leaves no ink -/
theorem Listed.addBlank {ns : List Node} {b : List Token} (t : Token) (h : Listed σ a ns.reverse b) :
    Listed σ a (Grammar.addBlank t ns).reverse b := by
  cases ns with
  | nil => exact h
  | cons last before =>
    simp only [Grammar.addBlank]
    split
    · exact h
    · exact h.push ⟨[], rfl, .ofShape rfl rfl (by simp [Shape.parts])⟩

/-- **A list with commas** reads its elements and the closing token. -/
theorem reads_delimited {close : Kind} {closeText : String} {item : Parser Node} {m : List Char}
    (hm : close.mark? = some m) (hitem : ∀ a, Reads σ a item (Stated σ a)) :
    Reads σ a (delimited close closeText item) fun (ns, t) b => Listed σ a ns (t :: b) ∧ t.ink = m := by
  unfold delimited
  refine .bind (P := fun items b => Listed σ a items.reverse b)
    (.loop (fun items b => Listed σ a items.reverse b) .nil ?_) ?_
  · intro items b hitems
    refine .raw_bind_takeRaw (g := fun _ => pure (.inl items)) (fun t ht => by simp [ht]) (fun _ _ => .pure hitems) ?_
    refine .known_next fun htrivia hdirective => ?_
    split
    · next hk => simp [hk, Kind.isTrivia, Kind.isComment] at htrivia
    · next hk => simp [hk, Kind.isTrivia, Kind.isComment] at htrivia
    · next hk => simp [hk, Kind.isTrivia] at htrivia
    split
    · exact .pure hitems
    split
    · exact .unexpected
    refine .bind (hitem b) fun node c hnode => .peekKind_bind (.addItem_bind ?_)
    have hmore := hitems.push hnode
    split
    · next hcomma => exact .takeMark_bind rfl hcomma fun t d hcd _ ht => .pure (Listed.skip (hcd ▸ hmore) ht)
    split
    · exact .pure hmore
    split
    · exact .pure hmore
    · exact .wanted
  · intro items b hitems
    exact .mark_bind hm fun t c hbc _ ht => .pure ⟨hbc ▸ hitems, ht⟩

/-- **A list of statements** holds all tokens up to the one that ends it. -/
theorem reads_statementList (ok : rules.Sound σ) (scope : Scope) (closers : List Kind) :
    Reads σ a (statementList rules scope closers) fun ns b =>
      Listed σ a ns b ∧ ((σ.next b).kind = .endOfFile ∨ closers.contains (σ.next b).kind = true) := by
  unfold statementList
  refine .bind (P := fun items b => Listed σ a items.reverse b ∧
    ((σ.next b).kind = .endOfFile ∨ closers.contains (σ.next b).kind = true))
    (.loop (fun items b => Listed σ a items.reverse b) .nil ?_) ?_
  · intro items b hitems
    refine .raw_bind_takeRaw (g := fun t => pure (.inl (addBlank t items))) (fun t ht => by simp [ht]) (fun t ht => ?_) ?_
    · exact .pure (hitems.addBlank t)
    refine .known_next fun htrivia _ => ?_
    split
    · next hk => simp [hk, Kind.isTrivia, Kind.isComment] at htrivia
    · next hk => simp [hk, Kind.isTrivia, Kind.isComment] at htrivia
    · next hk => simp [hk, Kind.isTrivia] at htrivia
    · next hk => exact .takeMark_bind rfl hk fun t c hbc _ ht => .pure (Listed.skip (hbc ▸ hitems) ht)
    · next hk => exact .pure ⟨hitems, .inl hk⟩
    · split
      · next hclose => exact .pure ⟨hitems, .inr hclose⟩
      · exact .bind (ok.statement scope b) fun n c hn => .addItem_bind (.pure (hitems.push hn))
  · rintro items b ⟨⟨ts, rfl, hitems⟩, hend⟩
    exact .pure ⟨⟨ts, rfl, hitems.dropBlank⟩, hend⟩

/-! ## Between brackets -/

/-- a form whose parts stand between an opening and a closing token -/
theorem Listed.framed {start close : Token} {b c : List Token} {ns : List Node} {shape : Shape Node}
    (h : Listed σ b ns (close :: c)) (ink : Shape.ink σ.text ⟨start.span.start, close.span.stop⟩ shape =
      start.ink ++ ns.flatMap (Node.ink σ.text) ++ close.ink) (own : shape.isDirective = false) (parts : shape.parts = ns) :
    Spanned σ (start :: b) (.mk ⟨start.span.start, close.span.stop⟩ shape none) c := by
  obtain ⟨ts, rfl, hns⟩ := h
  refine ⟨start :: ts ++ [close], by simp, .ofShape ?_ own (parts ▸ hns.free) rfl (Node.stop_concat _ _)⟩
  simp [ink, hns.ink]

theorem reads_textBlock : Reads σ a textBlock (Spanned σ a) := by
  unfold textBlock
  refine .expect_bind (by simp) fun start b hab _ => ?_
  refine .expect_bind (by simp) fun body c hbc _ => ?_
  refine .expect_bind (by simp) fun stop d hcd _ => ?_
  refine .build ⟨[start, body, stop], by simp [hab, hbc, hcd], .ofShape ?_ rfl (by simp [Shape.parts]) rfl rfl⟩
  simp [Shape.ink]

theorem reads_structItem (ok : rules.Sound σ) : Reads σ a (structItem rules) (Spanned σ a) := by
  unfold structItem
  refine .bind (ok.expression a) ?_
  rintro key b ⟨ts, rfl, hkey⟩
  split
  · exact .pure ⟨ts, rfl, hkey⟩
  refine .eatMark_bind rfl (fun _ => .pure ⟨ts, rfl, hkey⟩) ?_
  rintro colon c rfl - hcolon
  refine .bind (ok.expression c) ?_
  rintro value d ⟨us, rfl, hvalue⟩
  refine .build ⟨ts ++ colon :: us, by simp, .ofShape ?_ rfl ?_ (hkey.start_append _) ?_⟩
  · simp [Shape.ink, hkey.ink, hvalue.ink, hcolon]
  · simp [Shape.parts, hkey.free, hvalue.free]
  · rw [List.append_cons]
    exact hvalue.stop_append _

theorem reads_paren (ok : rules.Sound σ) : Reads σ a (paren rules) (Spanned σ a) := by
  unfold paren
  refine .mark_bind rfl ?_
  rintro start b rfl - hstart
  refine .eat_bind (by simp) (fun _ => ?_) ?_
  · refine .bind (reads_delimited rfl fun a => (ok.expression a).mono fun _ _ => Spanned.stated) ?_
    rintro ⟨items, close⟩ c ⟨hitems, hclose⟩
    exact .build (hitems.framed (by simp [Shape.ink, hstart, hclose]) rfl rfl)
  · rintro name c rfl -
    refine .bind (reads_delimited rfl fun a => (reads_structItem ok).mono fun _ _ => Spanned.stated) ?_
    rintro ⟨items, close⟩ d ⟨⟨ts, rfl, hitems⟩, hclose⟩
    refine .build ⟨start :: name :: ts ++ [close], by simp, .ofShape ?_ rfl hitems.free rfl (Node.stop_concat _ _)⟩
    simp [Shape.ink, hstart, hclose, hitems.ink]

theorem reads_array (ok : rules.Sound σ) : Reads σ a (array rules) (Spanned σ a) := by
  unfold array
  refine .mark_bind rfl ?_
  rintro start b rfl - hstart
  refine .bind (reads_delimited rfl fun a => (ok.expression a).mono fun _ _ => Spanned.stated) ?_
  rintro ⟨elements, close⟩ c ⟨helements, hclose⟩
  exact .build (helements.framed (by simp [Shape.ink, hstart, hclose]) rfl rfl)

/-- values in a row, newest first -/
theorem reads_moreValues (ok : rules.Sound σ) {first : Node} {front : List Token} (hfirst : first.Covers σ front) :
    Reads σ a (moreValues rules [first]) fun values b =>
      ∃ n ns ts, values = n :: ns ∧ a = ts ++ b ∧ Chain σ n ns (front ++ ts) := by
  unfold moreValues
  refine .loop (fun values b => ∃ n ns ts, values = n :: ns ∧ a = ts ++ b ∧ Chain σ n ns (front ++ ts))
    ⟨first, [], [], rfl, rfl, by simpa using .one hfirst⟩ ?_
  rintro values b ⟨n, ns, ts, rfl, rfl, hchain⟩
  refine .eatMark_bind rfl (fun _ => .pure ⟨n, ns, ts, rfl, rfl, hchain⟩) ?_
  rintro semicolon c rfl - hsemicolon
  refine .bind (ok.expression c) ?_
  rintro value d ⟨us, rfl, hvalue⟩
  exact .pure ⟨value, n :: ns, ts ++ semicolon :: us, rfl, by simp, by simpa using hchain.next hsemicolon hvalue⟩

theorem reads_mappingPair (ok : rules.Sound σ) : Reads σ a (mappingPair rules) (Spanned σ a) := by
  unfold mappingPair
  refine .bind (ok.expression a) ?_
  rintro key b ⟨ts, rfl, hkey⟩
  refine .eatMark_bind rfl (fun _ => ?_) ?_
  · exact .build ⟨ts, rfl, .ofShape (by simp [Shape.ink, hkey.ink]) rfl (by simp [Shape.parts, hkey.free]) hkey.start
      hkey.stop⟩
  rintro colon c rfl - hcolon
  refine .bind (ok.expression c) ?_
  rintro first d ⟨us, rfl, hfirst⟩
  refine .bind (reads_moreValues ok hfirst) ?_
  rintro values e ⟨n, ns, vs, rfl, rfl, hchain⟩
  refine .build ⟨ts ++ colon :: (us ++ vs), by simp, .ofShape ?_ rfl ?_ (hkey.start_append _) ?_⟩
  · have hink := hchain.all.ink
    simp only [inkOf_append] at hink
    simp [Shape.ink, hkey.ink, hcolon, hink]
  · simpa [Shape.parts, hkey.free] using hchain.all.free
  · rw [List.append_cons]
    exact Node.stop_append hchain.stop _

theorem reads_mapping (ok : rules.Sound σ) : Reads σ a (mapping rules) (Spanned σ a) := by
  unfold mapping
  refine .mark_bind rfl ?_
  rintro start b rfl - hstart
  refine .bind (reads_delimited rfl fun a => (reads_mappingPair ok).mono fun _ _ => Spanned.stated) ?_
  rintro ⟨pairs, close⟩ c ⟨hpairs, hclose⟩
  exact .build (hpairs.framed (by simp [Shape.ink, hstart, hclose]) rfl rfl)

/-- a mark of an index is a token that stands for itself -/
theorem indexMark_spec {k : Kind} {m : IndexMark} (h : indexMark? k = some m) : k.mark? = some m.ink := by
  unfold indexMark? at h
  split at h
  · exact Option.some.inj h ▸ rfl
  · exact Option.some.inj h ▸ rfl
  · exact Option.some.inj h ▸ rfl
  · cases h

theorem reads_index (ok : rules.Sound σ) {object : Node} {front : List Token} (hobject : object.Covers σ front) :
    Reads σ a (index rules object) (Grown σ front a) := by
  unfold index
  refine .mark_bind rfl ?_
  rintro start b rfl - hstart
  refine .bind (P := fun parts c => Listed σ b parts.reverse c)
    (.loop (fun parts c => Listed σ b parts.reverse c) .nil ?_) ?_
  · intro parts c hparts
    refine .peek_bind ?_
    split
    · exact .pure hparts
    split
    · next m hm =>
      refine .takeMark_bind (indexMark_spec hm) rfl ?_
      rintro token d rfl - htoken
      exact .pure (hparts.push ⟨[token], rfl, (Node.Covers.leaf htoken rfl rfl).toHolds⟩)
    · exact .bind (ok.expression c) fun n d hn => .pure (hparts.push hn.stated)
  · rintro parts c ⟨ts, rfl, hparts⟩
    refine .mark_bind rfl ?_
    rintro close d rfl - hclose
    refine .build_bind (.build ⟨start :: ts ++ [close], by simp, .ofShape ?_ rfl ?_ (hobject.start_append _) ?_⟩)
    · simp [Shape.ink, Node.ink, hobject.ink, hstart, hclose, hparts.ink]
    · simp only [Shape.parts, List.forall_mem_cons]
      exact ⟨hobject.free, .mk rfl hparts.free, by simp⟩
    · rw [← List.append_assoc]
      exact Node.stop_concat _ _

/-- one item of a closure, with its semicolon -/
theorem reads_closureItem (ok : rules.Sound σ) (kind : Kind) : Reads σ a (closureItem rules kind) (Stated σ a) := by
  unfold closureItem
  split
  · exact ok.statement .block a
  refine .bind (ok.expression a) ?_
  rintro node b ⟨ts, rfl, hnode⟩
  refine .eatMark_bind rfl (fun _ => .pure ⟨ts, rfl, hnode.toHolds⟩) ?_
  rintro semicolon c rfl - hsemicolon
  exact .pure ⟨ts ++ [semicolon], by simp, by simp [hnode.ink, hsemicolon], hnode.suffix, hnode.free⟩

theorem reads_inlineClosure (ok : rules.Sound σ) : Reads σ a (inlineClosure rules) (Spanned σ a) := by
  unfold inlineClosure
  refine .mark_bind rfl ?_
  rintro start b rfl - hstart
  refine .bind (P := fun items c => Listed σ b items.reverse c)
    (.loop (fun items c => Listed σ b items.reverse c) .nil ?_) ?_
  · intro items c hitems
    refine .raw_bind_takeRaw (g := fun _ => pure (.inl items)) (fun t ht => by simp [ht]) (fun _ _ => .pure hitems) ?_
    refine .known_next fun htrivia _ => ?_
    split
    · next hk => simp [hk, Kind.isTrivia, Kind.isComment] at htrivia
    · next hk => simp [hk, Kind.isTrivia, Kind.isComment] at htrivia
    · next hk => simp [hk, Kind.isTrivia] at htrivia
    · exact .pure hitems
    · next hk => exact .takeMark_bind rfl hk fun t d hcd _ ht => .pure (Listed.skip (hcd ▸ hitems) ht)
    · exact .bind (reads_closureItem ok _) fun n d hn => .addItem_bind (.pure (hitems.push hn))
  · intro items c hitems
    refine .mark_bind rfl ?_
    rintro close d rfl - hclose
    exact .build (hitems.framed (by simp [Shape.ink, hstart, hclose]) rfl rfl)

theorem reads_lambda (ok : rules.Sound σ) : Reads σ a (lambda rules) (Spanned σ a) := by
  unfold lambda
  refine .mark_bind rfl ?_
  rintro start b rfl - hstart
  refine .bind (ok.expression b) ?_
  rintro args c ⟨ts, rfl, hargs⟩
  refine .mark_bind rfl ?_
  rintro comma d rfl - hcomma
  refine .bind (ok.expression d) ?_
  rintro code e ⟨us, rfl, hcode⟩
  refine .mark_bind rfl ?_
  rintro close f rfl - hclose
  refine .build ⟨start :: ts ++ comma :: us ++ [close], by simp, .ofShape ?_ rfl ?_ rfl (Node.stop_concat _ _)⟩
  · simp [Shape.ink, hstart, hargs.ink, hcomma, hcode.ink, hclose]
  · simp [Shape.parts, hargs.free, hcode.free]

end LpcStyle.Grammar
