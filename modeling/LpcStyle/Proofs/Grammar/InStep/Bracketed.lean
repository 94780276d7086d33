import Mathlib.Tactic
import LpcStyle.Grammar.Bracketed
import LpcStyle.Proofs.Grammar.InStep

/-!
Lists, preprocessor lines and forms between brackets are read in step. A rule that calls back into the grammar does so
where fewer tokens are left than the calls that are allowed; `Rules.Along` says so of the rules it calls.
-/

namespace LpcStyle

open Text LpcStyle.Parser

/-- the rules that the others refer back to go on in step, where fewer than `depth` tokens are left -/
structure Rules.Along (τ : Twins) (depth : Nat) (rules rules' : Rules) : Prop where
  expression : ∀ {k : Nat}, τ.size < k + depth → InStep τ k rules.expression rules'.expression (Gives τ k)
  operand : ∀ {k : Nat}, τ.size < k + depth → InStep τ k rules.operand rules'.operand (Gives τ k)
  climb : ∀ {i k : Nat} {left left' : Node} {min : Nat}, τ.size < k + depth → i ≤ k → τ.Same i k left left' →
    InStep τ k (rules.climb left min) (rules'.climb left' min) fun j n n' => k ≤ j ∧ τ.Same i j n n' ∧
      ∀ rank, Grammar.rank? (τ.left k) = some rank → min ≤ rank → k < j
  argument : ∀ {k : Nat}, τ.size < k + depth → InStep τ k rules.argument rules'.argument (Gives τ k)
  statement : ∀ {k : Nat} (scope : Scope), τ.size < k + depth →
    InStep τ k (rules.statement scope) (rules'.statement scope) (Gives τ k)

namespace Grammar

variable {τ : Twins} {i k depth : Nat} {rules rules' : Rules} {α β : Type} {R : Nat → β → β → Prop}

/-! ## Lists -/

/-- a blank line counts for nothing in a list -/
theorem solid_addBlank (token : Token) (items : List Node) :
    Node.solid false (addBlank token items) = Node.solid false items := by
  unfold addBlank
  split
  · rfl
  · split <;> rfl

theorem solid_dropWhile (items : List Node) :
    Node.solid false (items.dropWhile (·.shape.isBlankLine)) = Node.solid false items := by
  induction items with
  | nil => rfl
  | cons n items ih =>
    cases hn : n.shape.isBlankLine with
    | true => simpa [Node.solid, hn] using ih
    | false => simp [hn]

theorem addItem_bind {items items' : List Node} {item item' : Node} {f f' : List Node → Parser β}
    (h : InStep τ k (f (item :: items)) (f' (item' :: items')) R) :
    InStep τ k (addItem items item >>= f) (addItem items' item' >>= f') R := by
  have hadd : InStep τ k (addItem items item) (addItem items' item') fun j ns ns' =>
      j = k ∧ ns = item :: items ∧ ns' = item' :: items' := by
    unfold addItem adoptPending
    simp only [bind_assoc, pure_bind]
    exact .takePending_bind (.pure ⟨rfl, rfl, rfl⟩)
  refine .bind hadd ?_
  rintro j ns ns' ⟨rfl, rfl, rfl⟩
  exact h

/-- statements end with one that is no blank line -/
def EndsSolid (ns : List Node) : Prop := ∀ n ∈ ns.getLast?, n.shape.isBlankLine = false

theorem getLast_solid {ns : List Node} (h : EndsSolid ns) : (Node.solid false ns).getLast? = ns.getLast? := by
  obtain rfl | ⟨front, n, rfl⟩ := List.eq_nil_or_concat' ns
  · rfl
  · have hn := h n (by simp)
    simp [Node.solid, hn]

theorem sameOption_getLast {j : Nat} {ns ns' : List Node} (h : τ.SameAll i j ns ns') (hns : EndsSolid ns)
    (hns' : EndsSolid ns') : τ.SameOption i j ns.getLast? ns'.getLast? := by
  rw [← getLast_solid hns, ← getLast_solid hns', ← List.head?_reverse, ← List.head?_reverse]
  have hreverse := List.rel_reverse h
  generalize (Node.solid false ns).reverse = solid at hreverse
  generalize (Node.solid false ns').reverse = solid' at hreverse
  cases hreverse with
  | nil => exact .none
  | cons hn _ => exact .some hn

/-- what a list of statements gives -/
structure Lists (τ : Twins) (k j : Nat) (ns ns' : List Node) : Prop where
  le : k ≤ j
  same : τ.SameAll k j ns ns'
  ends : EndsSolid ns
  ends' : EndsSolid ns'

/-- **Statement lists**: blank lines are dropped on either side. -/
theorem inStep_statementList (ok : rules.Along τ depth rules') (hk : τ.size < k + depth) (scope : Scope)
    (closers : List Kind) :
    InStep τ k (statementList rules scope closers) (statementList rules' scope closers) (Lists τ k) := by
  unfold statementList
  refine .bind (P := fun j items items' => k ≤ j ∧ τ.SameAll k j items items')
    (.rawLoop (I := fun j items items' => k ≤ j ∧ τ.SameAll k j items items') addBlank ⟨le_rfl, .nil⟩ ?_ ?_ ?_) ?_
  · intro items r hraw
    constructor <;> simp only [run_raw_bind, hraw] <;> rfl
  · rintro j items items' t ⟨hkj, hitems⟩
    simpa only [Twins.SameAll, solid_addBlank, and_self] using ⟨hkj, hitems⟩
  · rintro j items items' - ⟨hkj, hitems⟩
    refine .raw_bind (.ofInStep ?_)
    rw [τ.kind_right]
    split
    · next hkind => exact absurd (τ.left_isComment j) (by simp [hkind, Kind.isComment])
    · next hkind => exact absurd (τ.left_isComment j) (by simp [hkind, Kind.isComment])
    · next hkind => exact absurd hkind (place_ne_blankLines j)
    · next hkind =>
      exact .take_bind (by simp [hkind]) fun _ => .pure (.again (Nat.lt_succ_self j)
        ⟨by omega, hitems.widen le_rfl (Nat.le_succ j)⟩)
    · exact .pure (.done ⟨hkj, hitems⟩)
    · refine .ite Iff.rfl (fun _ => .pure (.done ⟨hkj, hitems⟩)) fun _ => ?_
      refine .bind (ok.statement scope (by omega)) ?_
      rintro m item item' ⟨hjm, hitem⟩
      exact addItem_bind (.pure (.again hjm ⟨by omega, .cons (hitem.widen hkj le_rfl) (hitems.widen le_rfl hjm.le)⟩))
  · rintro j items items' ⟨hkj, hitems⟩
    have hends (items : List Node) : EndsSolid (items.dropWhile (·.shape.isBlankLine)).reverse := by
      intro n hn
      rw [List.getLast?_reverse, Option.mem_def] at hn
      simpa [hn] using List.head?_dropWhile_not (·.shape.isBlankLine) items
    refine .pure ⟨hkj, .reverse ?_, hends items, hends items'⟩
    rw [Twins.SameAll, solid_dropWhile, solid_dropWhile]
    exact hitems

/-! ## Preprocessor lines -/

/-- spans of the two texts with the same source text -/
def SameText (τ : Twins) (s s' : Span) : Prop := slice τ.text s = slice τ.text' s'

theorem sameText_place (h : k < τ.size) : SameText τ (τ.left k).span (τ.right k).span := by
  have hleft : slice τ.text (τ.left k).span = (τ.left k).text := slice_place τ.quiet h
  have hright : slice τ.text' (τ.right k).span = (τ.right k).text := slice_place τ.quiet' (by rwa [τ.size_eq])
  rw [SameText, hleft, hright, τ.text_right]

/-- the same lines are read of a preprocessor line that starts at the two offsets -/
structure SameLines (τ : Twins) (i j : Nat) (start start' : Nat) (d d' : DirectiveLines) : Prop where
  done : List.Forall₂ (SameText τ) d.done d'.done
  line : Option.Rel (SameText τ) d.line d'.line
  /-- a line has one argument -/
  single : d.line.isSome = true → (τ.left j).kind ≠ .directiveArgument
  lies : τ.Lies i j ⟨start, d.stop⟩ ⟨start', d'.stop⟩

namespace SameLines

variable {j start start' : Nat} {d d' : DirectiveLines}

theorem finishLine (h : SameLines τ i j start start' d d') :
    List.Forall₂ (SameText τ) d.finishLine.done d'.finishLine.done := by
  obtain ⟨done, line, stop⟩ := d
  obtain ⟨done', line', stop'⟩ := d'
  obtain ⟨hdone, hline, -, -⟩ := h
  cases hline with
  | none => exact hdone
  | some hline => exact .cons hline hdone

/-- an argument is the whole of its line -/
theorem extend (h : SameLines τ i j start start' d d') (hkind : (τ.left j).kind = .directiveArgument)
    (hnext : (τ.left (j + 1)).kind ≠ .directiveArgument) :
    SameLines τ i (j + 1) start start' (d.extend (τ.left j).span) (d'.extend (τ.right j).span) := by
  have hj : j < τ.size := Twins.lt_size (by simp [hkind])
  obtain ⟨done, line, stop⟩ := d
  obtain ⟨done', line', stop'⟩ := d'
  obtain ⟨hdone, hline, hsingle, hlies⟩ := h
  cases hline with
  | none => exact ⟨hdone, .some (sameText_place hj), fun _ => hnext, hlies.onward (.place hj) le_rfl⟩
  | some => exact absurd hkind (hsingle rfl)

end SameLines

/-- **The lines of a preprocessor line**: inside of it no blank lines are ahead. -/
theorem steady_directiveLines {start start' : Nat} {d d' : DirectiveLines} (h : SameLines τ i k start start' d d') :
    Steady τ k (directiveLines d) (directiveLines d') fun j d d' => k < j ∧
      List.Forall₂ (SameText τ) d.done d'.done ∧ τ.Lies i j ⟨start, d.stop⟩ ⟨start', d'.stop⟩ := by
  intro r r' hready
  unfold directiveLines
  refine agree_loop (I := fun d r d' r' => ∃ j, k ≤ j ∧ τ.Ready j r r' ∧ SameLines τ i j start start' d d') ?_
    ⟨k, le_rfl, hready, h⟩
  rintro d r d' r' ⟨j, hkj, hready, hd⟩
  refine .inl ?_
  simp only [run_raw_bind, hready.raw, hready.raw', τ.fault_right, τ.kind_right]
  cases (τ.left j).fault with
  | some fault => exact .refused
  | none =>
    -- a token on which the line goes on
    have hagain {e e' : DirectiveLines} (hopens : (τ.left j).kind.opensLine = true)
        (hnext : SameLines τ i (j + 1) start start' e e') :
        Agree (NextRound (fun d r d' r' => ∃ j, k ≤ j ∧ τ.Ready j r r' ∧ SameLines τ i j start start' d d')
          (fun d s d' s' => ∃ j, τ.At j s s' ∧ k < j ∧ List.Forall₂ (SameText τ) d.done d'.done ∧
            τ.Lies i j ⟨start, d.stop⟩ ⟨start', d'.stop⟩) r r')
          ((do let _ ← takeRaw; return .inl e : Parser (DirectiveLines ⊕ DirectiveLines)).run r)
          ((do let _ ← takeRaw; return .inl e' : Parser (DirectiveLines ⊕ DirectiveLines)).run r') := by
      obtain ⟨hnextReady, -⟩ := hready.dropRaw_line hopens
      exact .ok ⟨hready.left.remaining_lt hnextReady.left (Nat.lt_succ_self j),
        hready.right.remaining_lt hnextReady.right (Nat.lt_succ_self j), j + 1, by omega, hnextReady, hnext⟩
    dsimp only
    split
    · next hkind =>
      have hopens : (τ.left j).kind.opensLine = true := by rw [hkind]; rfl
      exact hagain hopens (hd.extend hkind ((hready.dropRaw_line hopens).2 hkind))
    · next hkind => exact absurd (τ.left_isComment j) (by simp [hkind, Kind.isComment])
    · next hkind =>
      have hopens : (τ.left j).kind.opensLine = true := by rw [hkind]; rfl
      refine hagain hopens ⟨hd.finishLine, .none, by simp [DirectiveLines.finishLine], ?_⟩
      exact hd.lies.widen le_rfl (Nat.le_succ j)
    · next hkind =>
      have hj : j < τ.size := Twins.lt_size (by simp [hkind])
      exact .ok ⟨j + 1, hready.dropRaw hj, by omega, hd.finishLine, hd.lies.widen le_rfl (Nat.le_succ j)⟩
    · refine (InStep.unexpected (Q := fun _ _ _ => False) r r' hready.toAt).mono ?_
      rintro x s x' s' ⟨-, -, h⟩
      exact h.elim

theorem inStep_lexemes {spans spans' : List Span} (h : List.Forall₂ (SameText τ) spans spans') :
    InStep τ k (spans.mapM lexeme) (spans'.mapM lexeme) fun j ls ls' =>
      j = k ∧ ls.map Lexeme.unplaced = ls'.map Lexeme.unplaced := by
  induction h with
  | nil => exact .pure ⟨rfl, rfl⟩
  | @cons span span' spans spans' hspan _ ih =>
    rw [List.mapM_cons, List.mapM_cons]
    refine .bind .lexeme ?_
    rintro j l l' ⟨rfl, rfl, rfl⟩
    refine .bind ih ?_
    rintro j ls ls' ⟨rfl, hls⟩
    refine .pure ⟨rfl, ?_⟩
    rw [List.map_cons, List.map_cons, hls, Lexeme.unplaced, Lexeme.unplaced, hspan]

/-- **A preprocessor line** is the same in both texts. -/
theorem inStep_directive (hkind : (τ.left k).kind = .directive) : InStep τ k directive directive (Gives τ k) := by
  have hk : k < τ.size := Twins.lt_size (by simp [hkind])
  have hhash := Twins.Lies.place hk
  unfold directive
  refine .take_line_bind (by rw [hkind]; rfl) ?_
  extract_lets word name rest word' name' rest'
  have hname : name.unplaced = name'.unplaced := by simp [name, name', word, word', Lexeme.unplaced]
  have hrest {m : Nat} (hm : k < m) (key key' : Option Token)
      (hkey : key.map (Lexeme.unplaced ∘ Lexeme.ofToken) = key'.map (Lexeme.unplaced ∘ Lexeme.ofToken))
      (hlies : τ.Lies k m ⟨(τ.left k).span.start, (key.map (·.span.stop)).getD (τ.left k).span.stop⟩
        ⟨(τ.right k).span.start, (key'.map (·.span.stop)).getD (τ.right k).span.stop⟩) :
      Steady τ m (rest key) (rest' key') (Gives τ k) := by
    refine .bind (steady_directiveLines (i := k) ⟨.nil, .none, by simp, hlies⟩) ?_
    rintro j d d' ⟨hmj, hdone, hlies⟩
    refine .bind (inStep_lexemes (List.rel_reverse hdone)) ?_
    rintro j args args' ⟨rfl, hargs⟩
    refine .build hlies ?_ fun n n' h => ⟨by omega, h⟩
    simp only [Shape.unplaced, hname, hargs, Option.map_map, hkey]
  refine .raw_bind ?_
  rw [τ.kind_right]
  by_cases hkey : (τ.left (k + 1)).kind = .directiveKey
  · simp only [if_pos hkey, map_eq_pure_bind, bind_assoc, pure_bind]
    refine .takeRaw_line_bind (by rw [hkey]; rfl) ?_
    have hlt : k + 1 < τ.size := Twins.lt_size (by simp [hkey])
    refine hrest (by omega) _ _ ?_ (hhash.onward (.place hlt) le_rfl)
    simp [Lexeme.unplaced, Lexeme.ofToken]
  · rw [if_neg hkey, if_neg hkey, pure_bind, pure_bind]
    refine hrest (by omega) none none rfl ?_
    rw [Option.map_none, Option.getD_none, Option.getD_none]
    exact hhash.fromStart

/-- what a list up to its closing token gives -/
structure Closes (τ : Twins) (k j : Nat) (x x' : List Node × Token) : Prop where
  lt : k < j
  same : τ.SameAll k j x.1 x'.1
  close : τ.Lies k j x.2.span x'.2.span

/-- **Lists with commas**: blank lines are dropped on either side. -/
theorem inStep_delimited {close : Kind} {closeText : String} {item item' : Parser Node} (hclose : close ≠ .endOfFile)
    (hitem : ∀ j, k ≤ j → InStep τ j item item' (Gives τ j)) :
    InStep τ k (delimited close closeText item) (delimited close closeText item') (Closes τ k) := by
  unfold delimited
  refine .bind (P := fun j items items' => k ≤ j ∧ τ.SameAll k j items items')
    (.rawLoop (I := fun j items items' => k ≤ j ∧ τ.SameAll k j items items') (fun _ items => items)
      ⟨le_rfl, .nil⟩ ?_ ?_ ?_) ?_
  · intro items r hraw
    constructor <;> simp only [run_raw_bind, hraw] <;> rfl
  · exact fun _ _ _ _ h => ⟨h, h⟩
  · rintro j items items' - ⟨hkj, hitems⟩
    refine .raw_bind (.ofInStep ?_)
    rw [τ.kind_right]
    split
    · next hkind => exact absurd (τ.left_isComment j) (by simp [hkind, Kind.isComment])
    · next hkind => exact absurd (τ.left_isComment j) (by simp [hkind, Kind.isComment])
    · next hkind => exact absurd hkind (place_ne_blankLines j)
    · have hcons {m : Nat} {n n' : Node} (h : Gives τ j m n n') : k ≤ m ∧ τ.SameAll k m (n :: items) (n' :: items') :=
        ⟨by have := h.1; omega, .cons (h.2.widen hkj le_rfl) (hitems.widen le_rfl h.1.le)⟩
      refine .ite Iff.rfl (fun _ => .pure (.done ⟨hkj, hitems⟩)) fun _ => ?_
      refine .ite Iff.rfl (fun _ => .unexpected) fun _ => .ite Iff.rfl (fun hkind => ?_) fun _ => ?_
      · exact .bind (inStep_directive hkind) fun m n n' h => .pure (.again h.1 (hcons h))
      refine .bind (hitem j hkj) fun m n n' h => .peekKind_bind (addItem_bind ?_)
      refine .ite Iff.rfl (fun hcomma => .take_bind (by simp [hcomma]) fun _ => ?_) fun _ => ?_
      · obtain ⟨hle, hsame⟩ := hcons h
        exact .pure (.again (by have := h.1; omega) ⟨by omega, hsame.widen le_rfl (Nat.le_succ m)⟩)
      refine .ite Iff.rfl (fun _ => .pure (.done (hcons h))) fun _ => ?_
      exact .ite Iff.rfl (fun _ => .pure (.again h.1 (hcons h))) fun _ => .wanted
  · rintro j items items' ⟨hkj, hitems⟩
    refine .expect_bind hclose fun _ hj => .pure ⟨by omega, ?_, (Twins.Lies.place hj).widen hkj le_rfl⟩
    exact (hitems.widen le_rfl (Nat.le_succ j)).reverse

/-! ## Between brackets -/

theorem inStep_textBlock : InStep τ k textBlock textBlock (Gives τ k) := by
  unfold textBlock
  refine .expect_bind (by simp) fun _ hk => .expect_bind (by simp) fun _ _ => .expect_bind (by simp) fun _ hlast => ?_
  refine .build ((Twins.Lies.place hk).onward (.place hlast) (by omega)) ?_ fun n n' h => ⟨by omega, h⟩
  simp only [τ.text_right]

theorem inStep_structItem (ok : rules.Along τ depth rules') (hk : τ.size < k + depth) :
    InStep τ k (structItem rules) (structItem rules') (Gives τ k) := by
  unfold structItem
  refine .bind (ok.expression hk) ?_
  rintro j key key' ⟨hkj, hkey⟩
  rw [Node.isIdentifier_of_unplaced hkey.unplaced]
  refine .ite Iff.rfl (fun _ => .pure ⟨hkj, hkey⟩) fun _ => .eat_bind (by simp) (fun _ _ => ?_) fun _ => .pure ⟨hkj, hkey⟩
  refine .bind (ok.expression (by omega)) ?_
  rintro m value value' ⟨hjm, hvalue⟩
  refine .build (hkey.lies.onward hvalue.lies (Nat.le_succ j)) ?_ fun n n' h => ⟨by omega, h⟩
  simp only [Shape.unplaced, hkey.unplaced, Twins.SameAll.unplaced (.cons hvalue .nil)]

theorem inStep_paren (ok : rules.Along τ depth rules') (hk : τ.size ≤ k + depth) :
    InStep τ k (paren rules) (paren rules') (Gives τ k) := by
  unfold paren
  refine .expect_bind (by simp) fun _ hstart => .eat_bind (by simp) (fun _ _ => ?_) fun _ => ?_
  · refine .bind (inStep_delimited (by simp) fun j hj => inStep_structItem ok (by omega)) fun j x x' h => ?_
    have := h.lt
    refine .build ((Twins.Lies.place hstart).onward h.close (by omega)) ?_ fun n n' h => ⟨by omega, h⟩
    simp only [Shape.unplaced, Lexeme.unplaced, Lexeme.ofToken, τ.text_right, h.same.unplaced]
  · refine .bind (inStep_delimited (by simp) fun j hj => ok.expression (by omega)) fun j x x' h => ?_
    have := h.lt
    refine .build ((Twins.Lies.place hstart).onward h.close le_rfl) ?_ fun n n' h => ⟨by omega, h⟩
    simp only [Shape.unplaced, h.same.unplaced]

theorem inStep_array (ok : rules.Along τ depth rules') (hk : τ.size ≤ k + depth) :
    InStep τ k (array rules) (array rules') (Gives τ k) := by
  unfold array
  refine .expect_bind (by simp) fun _ hstart => ?_
  refine .bind (inStep_delimited (by simp) fun j hj => ok.expression (by omega)) fun j x x' h => ?_
  have := h.lt
  refine .build ((Twins.Lies.place hstart).onward h.close le_rfl) ?_ fun n n' h => ⟨by omega, h⟩
  simp only [Shape.unplaced, h.same.unplaced]

/-- nodes in a row, the same in both texts -/
def SameEach (τ : Twins) (i j : Nat) (ns ns' : List Node) : Prop := List.Forall₂ (τ.Same i j) ns ns'

namespace SameEach

variable {j m : Nat} {ns ns' : List Node}

theorem widen (h : SameEach τ i j ns ns') (hj : j ≤ m) : SameEach τ i m ns ns' := h.imp fun _ _ h => h.widen le_rfl hj

theorem sameAll (h : SameEach τ i j ns ns') : τ.SameAll i j ns ns' := by
  induction h with
  | nil => exact .nil
  | cons hn _ ih => exact .cons hn ih

end SameEach

theorem inStep_moreValues (ok : rules.Along τ depth rules') (hk : τ.size < k + depth) (hik : i ≤ k)
    {values values' : List Node} (h : SameEach τ i k values values') :
    InStep τ k (moreValues rules values) (moreValues rules' values') fun j vs vs' => k ≤ j ∧ SameEach τ i j vs vs' := by
  refine .loop (I := fun j vs vs' => k ≤ j ∧ SameEach τ i j vs vs') ⟨le_rfl, h⟩ ?_
  rintro j values values' - ⟨hkj, hvalues⟩
  refine .eat_bind (by simp) (fun _ _ => .bind (ok.expression (by omega)) ?_) fun _ => .pure (.done ⟨hkj, hvalues⟩)
  rintro m value value' ⟨hjm, hvalue⟩
  exact .pure (.again (by omega) ⟨by omega, .cons (hvalue.widen (by omega) le_rfl) (hvalues.widen (by omega))⟩)

theorem inStep_mappingPair (ok : rules.Along τ depth rules') (hk : τ.size < k + depth) :
    InStep τ k (mappingPair rules) (mappingPair rules') (Gives τ k) := by
  unfold mappingPair
  refine .bind (ok.expression hk) ?_
  rintro j key key' ⟨hkj, hkey⟩
  refine .eat_bind (by simp) (fun _ _ => .bind (ok.expression (by omega)) ?_) fun _ => ?_
  · rintro m first first' ⟨hjm, hfirst⟩
    refine .bind (inStep_moreValues ok (by omega) (i := j + 1) (by omega) (.cons hfirst .nil)) ?_
    rintro l values values' ⟨hml, hvalues⟩
    have hlast : τ.Same (j + 1) l (values.headD first) (values'.headD first') := by
      cases hvalues with
      | nil => exact hfirst.widen le_rfl hml
      | cons h _ => exact h
    refine .build (hkey.lies.onward hlast.lies (by omega)) ?_ fun n n' h => ⟨by omega, h⟩
    simp only [Shape.unplaced, hkey.unplaced, hvalues.sameAll.reverse.unplaced]
  · refine .build hkey.lies ?_ fun n n' h => ⟨hkj, h⟩
    simp only [Shape.unplaced, hkey.unplaced]

theorem inStep_mapping (ok : rules.Along τ depth rules') (hk : τ.size ≤ k + depth) :
    InStep τ k (mapping rules) (mapping rules') (Gives τ k) := by
  unfold mapping
  refine .expect_bind (by simp) fun _ hstart => ?_
  refine .bind (inStep_delimited (by simp) fun j hj => inStep_mappingPair ok (by omega)) fun j x x' h => ?_
  have := h.lt
  refine .build ((Twins.Lies.place hstart).onward h.close le_rfl) ?_ fun n n' h => ⟨by omega, h⟩
  simp only [Shape.unplaced, h.same.unplaced]

/-- a token by itself -/
theorem same_leaf {shape : Shape Node} (hk : k < τ.size) :
    τ.Same k (k + 1) (leaf (τ.left k) shape) (leaf (τ.right k) shape) := .ofShape (.place hk) rfl

theorem inStep_index (ok : rules.Along τ depth rules') (hk : τ.size ≤ k + depth) {object object' : Node}
    (hobject : τ.Same i k object object') :
    InStep τ k (index rules object) (index rules' object') fun j n n' => k < j ∧ τ.Same i j n n' := by
  unfold index
  refine .expect_bind (by simp) fun _ hstart => ?_
  refine .bind (P := fun j parts parts' => k < j ∧ τ.SameAll (k + 1) j parts parts')
    (.loop (I := fun j parts parts' => k < j ∧ τ.SameAll (k + 1) j parts parts') ⟨by omega, .nil⟩ ?_) ?_
  · rintro j parts parts' - ⟨hkj, hparts⟩
    refine .peek_bind ?_
    rw [τ.kind_right]
    refine .ite Iff.rfl (fun _ => .pure (.done ⟨hkj, hparts⟩)) fun _ => ?_
    cases hmark : indexMark? (τ.left j).kind with
    | some mark =>
      have hne : (τ.left j).kind ≠ .endOfFile := by
        intro hkind
        rw [hkind] at hmark
        cases hmark
      refine .take_bind hne fun _ => .pure (.again (Nat.lt_succ_self j) ⟨by omega, .cons ?_ ?_⟩)
      · exact (same_leaf (Twins.lt_size hne)).widen (by omega) le_rfl
      · exact hparts.widen le_rfl (Nat.le_succ j)
    | none =>
      refine .bind (ok.expression (by omega)) ?_
      rintro m part part' ⟨hjm, hpart⟩
      exact .pure (.again hjm ⟨by omega, .cons (hpart.widen (by omega) le_rfl) (hparts.widen le_rfl hjm.le)⟩)
  · rintro j parts parts' ⟨hkj, hparts⟩
    refine .expect_bind (by simp) fun _ hclose => ?_
    have hspan := (Twins.Lies.place hstart).onward (.place hclose) (by omega)
    refine .bind (.build (Q := fun m n n' => m = j + 1 ∧ τ.Same k m n n') hspan ?_ fun n n' h => ⟨rfl, h⟩) ?_
    · simp only [Shape.unplaced, hparts.reverse.unplaced]
    · rintro m indexor indexor' ⟨rfl, hindexor⟩
      refine .build (hobject.lies.onward (.place hclose) (by omega)) ?_ fun n n' h => ⟨by omega, h⟩
      simp only [Shape.unplaced, hobject.unplaced, hindexor.unplaced]

theorem inStep_closureItem (ok : rules.Along τ depth rules') (hk : τ.size < k + depth) (kind : Kind) :
    InStep τ k (closureItem rules kind) (closureItem rules' kind) (Gives τ k) := by
  unfold closureItem
  refine .ite Iff.rfl (fun _ => ok.statement .block hk) fun _ => .bind (ok.expression hk) ?_
  rintro j n n' ⟨hkj, hn⟩
  refine .eat_bind (by simp) (fun _ _ => .pure ⟨by omega, hn.widen le_rfl (Nat.le_succ j)⟩) fun _ => .pure ⟨hkj, hn⟩

theorem inStep_inlineClosure (ok : rules.Along τ depth rules') (hk : τ.size ≤ k + depth) :
    InStep τ k (inlineClosure rules) (inlineClosure rules') (Gives τ k) := by
  unfold inlineClosure
  refine .expect_bind (by simp) fun _ hstart => ?_
  refine .bind (P := fun j items items' => k < j ∧ τ.SameAll (k + 1) j items items')
    (.rawLoop (I := fun j items items' => k < j ∧ τ.SameAll (k + 1) j items items') (fun _ items => items)
      ⟨by omega, .nil⟩ ?_ ?_ ?_) ?_
  · intro items r hraw
    constructor <;> simp only [run_raw_bind, hraw] <;> rfl
  · exact fun _ _ _ _ h => ⟨h, h⟩
  · rintro j items items' - ⟨hkj, hitems⟩
    refine .raw_bind (.ofInStep ?_)
    rw [τ.kind_right]
    split
    · next hkind => exact absurd (τ.left_isComment j) (by simp [hkind, Kind.isComment])
    · next hkind => exact absurd (τ.left_isComment j) (by simp [hkind, Kind.isComment])
    · next hkind => exact absurd hkind (place_ne_blankLines j)
    · exact .pure (.done ⟨hkj, hitems⟩)
    · next hkind =>
      exact .take_bind (by simp [hkind]) fun _ => .pure (.again (Nat.lt_succ_self j)
        ⟨by omega, hitems.widen le_rfl (Nat.le_succ j)⟩)
    · refine .bind (inStep_closureItem ok (by omega) _) ?_
      rintro m item item' ⟨hjm, hitem⟩
      exact addItem_bind (.pure (.again hjm
        ⟨by omega, .cons (hitem.widen (by omega) le_rfl) (hitems.widen le_rfl hjm.le)⟩))
  · rintro j items items' ⟨hkj, hitems⟩
    refine .expect_bind (by simp) fun _ hclose => ?_
    refine .build ((Twins.Lies.place hstart).onward (.place hclose) (by omega)) ?_ fun n n' h => ⟨by omega, h⟩
    simp only [Shape.unplaced, hitems.reverse.unplaced]

theorem inStep_lambda (ok : rules.Along τ depth rules') (hk : τ.size ≤ k + depth) :
    InStep τ k (lambda rules) (lambda rules') (Gives τ k) := by
  unfold lambda
  refine .expect_bind (by simp) fun _ hstart => .bind (ok.expression (by omega)) ?_
  rintro j args args' ⟨hkj, hargs⟩
  refine .expect_bind (by simp) fun _ _ => .bind (ok.expression (by omega)) ?_
  rintro m code code' ⟨hjm, hcode⟩
  refine .expect_bind (by simp) fun _ hclose => ?_
  refine .build ((Twins.Lies.place hstart).onward (.place hclose) (by omega)) ?_ fun n n' h => ⟨by omega, h⟩
  simp only [Shape.unplaced, hargs.unplaced, hcode.unplaced]

end Grammar

end LpcStyle
