import Mathlib.Tactic
import LpcStyle.Grammar.Declaration
import LpcStyle.Proofs.Grammar.InStep.Expression

/-!
Declarations are read in step. The marks before a name make a declarator by themselves if they take up any text, which
they do in both texts or in none; the type `struct name` is compared word by word.
-/

namespace LpcStyle

open Text LpcStyle.Parser

namespace Grammar

variable {τ : Twins} {i k depth : Nat} {rules rules' : Rules}

/-! ## Heads -/

/-- modifiers that are spelled the same -/
def SameLexemes (ls ls' : List Lexeme) : Prop := ls.map Lexeme.unplaced = ls'.map Lexeme.unplaced

theorem SameLexemes.isEmpty {ls ls' : List Lexeme} (h : SameLexemes ls ls') : ls'.isEmpty = ls.isEmpty := by
  have hlength := congrArg List.length h
  cases ls <;> cases ls' <;> simp at hlength ⊢

theorem SameLexemes.reverse {ls ls' : List Lexeme} (h : SameLexemes ls ls') : SameLexemes ls.reverse ls'.reverse := by
  rw [SameLexemes, List.map_reverse, List.map_reverse, h]

theorem inStep_modifiers : InStep τ k modifiers modifiers fun j ls ls' => k ≤ j ∧ SameLexemes ls ls' := by
  unfold modifiers
  refine .bind (P := fun j ls ls' => k ≤ j ∧ SameLexemes ls ls')
    (.loop (I := fun j ls ls' => k ≤ j ∧ SameLexemes ls ls') ⟨le_rfl, rfl⟩ ?_) ?_
  · rintro j ls ls' - ⟨hkj, hls⟩
    refine .eat_bind (by simp) (fun _ _ => .pure (.again (Nat.lt_succ_self j) ⟨by omega, ?_⟩)) fun _ => .pure (.done ⟨hkj, hls⟩)
    simp only [SameLexemes, List.map_cons, τ.ofToken_right]
    rw [hls]
  · rintro j ls ls' ⟨hkj, hls⟩
    exact .pure ⟨hkj, hls.reverse⟩

/-- what an ampersand before a name gives -/
theorem inStep_eatAmpersand : InStep τ k eatAmpersand? eatAmpersand? fun j t t' =>
    (j = k + 1 ∧ t = some (τ.left k) ∧ t' = some (τ.right k) ∧ k < τ.size ∧ (τ.left k).text = ['&']) ∨
      j = k ∧ t = none ∧ t' = none := by
  unfold eatAmpersand? atAmpersand
  refine .atText_bind (.ite Iff.rfl (fun h => ?_) fun _ => .pure (.inr ⟨rfl, rfl, rfl⟩))
  obtain ⟨hkind, htext⟩ : (τ.left k).kind = .arithOp ∧ (τ.left k).text = ['&'] := by simpa using h
  have hne : (τ.left k).kind ≠ .endOfFile := by simp [hkind]
  exact .take_bind hne fun _ => .pure (.inl ⟨rfl, rfl, rfl, Twins.lt_size hne, htext⟩)

theorem inStep_atDeclarator : InStep τ k atDeclarator atDeclarator fun j b b' => j = k ∧ b' = b := by
  unfold atDeclarator atAmpersand
  refine inStep_atName fun b _ => .ite Iff.rfl (fun _ => .pure ⟨rfl, rfl⟩) fun _ => .peekKind_bind ?_
  refine .ite Iff.rfl (fun _ => .pure ⟨rfl, rfl⟩) fun _ => ?_
  rw [← bind_pure (atText? .arithOp "&")]
  exact .atText_bind (.pure ⟨rfl, rfl⟩)

theorem inStep_isTypeUsedAsName {ls ls' : List Lexeme} (h : SameLexemes ls ls') (m : Nat) :
    InStep τ k (isTypeUsedAsName ls (τ.left m)) (isTypeUsedAsName ls' (τ.right m)) fun j b b' => j = k ∧ b' = b := by
  unfold isTypeUsedAsName
  rw [h.isEmpty, τ.text_right]
  refine .ite Iff.rfl (fun _ => .bind inStep_atDeclarator ?_) fun _ => .pure ⟨rfl, rfl⟩
  rintro j b b' ⟨rfl, rfl⟩
  exact .pure ⟨rfl, rfl⟩

/-- the same type, word by word -/
structure SameType (τ : Twins) (i j : Nat) (l l' : Lexeme) : Prop where
  words : l.byWords = l'.byWords
  lies : τ.Lies i j l.span l'.span

theorem isStructWord_right (m : Nat) : isStructWord (τ.right m) = isStructWord (τ.left m) := by
  simp only [isStructWord, τ.text_right]

theorem sameType_word (hk : k < τ.size) : SameType τ k (k + 1) (.ofToken (τ.left k)) (.ofToken (τ.right k)) := by
  refine ⟨?_, .place hk⟩
  simp only [Lexeme.byWords, Lexeme.ofToken, τ.text_right]

/-- **The source text of `struct name`** has the same words in both texts. -/
theorem inStep_lexemeBetween {m : Nat} (hm : m + 1 < τ.size) (htype : (τ.left m).kind = .typeWord)
    (hname : (τ.left (m + 1)).kind = .name) :
    InStep τ k (lexemeBetween (τ.left m) (τ.left (m + 1))) (lexemeBetween (τ.right m) (τ.right (m + 1))) fun j l l' =>
      j = k ∧ SameType τ m (m + 2) l l' := by
  have hlies := (Twins.Lies.place (Nat.lt_of_succ_lt hm)).onward (.place hm) le_rfl
  have hleft := words_slice_place τ.quiet hm htype hname
  have hright := words_slice_place τ.quiet' (k := m) (by rwa [τ.size_eq])
    ((τ.kind_right m).trans htype) ((τ.kind_right (m + 1)).trans hname)
  unfold lexemeBetween
  refine .spanning_bind hlies (.mono .lexeme ?_)
  rintro j l l' ⟨rfl, rfl, rfl⟩
  refine ⟨rfl, ?_, hlies⟩
  have htext (k : Nat) : (place τ.text' k).text = (place τ.text k).text := τ.text_right k
  simp only [Lexeme.byWords, Twins.left, Twins.right]
  rw [hleft, hright, htext, htext]

/-- the type that starts with the word before the place -/
theorem inStep_typeFrom (hk : k < τ.size) (htype : (τ.left k).kind = .typeWord) :
    InStep τ (k + 1) (typeFrom (τ.left k)) (typeFrom (τ.right k)) fun j l l' => k < j ∧ SameType τ k j l l' := by
  unfold typeFrom
  rw [isStructWord_right]
  refine .ite Iff.rfl (fun _ => .expect_bind (by simp) fun hname hlt => ?_) fun _ => .pure ⟨by omega, sameType_word hk⟩
  refine .mono (inStep_lexemeBetween hlt htype hname) ?_
  rintro j l l' ⟨rfl, hl⟩
  exact ⟨by omega, hl⟩

/-! ## Declarators -/

theorem start_left (hk : k < τ.size) : (τ.left k).span.start = edge τ.text k := start_eq_edge hk

theorem start_right (hk : k < τ.size) : (τ.right k).span.start = edge τ.text' k := start_eq_edge (by rwa [τ.size_eq])

/-- from the start of the token at a place to the end of what lies behind it -/
theorem lies_since {m j : Nat} {s s' : Span} (hk : k < τ.size) (hkm : k ≤ m) (h : τ.Lies m j s s') :
    τ.Lies k j ⟨(τ.left k).span.start, s.stop⟩ ⟨(τ.right k).span.start, s'.stop⟩ := by
  have hside {text : List Char} {s : Span} (h : s.Within text m j) : Span.Within text k j ⟨edge text k, s.stop⟩ := by
    have hle := (edge_mono hkm).trans (h.start.trans h.ordered)
    constructor <;> dsimp only
    · exact le_rfl
    · exact hle
    · exact h.stop
  rw [start_left hk, start_right hk]
  exact ⟨hside h.left, hside h.right⟩

/-- the same beginning of a declarator -/
structure SameHead (τ : Twins) (i j : Nat) (head head' : DeclaratorHead) : Prop where
  lies : τ.Lies i j ⟨head.start, head.stop⟩ ⟨head'.start, head'.stop⟩
  name : τ.SameOption i j head.name head'.name
  isArray : head.isArray = head'.isArray
  byRef : head.byRef = head'.byRef

theorem inStep_declaratorRest (ok : rules.Along τ depth rules') (hk : τ.size ≤ k + depth) {head head' : DeclaratorHead}
    (h : SameHead τ i k head head') (allowDefault : Bool) :
    InStep τ k (declaratorRest rules head allowDefault) (declaratorRest rules' head' allowDefault)
      fun j n n' => k ≤ j ∧ ((τ.left k).kind = .ellipsis → k < j) ∧ τ.Same i j n n' := by
  unfold declaratorRest
  -- the declarator is as long as its ellipsis says, if it has one
  refine .bind (P := fun j e e' => k ≤ j ∧ ((τ.left k).kind = .ellipsis → k < j) ∧ e'.isSome = e.isSome ∧
    τ.Lies i j ⟨head.start, (e.map (·.span.stop)).getD head.stop⟩ ⟨head'.start, (e'.map (·.span.stop)).getD head'.stop⟩)
    (.mono (.eat (by simp)) ?_) ?_
  · rintro j e e' (⟨rfl, rfl, rfl, hkind⟩ | ⟨rfl, rfl, rfl, hkind⟩)
    · have hlt : k < τ.size := Twins.lt_size (by simp [hkind])
      exact ⟨by omega, by omega, rfl, h.lies.onward (.place hlt) le_rfl⟩
    · exact ⟨le_rfl, fun h => absurd h hkind, rfl, h.lies⟩
  rintro j e e' ⟨hkj, hellipsis, hsome, hlies⟩
  extract_lets stop shape rest stop' shape' rest'
  have hshape {m : Nat} {init init' : Option Node} (hinit : τ.SameOption (j + 1) m init init') (isDefault : Bool) :
      (shape init isDefault).unplaced false = (shape' init' isDefault).unplaced false := by
    simp only [shape, shape', Shape.unplaced, h.name.unplaced, h.isArray, h.byRef, hsome, hinit.unplaced]
  have hrest (hasValue : Bool) (hne : hasValue = true → (τ.left j).kind ≠ .endOfFile) :
      InStep τ j (rest hasValue) (rest' hasValue)
        fun j n n' => k ≤ j ∧ ((τ.left k).kind = .ellipsis → k < j) ∧ τ.Same i j n n' := by
    refine .ite Iff.rfl (fun hvalue => .take_bind (hne hvalue) fun _ => ?_) fun _ => ?_
    · extract_lets isDefault isDefault'
      refine .bind (ok.expression (by omega)) ?_
      rintro m value value' ⟨hjm, hvalue⟩
      refine .build (hlies.onward hvalue.lies (Nat.le_succ j)) ?_ fun n n' h => ⟨by omega, by omega, h⟩
      simp only [isDefault, isDefault', τ.kind_right]
      exact hshape (.some hvalue) _
    · exact .build hlies (hshape (m := j) .none _) fun n n' h => ⟨hkj, hellipsis, h⟩
  refine .atText_bind (.ite Iff.rfl (fun hsign => ?_) fun _ => .ite Iff.rfl (fun _ => ?_) fun _ => ?_)
  · rw [pure_bind, pure_bind]
    refine hrest true fun _ heof => ?_
    simp [heof] at hsign
  · refine .at_bind (hrest _ fun hcolon heof => ?_)
    simp [heof] at hcolon
  · rw [pure_bind, pure_bind]
    exact hrest false (by simp)

/-- where the marks before a name end, which start with the given token -/
def marksStop (first : Token) (mark : Option Token) : Nat := (mark.map (·.span.stop)).getD first.span.start

/-- the same last mark before the name of a declarator that starts at a place -/
structure SameMark (τ : Twins) (k m : Nat) (mark mark' : Option Token) : Prop where
  lies : k < τ.size → τ.Lies k m ⟨(τ.left k).span.start, marksStop (τ.left k) mark⟩
    ⟨(τ.right k).span.start, marksStop (τ.right k) mark'⟩
  /-- the marks take up no text, in both texts or in none -/
  empty : marksStop (τ.right k) mark' = (τ.right k).span.start ↔ marksStop (τ.left k) mark = (τ.left k).span.start
  lt : marksStop (τ.left k) mark ≠ (τ.left k).span.start → k < m

theorem sameMark_none : SameMark τ k k none none where
  lies hk := ⟨⟨(start_left hk).ge, le_rfl, (start_left hk).le⟩, ⟨(start_right hk).ge, le_rfl, (start_right hk).le⟩⟩
  empty := ⟨fun _ => rfl, fun _ => rfl⟩
  lt h := absurd rfl h

/-- a mark that is the first one, or that takes up text -/
theorem sameMark_some {m : Nat} (hkm : k ≤ m) (hm : m < τ.size) (h : m = k ∨ (τ.left m).text ≠ []) :
    SameMark τ k (m + 1) (some (τ.left m)) (some (τ.right m)) := by
  have hleft : (τ.left m).span.stop = (τ.left m).span.start + byteLength (τ.left m).text := stop_place hm
  have hright : (τ.right m).span.stop = (τ.right m).span.start + byteLength (τ.right m).text :=
    stop_place (by rwa [τ.size_eq])
  have hk : k < τ.size := Nat.lt_of_le_of_lt hkm hm
  have hle : (τ.left k).span.start ≤ (τ.left m).span.start := by
    rw [start_left hk, start_left hm]
    exact edge_mono hkm
  have hle' : (τ.right k).span.start ≤ (τ.right m).span.start := by
    rw [start_right hk, start_right hm]
    exact edge_mono hkm
  rw [τ.text_right] at hright
  refine ⟨fun _ => lies_since hk hkm (.place hm), ?_, fun _ => by omega⟩
  simp only [marksStop, Option.map_some, Option.getD_some]
  rcases h with rfl | htext
  · omega
  · have := byteLength_pos_of_ne_nil htext
    omega

/-- **A declarator** has a name, marks that take up text or an ellipsis. -/
theorem inStep_declarator (ok : rules.Along τ depth rules') (hk : τ.size ≤ k + depth) (allowDefault : Bool) :
    InStep τ k (declarator rules allowDefault) (declarator rules' allowDefault) (Gives τ k) := by
  unfold declarator
  refine .peek_bind (.bind (P := fun m star star' => k ≤ m ∧ star'.isSome = star.isSome ∧ SameMark τ k m star star')
    (.mono (.eat (by simp)) ?_) ?_)
  · rintro m star star' (⟨rfl, rfl, rfl, hkind⟩ | ⟨rfl, rfl, rfl, -⟩)
    · exact ⟨by omega, rfl, sameMark_some le_rfl (Twins.lt_size (by simp [hkind])) (.inl rfl)⟩
    · exact ⟨le_rfl, rfl, sameMark_none⟩
  rintro m star star' ⟨hkm, hstar, hmark⟩
  refine .bind (P := fun l mark mark' => k ≤ l ∧ mark'.isSome = mark.isSome ∧
    SameMark τ k l (mark.or star) (mark'.or star')) (.mono inStep_eatAmpersand ?_) ?_
  · rintro l mark mark' (⟨rfl, rfl, rfl, hm, htext⟩ | ⟨rfl, rfl, rfl⟩)
    · exact ⟨by omega, rfl, sameMark_some hkm hm (.inr (by simp [htext]))⟩
    · exact ⟨hkm, rfl, hmark⟩
  rintro l ampersand ampersand' ⟨hkl, hampersand, hmark⟩
  extract_lets stop head unnamed stop' head' unnamed'
  refine inStep_atName fun b hname => .ite Iff.rfl (fun hb => .bind inStep_name ?_) fun _ => .at_bind ?_
  · rintro p n n' ⟨hlp, hn⟩
    have hl : l < τ.size := Twins.lt_size (hname hb)
    have hhead : SameHead τ k p (head n.stop (some n)) (head' n'.stop (some n')) :=
      ⟨(hmark.lies (by omega)).onward hn.lies le_rfl, .some (hn.widen hkl le_rfl), hstar.symm, hampersand.symm⟩
    refine .mono (inStep_declaratorRest ok (by omega) hhead allowDefault) ?_
    rintro j n n' ⟨hpj, -, hn⟩
    exact ⟨by omega, hn⟩
  · have hempty : stop' = (τ.right k).span.start ↔ stop = (τ.left k).span.start := hmark.empty
    refine .ite (by rw [decide_eq_decide.2 hempty]) (fun _ => .bind (P := fun _ _ _ => False) .wanted fun _ _ _ h => h.elim)
      fun hmarks => .known fun hl => ?_
    -- something is there: marks that take up text, or an ellipsis
    have hsome : k < l ∨ (τ.left l).kind = .ellipsis := by
      by_cases hstop : stop = (τ.left k).span.start
      · exact .inr (by simpa [hstop] using hmarks)
      · exact .inl (hmark.lt hstop)
    have hlt : k < τ.size := by
      rcases hsome with h | h
      · omega
      · have := Twins.lt_size (τ := τ) (k := l) (by simp [h])
        omega
    have hhead : SameHead τ k l (head stop none) (head' stop' none) :=
      ⟨hmark.lies hlt, .none, hstar.symm, hampersand.symm⟩
    refine .mono (inStep_declaratorRest ok (by omega) hhead allowDefault) ?_
    rintro j n n' ⟨hlj, hellipsis, hn⟩
    exact ⟨by rcases hsome with h | h <;> [omega; exact Nat.lt_of_le_of_lt hkl (hellipsis h)], hn⟩

theorem inStep_statementEnd : InStep τ k statementEnd statementEnd fun j _ _ => k ≤ j := by
  unfold statementEnd
  refine .peekKind_bind ?_
  split
  · next hkind => exact .take_bind (by simp [hkind]) fun _ => .pure (Nat.le_succ k)
  · next hkind => exact .take_bind (by simp [hkind]) fun _ => .pure (Nat.le_succ k)
  · exact .pure le_rfl
  · exact .pure le_rfl
  · exact .wanted

theorem inStep_moreDeclarators (ok : rules.Along τ depth rules') (hk : τ.size ≤ k + depth) (hik : i ≤ k) (comments : Bool)
    {first first' : Node} (h : τ.Same i k first first') :
    InStep τ k (moreDeclarators rules comments first) (moreDeclarators rules' comments first') fun j x x' =>
      k ≤ j ∧ SameEach τ i j (x.1 :: x.2) (x'.1 :: x'.2) := by
  unfold moreDeclarators
  refine .loop (I := fun j x x' => k ≤ j ∧ SameEach τ i j (x.1 :: x.2) (x'.1 :: x'.2)) ⟨le_rfl, .cons h .nil⟩ ?_
  rintro j ⟨last, before⟩ ⟨last', before'⟩ - ⟨hkj, hall⟩
  refine .eat_bind (by simp) (fun _ _ => ?_) fun _ => .pure (.done ⟨hkj, hall⟩)
  extract_lets rest rest'
  have hrest : InStep τ (j + 1) (rest last) (rest' last')
      (Next (fun j x x' => k ≤ j ∧ SameEach τ i j (x.1 :: x.2) (x'.1 :: x'.2))
        (fun j x x' => k ≤ j ∧ SameEach τ i j (x.1 :: x.2) (x'.1 :: x'.2)) j) := by
    refine .bind (inStep_declarator ok (by omega) false) ?_
    rintro m next next' ⟨hjm, hnext⟩
    exact .pure (.again (by omega) ⟨by omega, .cons (hnext.widen (by omega) le_rfl) (hall.widen (by omega))⟩)
  refine .ite Iff.rfl (fun _ => .trailingComment_bind hrest) fun _ => ?_
  rw [pure_bind, pure_bind]
  exact hrest

/-- the newest of some declarators -/
theorem SameEach.head {j : Nat} {n n' : Node} {ns ns' : List Node} (h : SameEach τ i j (n :: ns) (n' :: ns')) :
    τ.Same i j n n' := by
  cases h with
  | cons h _ => exact h

theorem inStep_localDeclaration (ok : rules.Along τ depth rules') (hk : τ.size ≤ k + depth) :
    InStep τ k (localDeclaration rules) (localDeclaration rules') (Gives τ k) := by
  unfold localDeclaration
  refine .peek_bind (.bind inStep_modifiers ?_)
  rintro m ms ms' ⟨hkm, hms⟩
  refine .expect_bind (by simp) fun htype hm => .bind (inStep_typeFrom hm htype) ?_
  rintro l type type' ⟨hml, htypes⟩
  refine .bind (inStep_declarator ok (by omega) false) ?_
  rintro p first first' ⟨hlp, hfirst⟩
  refine .bind (inStep_moreDeclarators ok (by omega) (i := l) (by omega) false hfirst) ?_
  rintro j ⟨last, before⟩ ⟨last', before'⟩ ⟨hpj, hall⟩
  refine .build (lies_since (by omega) (by omega) hall.head.lies) ?_ fun n n' h => ⟨by omega, h⟩
  simp only [Shape.unplaced, Option.map_some, htypes.words, hall.sameAll.reverse.unplaced]
  rw [hms]

theorem inStep_parameter (ok : rules.Along τ depth rules') (hk : τ.size ≤ k + depth) :
    InStep τ k (parameter rules) (parameter rules') (Gives τ k) := by
  unfold parameter
  refine .peek_bind (.bind inStep_modifiers ?_)
  rintro m ms ms' ⟨hkm, hms⟩
  refine .expect_bind (by simp) fun htype hm => .bind (inStep_isTypeUsedAsName hms m) ?_
  rintro l b b' ⟨rfl, rfl⟩
  refine .ite Iff.rfl (fun _ => ?_) fun _ => .bind (inStep_typeFrom hm htype) ?_
  · have hname : τ.Same m (m + 1) (leaf (τ.left m) (.identifier (τ.left m).text))
        (leaf (τ.right m) (.identifier (τ.right m).text)) := by
      rw [τ.text_right]
      exact same_leaf hm
    refine .mono (inStep_expressionFrom ok (by omega) (hname.widen hkm le_rfl)) ?_
    rintro j n n' ⟨hmj, hn⟩
    exact ⟨by omega, hn⟩
  · rintro l type type' ⟨hml, htypes⟩
    refine .bind inStep_atDeclarator ?_
    rintro l b b' ⟨rfl, rfl⟩
    refine .ite Iff.rfl (fun _ => .bind (inStep_declarator ok (by omega) true) ?_) fun _ => ?_
    · rintro j d d' ⟨hlj, hd⟩
      refine .build (lies_since (by omega) (by omega) hd.lies) ?_ fun n n' h => ⟨by omega, h⟩
      simp only [Shape.unplaced, Option.map_some, htypes.words, Twins.SameAll.unplaced (.cons hd .nil)]
      rw [hms]
    · refine .build (lies_since (by omega) hkm htypes.lies) ?_ fun n n' h => ⟨by omega, h⟩
      simp only [Shape.unplaced, Option.map_some, htypes.words, Node.unplacedAll]
      rw [hms]

/-- an argument of a call, which may be a declaration -/
theorem inStep_argument (ok : rules.Along τ depth rules') (hk : τ.size ≤ k + depth) :
    InStep τ k (argument rules) (argument rules') (Gives τ k) := by
  unfold argument
  refine .peekKind_bind ?_
  split
  · exact inStep_parameter ok hk
  · exact inStep_parameter ok hk
  · exact inStep_expression ok hk

/-! ## Blocks and functions -/

theorem inStep_block (ok : rules.Along τ depth rules') (hk : τ.size ≤ k + depth) :
    InStep τ k (block rules none) (block rules' none) (Gives τ k) := by
  unfold block
  refine .expect_bind (by simp) fun _ hstart => .get_bind fun r r' hat => ?_
  rw [hat.left.raw_isComment τ.quiet, hat.right.raw_isComment τ.quiet']
  simp only [Bool.and_false, Bool.false_and, Bool.false_eq_true, if_false, pure_bind]
  refine .bind (inStep_statementList ok (by omega) _ _) fun j ns ns' h => .expect_bind (by simp) fun _ hclose => ?_
  have := h.le
  refine .build ((Twins.Lies.place hstart).onward (.place hclose) (by omega)) ?_ fun n n' h => ⟨by omega, h⟩
  simp only [Shape.unplaced, h.same.unplaced]

/-- the body of a function, which no comment opens -/
theorem inStep_functionBody (ok : rules.Along τ depth rules') (hk : τ.size ≤ k + depth) :
    InStep τ k (functionBody rules) (functionBody rules') (Gives τ k) := by
  unfold functionBody
  refine .at_bind (.ite Iff.rfl (fun _ => .bind (P := fun _ _ _ => False) .wanted fun _ _ _ h => h.elim) fun _ => ?_)
  exact .takePending_bind (inStep_block ok hk)

/-- the same head of a declaration that starts at a place -/
structure SameDeclared (τ : Twins) (i : Nat) (head head' : DeclarationHead) : Prop where
  start : head.start = (τ.left i).span.start
  start' : head'.start = (τ.right i).span.start
  modifiers : SameLexemes head.modifiers head'.modifiers
  typeName : head.typeName.map Lexeme.byWords = head'.typeName.map Lexeme.byWords
  isArray : head.isArray = head'.isArray

theorem inStep_function (ok : rules.Along τ depth rules') (hk : τ.size ≤ k + depth) (scope : Scope)
    {head head' : DeclarationHead} (hhead : SameDeclared τ i head head') {name name' : Node} (hi : i < τ.size)
    (hik : i < k) (hname : τ.Same i k name name') :
    InStep τ k (function rules scope head name) (function rules' scope head' name') (Gives τ i) := by
  unfold function
  refine .expect_bind (by simp) fun _ _ => .bind (inStep_delimited (by simp) fun j hj => ok.argument (by omega)) ?_
  rintro j ⟨params, close⟩ ⟨params', close'⟩ ⟨hlt, hparams, hclose⟩
  obtain ⟨start, ms, type, isArray⟩ := head
  obtain ⟨start', ms', type', isArray'⟩ := head'
  obtain ⟨rfl, rfl, hms, htype, hisArray⟩ := hhead
  dsimp -zeta only at *
  extract_lets shape unnamed shape' unnamed'
  have hshape {body body' : Option Node} (h : Node.unplaced? false body = Node.unplaced? false body') :
      (shape body).unplaced false = (shape' body').unplaced false := by
    simp only [shape, shape', Shape.unplaced, htype, hisArray, hname.unplaced, hparams.unplaced, h]
    rw [hms]
  refine .eat_bind (by simp) (fun _ _ => ?_) fun _ => .ite Iff.rfl (fun _ => ?_) fun _ => ?_
  · refine .build (lies_since hi (by omega) (hclose.widen le_rfl (Nat.le_succ j))) (hshape rfl) fun n n' h => ⟨by omega, h⟩
  · exact .bind (P := fun _ _ _ => False) .refuse fun _ _ _ h => h.elim
  · refine .bind (inStep_functionBody ok (by omega)) ?_
    rintro m body body' ⟨hjm, hbody⟩
    refine .build (lies_since hi (by omega) hbody.lies) (hshape ?_) fun n n' h => ⟨by omega, h⟩
    simp only [Node.unplaced?, hbody.unplaced]

theorem inStep_structDefinition (ok : rules.Along τ depth rules') (hk : τ.size ≤ k + depth) (hi : i < τ.size) {m : Nat}
    (hik : i ≤ k) :
    InStep τ k (structDefinition rules (τ.left i).span.start (τ.left m))
      (structDefinition rules' (τ.right i).span.start (τ.right m)) (Gives τ i) := by
  unfold structDefinition
  refine .expect_bind (by simp) fun _ _ => .bind (inStep_statementList ok (by omega) _ _) fun j ns ns' h => ?_
  have := h.le
  refine .expect_bind (by simp) fun _ hclose => ?_
  have hbuild {l : Nat} (hl : j < l) : InStep τ l
      (build (τ.left i).span.start (τ.left j).span.stop (.structDef (leaf (τ.left m) (.identifier (τ.left m).text)) ns))
      (build (τ.right i).span.start (τ.right j).span.stop
        (.structDef (leaf (τ.right m) (.identifier (τ.right m).text)) ns')) (Gives τ i) := by
    refine .build (lies_since hi (by omega) ((Twins.Lies.place hclose).widen le_rfl hl)) ?_ fun n n' h => ⟨by omega, h⟩
    simp only [Shape.unplaced, leaf, Node.unplaced, τ.text_right, h.same.unplaced]
  exact .eat_bind (by simp) (fun _ _ => hbuild (by omega)) fun _ => hbuild (Nat.lt_succ_self j)

theorem inStep_inherit (ok : rules.Along τ depth rules') (hk : τ.size ≤ k + depth) (hik : i ≤ k) {ms ms' : List Lexeme}
    (hms : SameLexemes ms ms') :
    InStep τ k (inherit rules ms (τ.left i).span.start) (inherit rules' ms' (τ.right i).span.start) (Gives τ i) := by
  unfold inherit
  refine .expect_bind (by simp) fun _ _ => .bind (ok.expression (by omega)) ?_
  rintro j n n' ⟨hkj, hn⟩
  refine .expect_bind (by simp) fun _ hj => ?_
  refine .build (lies_since (by omega) (by omega) (.place hj)) ?_ fun n n' h => ⟨by omega, h⟩
  simp only [Shape.unplaced, hn.unplaced]
  rw [hms]

/-- a function or variables -/
theorem inStep_declared (ok : rules.Along τ depth rules') (hk : τ.size ≤ k + depth) (scope : Scope) (hi : i < τ.size)
    (hik : i ≤ k) {ms ms' : List Lexeme} (hms : SameLexemes ms ms') {type type' : Option Lexeme}
    (htype : type.map Lexeme.byWords = type'.map Lexeme.byWords) :
    InStep τ k (declared rules scope (τ.left i).span.start ms type) (declared rules' scope (τ.right i).span.start ms' type')
      (Gives τ i) := by
  unfold declared
  refine .peek_bind (.bind (P := fun j star star' => k ≤ j ∧ star'.isSome = star.isSome) (.mono (.eat (by simp)) ?_) ?_)
  · rintro j star star' (⟨rfl, rfl, rfl, -⟩ | ⟨rfl, rfl, rfl, -⟩)
    · exact ⟨by omega, rfl⟩
    · exact ⟨le_rfl, rfl⟩
  rintro j star star' ⟨hkj, hstar⟩
  rw [hstar]
  extract_lets isArray
  refine .bind (P := fun m mark mark' => k ≤ m ∧ mark'.isSome = mark.isSome) (.mono inStep_eatAmpersand ?_) ?_
  · rintro m mark mark' (⟨rfl, rfl, rfl, -⟩ | ⟨rfl, rfl, rfl⟩)
    · exact ⟨by omega, rfl⟩
    · exact ⟨hkj, rfl⟩
  rintro m mark mark' ⟨hkm, hmark⟩
  rw [hmark]
  extract_lets byRef
  refine .bind inStep_name ?_
  rintro l name name' ⟨hml, hname⟩
  refine .known fun hl => ?_
  have hhead : SameHead τ k l ⟨(τ.left k).span.start, name.stop, some name, isArray, byRef⟩
      ⟨(τ.right k).span.start, name'.stop, some name', isArray, byRef⟩ :=
    ⟨lies_since (by omega) hkm hname.lies, .some (hname.widen hkm le_rfl), rfl, rfl⟩
  refine .at_bind (.ite Iff.rfl (fun _ => ?_) fun _ => .bind (inStep_declaratorRest ok (by omega) hhead false) ?_)
  · have hdeclared : SameDeclared τ i ⟨(τ.left i).span.start, ms, type, isArray⟩ ⟨(τ.right i).span.start, ms', type', isArray⟩ :=
      ⟨rfl, rfl, hms, htype, rfl⟩
    exact inStep_function ok (by omega) scope hdeclared hi (by omega) (hname.widen (by omega) le_rfl)
  rintro o first first' ⟨hlo, -, hfirst⟩
  refine .bind (inStep_moreDeclarators ok (by omega) (i := k) (by omega) true hfirst) ?_
  rintro p ⟨last, before⟩ ⟨last', before'⟩ ⟨hop, hall⟩
  refine .bind inStep_statementEnd fun q _ _ hpq => ?_
  refine .build (lies_since hi hik (hall.head.lies.widen le_rfl hpq)) ?_ fun n n' h => ⟨by omega, h⟩
  simp only [Shape.unplaced, htype, hall.sameAll.reverse.unplaced]
  rw [hms]

/-- a statement that starts with modifiers or a type -/
theorem inStep_declaration (ok : rules.Along τ depth rules') (hk : τ.size ≤ k + depth) (scope : Scope)
    (hne : (τ.left k).kind ≠ .endOfFile) :
    InStep τ k (declaration rules scope) (declaration rules' scope) (Gives τ k) := by
  have hlt : k < τ.size := Twins.lt_size hne
  unfold declaration
  refine .peek_bind (.bind inStep_modifiers ?_)
  rintro m ms ms' ⟨hkm, hms⟩
  refine .peekKind_bind ?_
  split
  · exact inStep_inherit ok (by omega) hkm hms
  · next htype =>
    refine .take_bind (by simp [htype]) fun _ => .bind (inStep_isTypeUsedAsName hms m) ?_
    have hm : m < τ.size := Twins.lt_size (by simp [htype])
    rintro l b b' ⟨rfl, rfl⟩
    rw [isStructWord_right]
    refine .ite Iff.rfl (fun _ => ?_) fun _ => .ite Iff.rfl (fun _ => .expect_bind (by simp) fun hname hlt => ?_) fun _ => ?_
    · have hname : τ.Same m (m + 1) (leaf (τ.left m) (.identifier (τ.left m).text))
          (leaf (τ.right m) (.identifier (τ.right m).text)) := by
        rw [τ.text_right]
        exact same_leaf hm
      refine .bind (inStep_expressionFrom ok (by omega) (hname.widen hkm le_rfl)) ?_
      rintro j n n' ⟨hmj, hn⟩
      exact .bind inStep_statementEnd fun p _ _ hjp => .pure ⟨by omega, hn.widen le_rfl hjp⟩
    · refine .at_bind (.ite Iff.rfl (fun _ => ?_) fun _ => .bind (inStep_lexemeBetween hlt htype hname) ?_)
      · cases ms with
        | nil =>
          cases ms' with
          | nil => exact inStep_structDefinition ok (by omega) (by omega) (by omega)
          | cons modifier' ms' => simp [SameLexemes] at hms
        | cons modifier ms =>
          cases ms' with
          | nil => simp [SameLexemes] at hms
          | cons modifier' ms' => exact .refuse
      · rintro l l' type' ⟨rfl, htypes⟩
        exact inStep_declared ok (by omega) scope (by omega) (by omega) hms (by simp only [Option.map_some, htypes.words])
    · refine inStep_declared ok (by omega) scope (by omega) (by omega) hms ?_
      simp only [Option.map_some, (sameType_word hm).words]
  · refine .ite (by rw [hms.isEmpty]) (fun _ => .wanted) fun _ => ?_
    exact inStep_declared ok (by omega) scope hlt hkm hms rfl

end Grammar

end LpcStyle
