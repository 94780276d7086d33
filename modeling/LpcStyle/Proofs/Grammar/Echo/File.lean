import Mathlib.Tactic
import LpcStyle.Proofs.Grammar.Echo.Statement
import LpcStyle.Proofs.Grammar.InStep.Parse
import LpcStyle.Proofs.Grammar.Spends.Expression
import LpcStyle.Proofs.Grammar.Walks.Parse

/-!
Files of the operator language. Such a file is read to sentences: statements that are terms, each with the blank line
before it, if one is kept. A second text that says the tokens of every sentence once more, with a semicolon behind them
and a blank line before them where the sentence has one, is read to the same statements (`parse_relaid`), whatever else
stands between the statements of the first text. The two halves, what is read of the first text and how the second is
read, meet at `Sentence.ReadFrom`.
-/

namespace LpcStyle

open Text Grammar LpcStyle.Parser

variable {text text' : List Char} {k : Nat}

/-! ## Sentences -/

/-- the node is the term, written with tokens of the text -/
def WritesIn (text : List Char) (n : Node) (e : Term) : Prop :=
  ∃ i j, j ≤ (row text).length ∧ Writes (place text) i j n e

theorem Writes.writesIn {start size : Nat} {n : Node} {e : Term} (h : Writes (fun k => place text (start + k)) 0 size n e)
    (hlast : (place text (start + (size - 1))).kind.isTerm = true) : WritesIn text n e := by
  refine ⟨start + 0, start + size, ?_, h.shift⟩
  have hlt := h.lt
  have := lt_length_of_place (Echo.ne_endOfFile_of_isTerm hlast)
  omega

theorem WritesIn.isBlankLine {n : Node} {e : Term} (h : WritesIn text n e) : n.shape.isBlankLine = false := by
  obtain ⟨i, j, -, h⟩ := h
  exact h.isBlankLine

/-- a statement of a file that is a term, the places of its tokens, and the blank line before it -/
structure Sentence where
  blank : Option Token
  node : Node
  term : Term
  start : Nat
  size : Nat

/-- the blank line as a node -/
def blankNode (blank : Option Token) : List Node := (blank.map (leaf · .blankLine)).toList

namespace Sentence

def nodes (x : Sentence) : List Node := blankNode x.blank ++ [x.node]

/-- the text has the sentence, and it is read there -/
structure ReadFrom (text : List Char) (x : Sentence) : Prop where
  terms : ∀ k < x.size, (place text (x.start + k)).kind.isTerm = true
  stop : (place text (x.start + x.size)).kind.isStop = true
  writes : Writes (fun k => place text (x.start + k)) 0 x.size x.node x.term
  read : ∃ depth r s, r.At text x.start ∧ ((Rules.upTo depth).statement .file).run r = .ok (x.node, s)

variable {x : Sentence}

theorem ReadFrom.writesIn (h : x.ReadFrom text) : WritesIn text x.node x.term := by
  have hlt := h.writes.lt
  exact h.writes.writesIn (h.terms (x.size - 1) (by omega))

end Sentence

/-! ## The first text -/

/-- only tokens of the operator language -/
def InOperators (text : List Char) : Prop := ∀ t ∈ row text, t.kind.isTerm = true ∨ t.kind.isStop = true

theorem InOperators.at_place (h : InOperators text) (k : Nat) :
    (place text k).kind.isTerm = true ∨ (place text k).kind.isStop = true := by
  by_cases hk : k < (row text).length
  · exact h _ (List.mem_of_getElem? (place_of_lt hk))
  · have hend : place text k = (Stream.ofText text).eof := by simp [place, List.getD, Nat.le_of_not_lt hk]
    exact .inr (by rw [hend, Stream.eof_ofText]; rfl)

/-- **A statement of the operator language** is a sentence. -/
theorem InOperators.readFrom (hquiet : Quiet text) (h : InOperators text) {depth : Nat} {r s : Reading} {n : Node}
    (hat : r.At text k) (hrun : ((Rules.upTo depth).statement .file).run r = .ok (n, s)) (blank : Option Token) :
    ∃ e size, Sentence.ReadFrom text ⟨blank, n, e, k, size⟩ ∧ s.Behind text (k + size) := by
  cases depth with
  | zero => cases hrun
  | succ depth =>
    -- up to the next token that ends a statement
    have hstops : ∃ size, (place text (k + size)).kind.isStop = true := by
      refine ⟨(row text).length, ?_⟩
      rcases h.at_place (k + (row text).length) with hterm | hstop
      · have := lt_length_of_place (Echo.ne_endOfFile_of_isTerm hterm)
        omega
      · exact hstop
    have hterms (m : Nat) (hm : m < Nat.find hstops) : (place text (k + m)).kind.isTerm = true :=
      (h.at_place (k + m)).resolve_right (Nat.find_min hstops hm)
    let τ : Echo := ⟨text, text, hquiet, hquiet, k, k, Nat.find hstops, hterms, Nat.find_spec hstops, fun _ _ => rfl,
      Nat.find_spec hstops⟩
    have hself := echoes_statement (Rules.echoed_upTo τ depth depth) (show τ.At 0 r r from ⟨Nat.zero_le _, hat, hat⟩)
    change Echoes (Ends τ) (((Rules.upTo (depth + 1)).statement .file).run r) (((Rules.upTo (depth + 1)).statement .file).run r)
      at hself
    rw [hrun] at hself
    cases hself with
    | ok hends =>
      obtain ⟨⟨e, hn, -⟩, hs, -⟩ := hends
      exact ⟨e, Nat.find hstops, ⟨hterms, Nat.find_spec hstops, hn, depth + 1, r, s, hat, hrun⟩, hs⟩
    | broken hbroken =>
      rcases hbroken with hbroken | ⟨_, _, hbroken⟩ <;> cases hbroken

theorem Reading.at_ofText (text : List Char) : (Reading.ofText text).At text 0 :=
  ⟨rfl, rfl, rfl, by simp [Reading.ofText], by simp [Reading.ofText], rfl, Nat.zero_le _⟩

/-- what a list of statements is read to so far, newest first: sentences, and a blank line that none follows yet -/
inductive Collected (text : List Char) : List Node → Prop where
  | mk (G : List Sentence) (later : Option Token) (hread : ∀ x ∈ G, x.ReadFrom text) (hfirst : ∀ x ∈ G.head?, x.blank = none)
      (hlater : G = [] → later = none) :
      Collected text (blankNode later ++ (G.flatMap Sentence.nodes).reverse)

namespace Collected

/-- the newest node of a list of sentences is a statement -/
theorem newest (G : List Sentence) (hread : ∀ x ∈ G, x.ReadFrom text) :
    G = [] ∨ ∃ n ns, (G.flatMap Sentence.nodes).reverse = n :: ns ∧ n.shape.isBlankLine = false := by
  rcases List.eq_nil_or_concat G with rfl | ⟨front, x, rfl⟩
  · exact .inl rfl
  · refine .inr ⟨x.node, (front.flatMap Sentence.nodes ++ blankNode x.blank).reverse, by simp [Sentence.nodes], ?_⟩
    exact (hread x (by simp)).writes.isBlankLine

theorem addBlank {items : List Node} (h : Collected text items) (t : Token) : Collected text (Grammar.addBlank t items) := by
  cases h with
  | mk G later hread hfirst hlater =>
    cases later with
    | some b => exact .mk G (some b) hread hfirst hlater
    | none =>
      rcases newest G hread with rfl | ⟨n, ns, hnewest, hn⟩
      · exact .mk [] none hread hfirst hlater
      · change Collected text (Grammar.addBlank t (G.flatMap Sentence.nodes).reverse)
        rw [hnewest, Grammar.addBlank, if_neg (by simp [hn]), ← hnewest]
        refine .mk G (some t) hread hfirst ?_
        rintro rfl
        cases hnewest

theorem statement {items : List Node} (h : Collected text items) {n : Node}
    (hn : ∀ blank, ∃ e start size, Sentence.ReadFrom text ⟨blank, n, e, start, size⟩) : Collected text (n :: items) := by
  cases h with
  | mk G later hread hfirst hlater =>
    obtain ⟨e, start, size, hx⟩ := hn later
    let x : Sentence := ⟨later, n, e, start, size⟩
    have hitems : n :: (blankNode later ++ (G.flatMap Sentence.nodes).reverse) =
        blankNode none ++ ((G ++ [x]).flatMap Sentence.nodes).reverse := by
      cases later <;> simp [Sentence.nodes, blankNode, x]
    rw [hitems]
    refine .mk _ none ?_ ?_ fun _ => rfl
    · intro x hmem
      rcases List.mem_append.1 hmem with hmem | hmem
      · exact hread x hmem
      · rw [List.mem_singleton.1 hmem]
        exact hx
    · cases G with
      | nil => simpa using hlater rfl
      | cons y G => simpa using hfirst

end Collected

/-- **A file of the operator language is read to sentences**, and the first of them has no blank line before it. -/
theorem InOperators.sentences (hquiet : Quiet text) (h : InOperators text) {d : Document} (hparse : parse text = .ok d) :
    ∃ G : List Sentence, d.roots = G.flatMap Sentence.nodes ∧ (∀ x ∈ G, x.ReadFrom text) ∧
      ∀ x ∈ G.head?, x.blank = none := by
  have hround (items : List Node) (r : Reading) (hI : Collected text items ∧ ∃ k, r.At text k) (y : List Node ⊕ List Node)
      (v : Reading) (hrun : (statementRound (Rules.upTo ((Stream.ofText text).ahead.length + 1)) .file [] items).run r =
        .ok (y, v)) : y.elim (fun items => Collected text items ∧ ∃ k, v.At text k) (Collected text) := by
    obtain ⟨hitems, k, hat⟩ := hI
    have hraw (hblank : r.raw.kind ≠ .blankLines) : r.held = none ∧ r.raw = place text k :=
      (hat.raw hquiet).resolve_left hblank
    rw [statementRound, run_raw_bind] at hrun
    split at hrun
    · next hkind => simpa [hkind, Kind.isComment] using hat.raw_isComment hquiet
    · next hkind => simpa [hkind, Kind.isComment] using hat.raw_isComment hquiet
    · next hkind =>
      cases hrun
      exact ⟨hitems.addBlank _, k, (hat.dropRaw_blank hkind).1⟩
    · next hkind =>
      obtain ⟨t, s, htake, hrun⟩ := of_run_bind hrun
      cases hrun
      obtain ⟨rfl, rfl⟩ := eq_of_take htake
      obtain ⟨-, hplace⟩ := hraw (by simp [hkind])
      refine ⟨hitems, k + 1, (hat.settle hquiet).dropRaw (lt_length_of_place ?_) rfl hat.raw_settle⟩
      rw [← hplace, hkind]
      simp
    · cases hrun
      exact hitems
    · rw [List.contains_nil, if_neg Bool.false_ne_true] at hrun
      obtain ⟨n, s, hstatement, hrun⟩ := of_run_bind hrun
      obtain ⟨items', s', hadd, hrun⟩ := of_run_bind hrun
      obtain ⟨e, size, -, hbehind⟩ := h.readFrom hquiet hat hstatement none
      obtain ⟨m, hs⟩ := hbehind.at
      rw [run_addItem hs.pending] at hadd
      cases hadd
      cases hrun
      refine ⟨hitems.statement fun blank => ?_, m, hs⟩
      obtain ⟨e, size, hx, -⟩ := h.readFrom hquiet hat hstatement blank
      exact ⟨e, k, size, hx⟩
  obtain ⟨s, hrun⟩ := run_of_parse_ok hparse
  obtain ⟨roots, u, hlist, hrest⟩ := of_run_bind hrun
  have hroots : roots = d.roots := by
    rw [run_raw_bind, raw_of_statementList hlist] at hrest
    cases hfault : u.raw.fault with
    | some fault =>
      rw [hfault] at hrest
      cases hrest
    | none =>
      rw [hfault] at hrest
      cases hrest
      rfl
  rw [statementList_eq] at hlist
  obtain ⟨items, v, hloop, hreverse⟩ := of_run_bind hlist
  cases hreverse
  have hitems : Collected text items := of_run_loop hloop
    ⟨.mk [] none (by simp) (by simp) fun _ => rfl, 0, Reading.at_ofText text⟩ hround
  cases hitems with
  | mk G later hread hfirst hlater =>
    refine ⟨G, ?_, hread, hfirst⟩
    -- a blank line behind the last statement is dropped
    have hdrop : (blankNode later ++ (G.flatMap Sentence.nodes).reverse).dropWhile (·.shape.isBlankLine) =
        (G.flatMap Sentence.nodes).reverse := by
      rcases Collected.newest G hread with rfl | ⟨n, ns, hnewest, hn⟩
      · rw [hlater rfl]
        rfl
      · have hstay : (n :: ns).dropWhile (·.shape.isBlankLine) = n :: ns := List.dropWhile_cons_of_neg (by simp [hn])
        rw [hnewest]
        cases later <;> exact hstay
    rw [← hroots, hdrop, List.reverse_reverse]

/-! ## The second text -/

/-- the tokens are those of the sentences once more: a blank line where a sentence has one, and a semicolon behind it -/
inductive Relaid (text : List Char) : List Sentence → List Token → Prop
  | nil : Relaid text [] []
  | cons {x : Sentence} {G : List Sentence} {bs us ts : List Token} {semicolon : Token}
      (hblank : bs.map (·.kind) = if x.blank.isSome then [.blankLines] else [])
      (hspells : us.map Token.spelling = sayings (fun k => place text (x.start + k)) 0 x.size)
      (hsemicolon : semicolon.kind = .semicolon) (h : Relaid text G ts) : Relaid text (x :: G) (bs ++ us ++ semicolon :: ts)

namespace Relaid

/-- the tokens of a sentence stand at the places of the second text where they are said again -/
theorem places {x : Sentence} {us vs : List Token} {semicolon : Token} {k' : Nat}
    (hrow : (row text').drop k' = us ++ semicolon :: vs)
    (hspells : us.map Token.spelling = sayings (fun k => place text (x.start + k)) 0 x.size) :
    (∀ k < x.size, (place text' (k' + k)).spelling = (place text (x.start + k)).spelling) ∧
      place text' (k' + x.size) = semicolon := by
  have hplace (m : Nat) : place text' (k' + m) = (us ++ semicolon :: vs).getD m (Stream.ofText text').eof := by
    rw [← hrow]
    simp [place, List.getD]
  have hlength : us.length = x.size := by simpa [sayings] using congrArg List.length hspells
  refine ⟨fun k hk => ?_, ?_⟩
  · have hget := congrArg (·[k]?) hspells
    have hlt : k < us.length := by omega
    rw [hplace]
    simpa [sayings, hk, hlt, List.getD, List.getElem?_append_left] using hget
  · rw [hplace, ← hlength]
    simp [List.getD]

end Relaid

/-- nodes of two texts that are both blank lines, or write the same term -/
inductive Again (text text' : List Char) : Node → Node → Prop
  | blank {t t' : Token} : Again text text' (leaf t .blankLine) (leaf t' .blankLine)
  | term {n n' : Node} {e : Term} (h : WritesIn text n e) (h' : WritesIn text' n' e) : Again text text' n n'

/-- the rest of a row of tokens is known from the tokens in it that are significant -/
theorem eq_of_suffix {ts us vs : List Token} (h : ts <:+ vs) (h' : us <:+ vs)
    (hlength : (significant ts).length = (significant us).length)
    (hhead : ∀ t ∈ ts.head?, t.kind.isTrivia = false) (hhead' : ∀ t ∈ us.head?, t.kind.isTrivia = false) : ts = us := by
  -- what the longer one has before the other would be all blank, but it starts with a significant token
  have hwlog {ts us : List Token} (h : ts <:+ us) (hlength : (significant ts).length = (significant us).length)
      (hhead : ∀ t ∈ us.head?, t.kind.isTrivia = false) : ts = us := by
    obtain ⟨front, rfl⟩ := h
    cases front with
    | nil => rfl
    | cons t front =>
      have ht := hhead t (by simp)
      simp [significant, ht] at hlength
      omega
  rcases List.suffix_or_suffix_of_suffix h h' with hsuffix | hsuffix
  · exact hwlog hsuffix hlength hhead'
  · exact (hwlog hsuffix hlength.symm hhead).symm

/-- **A sentence is read again** where its tokens are said again. -/
theorem Sentence.ReadFrom.read_again {x : Sentence} (h : x.ReadFrom text) (hquiet : Quiet text) (hquiet' : Quiet text')
    {k' : Nat} (hsaid : ∀ k < x.size, (place text' (k' + k)).spelling = (place text (x.start + k)).spelling)
    (hstop : (place text' (k' + x.size)).kind.isStop = true) (depth : Nat) {r' : Reading} (hat : r'.At text' k') :
    BreaksOff (((Rules.upTo depth).statement .file).run r') ∨
      ∃ n' s' e, ((Rules.upTo depth).statement .file).run r' = .ok (n', s') ∧ WritesIn text x.node e ∧ WritesIn text' n' e ∧
        s'.Behind text' (k' + x.size) := by
  obtain ⟨depth₀, r, s, hr, hrun⟩ := h.read
  cases depth₀ with
  | zero => cases hrun
  | succ depth₀ =>
    cases depth with
    | zero => exact .inl (.inl rfl)
    | succ depth =>
      let τ : Echo := ⟨text, text', hquiet, hquiet', x.start, k', x.size, h.terms, h.stop, hsaid, hstop⟩
      have hecho := echoes_statement (Rules.echoed_upTo τ depth₀ depth) (show τ.At 0 r r' from ⟨Nat.zero_le _, hr, hat⟩)
      change Echoes (Ends τ) (((Rules.upTo (depth₀ + 1)).statement .file).run r)
        (((Rules.upTo (depth + 1)).statement .file).run r') at hecho
      rw [hrun] at hecho
      generalize ((Rules.upTo (depth + 1)).statement .file).run r' = e' at hecho
      cases hecho with
      | ok hends =>
        obtain ⟨⟨e, hn, hn'⟩, -, hs'⟩ := hends
        have hlast : x.size - 1 < x.size := Nat.sub_lt hn.lt Nat.one_pos
        have hterm := h.terms (x.size - 1) hlast
        refine .inr ⟨_, _, e, rfl, hn.writesIn hterm, hn'.writesIn ?_, hs'⟩
        exact (congrArg Kind.isTerm (τ.kind_right hlast)).trans hterm
      | broken hbroken => exact .inl hbroken

section

variable {rules : Rules} {items : List Node} {r : Reading}

theorem run_statementRound_blank (h : r.raw.kind = .blankLines) :
    (statementRound rules .file [] items).run r = .ok (.inl (addBlank r.raw items), r.dropRaw) := by
  rw [statementRound, run_raw_bind, h]
  rfl

theorem run_statementRound_endOfFile (h : r.raw.kind = .endOfFile) :
    (statementRound rules .file [] items).run r = .ok (.inr items, r) := by
  rw [statementRound, run_raw_bind, h]
  rfl

theorem run_statementRound_term (h : r.raw.kind.isTerm = true) : (statementRound rules .file [] items).run r =
    (do let n ← rules.statement .file; return .inl (← addItem items n) : Parser (List Node ⊕ List Node)).run r := by
  rw [statementRound, run_raw_bind]
  cases hkind : r.raw.kind <;> first | rfl | simp [hkind, Kind.isTerm] at h

end

/-- what a list of statements is read to once more, newest first -/
structure Reread (text text' : List Char) (G : List Sentence) (items items' : List Node) : Prop where
  again : ∃ more, items' = more.reverse ++ items ∧ List.Forall₂ (Again text text') (G.flatMap Sentence.nodes) more
  newest : ∀ n ∈ items'.head?, n.shape.isBlankLine = false

/-- reading stands before tokens with no blank line held back -/
structure Reading.Before (text : List Char) (ts : List Token) (r : Reading) : Prop where
  at_place : ∃ k, r.At text k
  held : r.held = none
  ahead : r.ahead = ts

namespace Reading.Before

variable {r : Reading} {t : Token} {ts : List Token}

theorem raw (h : r.Before text (t :: ts)) : r.raw = t := by
  simp [Reading.raw, Reading.front, h.held, h.ahead]

theorem dropRaw_blank (h : r.Before text (t :: ts)) (hblank : t.kind = .blankLines) : r.dropRaw.Before text ts := by
  obtain ⟨k, hat⟩ := h.at_place
  refine ⟨⟨k, (hat.dropRaw_blank (by rw [h.raw, hblank])).1⟩, ?_, ?_⟩
  · simp [Reading.dropRaw, h.held]
  · simp [Reading.dropRaw, h.held, h.ahead]

theorem raw_nil (h : r.Before text []) : r.raw = (Stream.ofText text).eof := by
  obtain ⟨k, hat⟩ := h.at_place
  simp [Reading.raw, Reading.front, h.held, h.ahead, hat.eof]

end Reading.Before

/-- tokens that say a sentence again stand in expressions -/
theorem Sentence.ReadFrom.isTerm_of_spells {x : Sentence} (h : x.ReadFrom text) {us : List Token}
    (hspells : us.map Token.spelling = sayings (fun k => place text (x.start + k)) 0 x.size) :
    ∀ u ∈ us, u.kind.isTerm = true := by
  intro u hu
  have hmem : u.spelling ∈ sayings (fun k => place text (x.start + k)) 0 x.size := hspells ▸ List.mem_map_of_mem hu
  obtain ⟨m, hm, hspelling⟩ := List.mem_map.1 hmem
  have hkind : (place text (x.start + m)).kind = u.kind := congrArg Prod.fst hspelling
  rw [← hkind]
  exact h.terms m (by simpa using hm)

/-- sentences said again have tokens of the operator language only -/
theorem Relaid.kinds {G : List Sentence} {ts : List Token} (h : Relaid text G ts) (hread : ∀ x ∈ G, x.ReadFrom text) :
    ∀ t ∈ ts, t.kind.isTerm = true ∨ t.kind = .semicolon ∨ t.kind = .blankLines := by
  induction h with
  | nil => simp
  | @cons x G bs us ts semicolon hblank hspells hsemicolon _ ih =>
    obtain ⟨hx, hG⟩ := List.forall_mem_cons.1 hread
    simp only [List.forall_mem_append, List.forall_mem_cons]
    refine ⟨⟨fun b hb => ?_, fun u hu => .inl (hx.isTerm_of_spells hspells u hu)⟩, .inr (.inl hsemicolon), ih hG⟩
    have hkind : b.kind ∈ bs.map (·.kind) := List.mem_map_of_mem hb
    rw [hblank] at hkind
    split_ifs at hkind
    · exact .inr (.inr (List.mem_singleton.1 hkind))
    · cases hkind

/-- **One sentence once more**: its statement is read again, up to the tokens of the next one. -/
theorem Sentence.ReadFrom.round_again {x : Sentence} (h : x.ReadFrom text) (hquiet : Quiet text) (hquiet' : Quiet text')
    {us ts : List Token} {semicolon : Token}
    (hspells : us.map Token.spelling = sayings (fun k => place text (x.start + k)) 0 x.size)
    (hsemicolon : semicolon.kind = .semicolon) {r : Reading} (hr : r.Before text' (us ++ semicolon :: ts)) (depth : Nat)
    (items : List Node) : BreaksOff ((statementRound (Rules.upTo depth) .file [] items).run r) ∨
      ∃ n s e, (statementRound (Rules.upTo depth) .file [] items).run r = .ok (.inl (n :: items), s) ∧
        WritesIn text x.node e ∧ WritesIn text' n e ∧ s.Before text' ts := by
  obtain ⟨k, hat⟩ := hr.at_place
  -- the tokens up to the semicolon
  have hterm := h.isTerm_of_spells hspells
  have htrivia {t : Token} (ht : t.kind.isTerm = true ∨ t.kind = .semicolon) : t.kind.isTrivia = false := by
    rcases ht with hterm | hkind
    · revert hterm
      cases t.kind <;> decide
    · rw [hkind]
      rfl
  have hrow : (row text').drop k = us ++ semicolon :: significant ts := by
    have hus : significant us = us := List.filter_eq_self.2 fun u hu => by simp [htrivia (.inl (hterm u hu))]
    rw [← hat.row, hr.ahead, significant, List.filter_append, ← significant, hus,
      List.filter_cons_of_pos (by simp [htrivia (.inr hsemicolon)]), ← significant]
  obtain ⟨hsaid, hplace⟩ := Relaid.places hrow hspells
  have hraw : r.raw.kind.isTerm = true := by
    cases us with
    | nil =>
      have hlt := h.writes.lt
      have hlength : 0 = x.size := by simpa [sayings] using congrArg List.length hspells
      omega
    | cons u us =>
      rw [hr.raw]
      exact hterm u (by simp)
  have hstop : (place text' (k + x.size)).kind.isStop = true := by rw [hplace, hsemicolon]; rfl
  rw [run_statementRound_term hraw]
  rcases h.read_again hquiet hquiet' hsaid hstop depth hat with hbroken | ⟨n, s, e, hrun, hn, hn', hs⟩
  · exact .inl hbroken.bind
  refine .inr ⟨n, s, e, ?_, hn, hn', ?_⟩
  · obtain ⟨m, hm⟩ := hs.at
    rw [run_bind_of_run hrun, run_bind_of_run (run_addItem hm.pending)]
    rfl
  -- the semicolon is the one behind the tokens, as no other has as many behind it
  obtain ⟨m, hm⟩ := hs.at
  cases hs with
  | endOfFile _ hkind =>
    rw [hplace, hsemicolon] at hkind
    cases hkind
  | @semicolon t ht hheld hsemi _ =>
    refine ⟨⟨m, hm⟩, by simp [Reading.dropRaw, hheld], ?_⟩
    have hlength : us.length = x.size := by simpa [sayings] using congrArg List.length hspells
    have hsignificant : significant t.ahead = significant (semicolon :: ts) := by
      rw [ht.row, ← List.drop_drop, hrow, ← hlength, List.drop_left, significant, significant,
        List.filter_cons_of_pos (by simp [htrivia (.inr hsemicolon)])]
    have hsuffix : semicolon :: ts <:+ (Stream.ofText text').ahead := by
      have hahead := hat.ahead
      rw [hr.ahead] at hahead
      exact (List.suffix_append us _).trans hahead
    have hahead : t.ahead = semicolon :: ts := by
      refine eq_of_suffix ht.ahead hsuffix (congrArg List.length hsignificant) ?_ ?_
      · intro u hu
        have hfront : t.raw = u := by
          rw [Reading.raw, hheld, Option.getD_none, Reading.front, List.headD_eq_head?_getD, hu, Option.getD_some]
        rw [← hfront, hsemi]
        exact place_isTrivia _
      · intro u hu
        cases hu
        exact htrivia (.inr hsemicolon)
    simp [Reading.dropRaw, hheld, hahead]

/-- **All sentences once more**, from the round on that reads the first of them. -/
theorem Relaid.rounds_again (hquiet : Quiet text) (hquiet' : Quiet text') {G : List Sentence} {ts : List Token}
    (h : Relaid text G ts) (hread : ∀ x ∈ G, x.ReadFrom text) (depth fuel : Nat) (items : List Node) {r : Reading}
    (hr : r.Before text' ts) (hnewest : ∀ n ∈ items.head?, n.shape.isBlankLine = false)
    (hfirst : items = [] → ∀ x ∈ G.head?, x.blank = none) :
    BreaksOff ((iterate (statementRound (Rules.upTo depth) .file []) fuel items).run r) ∨
      ∃ items' s, (iterate (statementRound (Rules.upTo depth) .file []) fuel items).run r = .ok (items', s) ∧
        Reread text text' G items items' ∧ s.Before text' [] := by
  induction h generalizing fuel items r with
  | nil =>
    cases fuel with
    | zero => exact .inl (.inl rfl)
    | succ fuel =>
      refine .inr ⟨items, r, ?_, ⟨⟨[], rfl, .nil⟩, hnewest⟩, hr⟩
      rw [iterate, StateT.run_bind, run_statementRound_endOfFile (by rw [hr.raw_nil, Stream.eof_ofText])]
      rfl
  | @cons x G bs us ts semicolon hblank hspells hsemicolon h ih =>
    have hx := hread x (by simp)
    -- from the state behind the blank line
    have hrest (fuel : Nat) (items : List Node) {r : Reading} (hr : r.Before text' (us ++ semicolon :: ts)) :
        BreaksOff ((iterate (statementRound (Rules.upTo depth) .file []) fuel items).run r) ∨
          ∃ n e items' s, (iterate (statementRound (Rules.upTo depth) .file []) fuel items).run r = .ok (items', s) ∧
            WritesIn text x.node e ∧ WritesIn text' n e ∧ Reread text text' G (n :: items) items' ∧ s.Before text' [] := by
      cases fuel with
      | zero => exact .inl (.inl rfl)
      | succ fuel =>
        rcases hx.round_again hquiet hquiet' hspells hsemicolon hr depth items with
          hbroken | ⟨n, s, e, hrun, hn, hn', hs⟩
        · exact .inl hbroken.bind
        rw [run_iterate_again hrun]
        rcases ih (fun y hy => hread y (by simp [hy])) fuel (n :: items) hs (by simpa using hn'.isBlankLine) (by simp) with
          hbroken | ⟨items', s', hrun', hreread, hs'⟩
        · exact .inl hbroken
        · exact .inr ⟨n, e, items', s', hrun', hn, hn', hreread, hs'⟩
    cases hkeeps : x.blank with
    | none =>
      rw [hkeeps] at hblank
      obtain rfl : bs = [] := by simpa using hblank
      rcases hrest fuel items hr with
        hbroken | ⟨n, e, items', s, hrun, hn, hn', ⟨⟨more, hmore, hagain⟩, hnew⟩, hs⟩
      · exact .inl hbroken
      · refine .inr ⟨items', s, hrun, ⟨⟨n :: more, by simp [hmore], ?_⟩, hnew⟩, hs⟩
        simpa [Sentence.nodes, blankNode, hkeeps] using ⟨.term hn hn', hagain⟩
    | some b =>
      rw [hkeeps] at hblank
      obtain ⟨t, rfl, ht⟩ : ∃ t, bs = [t] ∧ t.kind = .blankLines := by simpa [List.map_eq_singleton_iff] using hblank
      cases fuel with
      | zero => exact .inl (.inl rfl)
      | succ fuel =>
        have hraw : r.raw = t := hr.raw
        have hadd : addBlank t items = leaf t .blankLine :: items := by
          cases items with
          | nil => simp [hkeeps] at hfirst
          | cons n items =>
            have hn := hnewest n (by simp)
            rw [addBlank, if_neg (by simp [hn])]
        have hround : (statementRound (Rules.upTo depth) .file [] items).run r =
            .ok (.inl (leaf t .blankLine :: items), r.dropRaw) := by
          rw [run_statementRound_blank (by rw [hraw, ht]), hraw, hadd]
        rw [run_iterate_again hround]
        rcases hrest fuel (leaf t .blankLine :: items) (hr.dropRaw_blank ht) with
          hbroken | ⟨n, e, items', s, hrun, hn, hn', ⟨⟨more, hmore, hagain⟩, hnew⟩, hs⟩
        · exact .inl hbroken
        · refine .inr ⟨items', s, hrun, ⟨⟨leaf t .blankLine :: n :: more, by simp [hmore], ?_⟩, hnew⟩, hs⟩
          simpa [Sentence.nodes, blankNode, hkeeps] using ⟨.blank, .term hn hn', hagain⟩

/-- reading a text without comments gives a result or refuses it -/
theorem not_breaksOff_of_quiet (hquiet : Quiet text) : ¬BreaksOff ((sourceFile (.ofText text)).run (.ofText text)) := by
  rcases run_of_quiet hquiet with ⟨e, hrun⟩ | ⟨roots, s, hrun⟩
  all_goals
    rw [hrun]
    rintro (hbroken | ⟨start, stop, hbroken⟩) <;> cases hbroken

/-- **Sentences that are said again are read again.** If a file of the operator language is read to a document, then the
document is a list of sentences, and every text without comments that says them again is read to the same statements. -/
theorem InOperators.parse_relaid (hquiet : Quiet text) (h : InOperators text) {d : Document} (hparse : parse text = .ok d) :
    ∃ G : List Sentence, d.roots = G.flatMap Sentence.nodes ∧ (∀ x ∈ G, x.ReadFrom text) ∧
      (∀ x ∈ G.head?, x.blank = none) ∧ ∀ text', Quiet text' → Relaid text G (Stream.ofText text').ahead → (Stream.ofText text').eof.fault = none →
        ∃ d', parse text' = .ok d' ∧ List.Forall₂ (Again text text') d.roots d'.roots := by
  obtain ⟨G, hroots, hread, hfirst⟩ := h.sentences hquiet hparse
  refine ⟨G, hroots, hread, hfirst, ?_⟩
  intro text' hquiet' hrelaid hfault
  have hstart : (Reading.ofText text').Before text' (Stream.ofText text').ahead := ⟨⟨0, Reading.at_ofText text'⟩, rfl, rfl⟩
  have hwhole : BreaksOff ((sourceFile (.ofText text')).run (.ofText text')) ∨ ∃ roots s,
      (sourceFile (.ofText text')).run (.ofText text') = .ok (roots, s) ∧ List.Forall₂ (Again text text') d.roots roots := by
    have hrounds := hrelaid.rounds_again hquiet hquiet' hread ((Stream.ofText text').ahead.length + 1)
      ((Reading.ofText text').remaining + 1) [] hstart (by simp) (fun _ => hfirst)
    rcases hrounds with hbroken | ⟨items, s, hrun, ⟨⟨more, hmore, hagain⟩, hnewest⟩, hs⟩
    · exact .inl (BreaksOff.bind (p := statementList _ .file []) (BreaksOff.bind (p := loop [] _) hbroken))
    · refine .inr ⟨more, s, ?_, hroots ▸ hagain⟩
      have hstay : items.dropWhile (·.shape.isBlankLine) = items := by
        cases items with
        | nil => rfl
        | cons n items => exact List.dropWhile_cons_of_neg (by simpa using hnewest)
      have hlist : (statementList (Rules.upTo ((Stream.ofText text').ahead.length + 1)) .file []).run (Reading.ofText text') =
          .ok (more, s) := by
        have hloop : (loop [] (statementRound (Rules.upTo ((Stream.ofText text').ahead.length + 1)) .file [])).run
            (Reading.ofText text') = .ok (items, s) := hrun
        rw [statementList_eq, run_bind_of_run hloop, hstay, hmore, List.append_nil, List.reverse_reverse]
        rfl
      have hkind : s.raw.kind = .endOfFile := by rw [hs.raw_nil, Stream.eof_ofText]
      have hnone : s.raw.fault = none := by rw [hs.raw_nil, hfault]
      rw [sourceFile, Rules.ofText, run_bind_of_run hlist, run_raw_bind, hnone]
      simp only [hkind, ne_eq, not_true_eq_false, if_false]
      rfl
  rcases hwhole with hbroken | ⟨roots, s, hrun, hagain⟩
  · exact absurd hbroken (not_breaksOff_of_quiet hquiet')
  · exact ⟨⟨text', roots⟩, parseWith_eq_ok_iff.2 ⟨rfl, s, hrun⟩, hagain⟩

end LpcStyle
