import Mathlib.Tactic
import LpcStyle.Arena.Parse
import LpcStyle.Grammar.Parse
import LpcStyle.Proofs.Arena.Forest
import LpcStyle.Proofs.Arena.Statement

/-!
A text is read into the store as into a tree, and the document that comes of it is a forest. Main statements:
- `parse_agrees`: either both give a document, and the roots in the store are grown as the tree, or both give the same error;
- `parse_isForest`: paths, parents and ancestors of the document fit together.
-/

namespace LpcStyle.Arena

open Text LpcStyle.Parser
open Store (Key)

variable {text : List Char}

/-- **The rules build the same** at every depth of calls. -/
theorem sameRules_upTo (depth : Nat) : SameRules (LpcStyle.Rules.upTo depth) (Rules.upTo depth) := by
  induction depth with
  | zero =>
    have hnone {α β : Type} {held : Multiset Handle} {R : β → α → Multiset Handle → Prop} :
        Builds held (throw .exhausted) (throw (.reading .exhausted)) R := fun _ _ _ _ => .error .exhausted
    exact ⟨hnone, hnone, fun _ _ => hnone, hnone, fun _ => hnone⟩
  | succ depth ih =>
    exact ⟨builds_expression ih, builds_operand ih, fun x rank => builds_climb ih rank, builds_argument ih,
      builds_statement ih⟩

theorem builds_sourceFile {rules : LpcStyle.Rules} {rules' : Rules} (h : SameRules rules rules') :
    Builds 0 (LpcStyle.sourceFile rules) (sourceFile rules') Many := by
  unfold LpcStyle.sourceFile sourceFile
  refine .many_bind (builds_statementList h _ _) fun xs => .reading_bind .raw fun token => ?_
  dsimp only
  cases token.fault with
  | some fault => exact .refuse_bind
  | none =>
    refine .ite (fun _ => ?_) fun _ => .pure ⟨xs, rfl, rfl, Multiset.zero_add _⟩
    exact .andThen (R := fun _ _ _ => False) .unexpected fun _ _ _ h => h.elim

/-- nothing is in hand where reading starts -/
theorem stands_ofText (text : List Char) : Stands 0 (.ofText text) (.ofText text) :=
  ⟨rfl, [], rfl, rfl, nofun, List.nodup_nil, nofun, nofun⟩

/-- the document in the store is that of a tree -/
structure Document.Holds (a : Document) (d : LpcStyle.Document) : Prop where
  text : a.text = d.text
  roots : List.Forall₂ (Grown a.cells) a.roots d.forest

/-- **A path through the tree is one through the store**, where the same is grown. -/
theorem Document.Holds.at {a : Document} {d : LpcStyle.Document} {p : Path} {b : Branch} (h : a.Holds d)
    (hp : d.follow? p = some b) : ∃ key, a.at? p = some key ∧ Grown a.cells key b := by
  have hget {xs : List Key} {bs : List Branch} (hall : List.Forall₂ (Grown a.cells) xs bs) {i : Nat} {b : Branch}
      (hb : bs[i]? = some b) : ∃ key, xs[i]? = some key ∧ Grown a.cells key b := by
    obtain ⟨hi, rfl⟩ := List.getElem?_eq_some_iff.1 hb
    have hi' : i < xs.length := hall.length_eq ▸ hi
    exact ⟨xs[i], List.getElem?_eq_getElem hi', hall.get hi' hi⟩
  have hnext {key : Key} {b c : Branch} {s : Step} (hkey : Grown a.cells key b) (hs : b.next? s = some c) :
      ∃ k, a.next? key s = some k ∧ Grown a.cells k c := by
    obtain ⟨cell, hcell, hbears⟩ := grown_iff.1 hkey
    obtain ⟨label, kids, suffix⟩ := b
    cases s with
    | kid i =>
      obtain ⟨k, hk, hgrown⟩ := hget hbears.kids hs
      exact ⟨k, next_eq_some_iff.2 ⟨cell, hcell, hk⟩, hgrown⟩
    | suffix =>
      obtain ⟨comment, rfl, rfl⟩ := Option.map_eq_some_iff.1 hs
      obtain ⟨k, hk, hlone⟩ : ∃ k, cell.suffix = some k ∧ Lone a.cells k comment := by
        have hrel : Option.Rel (Lone a.cells) cell.suffix (some comment) := hbears.suffix
        generalize cell.suffix = suffix at hrel
        cases hrel with
        | some hlone => exact ⟨_, rfl, hlone⟩
      exact ⟨k, next_eq_some_iff.2 ⟨cell, hcell, hk⟩, grown_ofComment.2 hlone⟩
  have hfollow {steps : List Step} {key : Key} {b c : Branch} (hkey : Grown a.cells key b)
      (hsteps : b.follow? steps = some c) : ∃ k, a.follow? key steps = some k ∧ Grown a.cells k c := by
    induction steps generalizing key b with
    | nil =>
      cases hsteps
      exact ⟨key, rfl, hkey⟩
    | cons s steps ih =>
      obtain ⟨x, hx, hrest⟩ := Option.bind_eq_some_iff.1 hsteps
      obtain ⟨k, hk, hgrown⟩ := hnext hkey hx
      obtain ⟨last, hlast, hc⟩ := ih hgrown hrest
      exact ⟨last, Option.bind_eq_some_iff.2 ⟨k, hk, hlast⟩, hc⟩
  obtain ⟨root, hroot, hsteps⟩ := Option.bind_eq_some_iff.1 hp
  obtain ⟨key, hkey, hgrown⟩ := hget h.roots hroot
  obtain ⟨last, hlast, hb⟩ := hfollow hgrown hsteps
  exact ⟨last, Option.bind_eq_some_iff.2 ⟨key, hkey, hlast⟩, hb⟩

/-- along every path of the tree the store has a cell that says what the node there says, and a cell for every key in it -/
def Document.Allocated (a : Document) (d : LpcStyle.Document) : Prop :=
  ∀ p b, d.follow? p = some b → ∃ key c, a.at? p = some key ∧ a.cells.get? key = some c ∧ c.Fits b.label ∧
    ∀ k, k ∈ c.below ∨ c.parent = some k → ∃ c', a.cells.get? k = some c'

theorem Document.Holds.allocated {a : Document} {d : LpcStyle.Document} (h : a.Holds d) (hlinked : a.Linked) :
    a.Allocated d := by
  intro p b hp
  obtain ⟨key, hkey, hgrown⟩ := h.at hp
  obtain ⟨c, hc, hbears⟩ := grown_iff.1 hgrown
  refine ⟨key, c, hkey, hc, hbears.fits, fun k hk => ?_⟩
  rcases hk with hbelow | hparent
  · exact hlinked.known k (Multiset.mem_add.2 (.inr (mem_listed hc hbelow)))
  · obtain ⟨c', hc', -⟩ := (hlinked.parent key k).1 (Option.bind_eq_some_iff.2 ⟨c, hc, hparent⟩)
    exact ⟨c', hc'⟩

/-- **Reading into the store and into a tree** give documents of the same text, or the same error. No key is followed that
the store did not give. -/
theorem parse_agrees (text : List Char) :
    (∃ d a, LpcStyle.parse text = .ok d ∧ parse text = .ok a ∧ a.Holds d ∧ a.Linked) ∨
      ∃ failure, LpcStyle.parse text = .error failure ∧ parse text = .error (.reading failure) := by
  have hrun := builds_sourceFile (sameRules_upTo ((Stream.ofText text).ahead.length + 1)) 0 _ _
    (by simpa using stands_ofText text)
  unfold LpcStyle.parse parse parseWith LpcStyle.Rules.ofText Rules.ofText
  generalize (LpcStyle.sourceFile _).run _ = e at hrun ⊢
  generalize (sourceFile _).run _ = e' at hrun ⊢
  cases hrun with
  | error failure => exact .inr ⟨failure.report, rfl, rfl⟩
  | ok hr =>
    rename_i roots r keys s
    obtain ⟨_, ⟨xs, rfl, rfl, rfl⟩, ⟨-, parked, -, -, howned⟩, -⟩ := hr
    rw [Multiset.add_zero] at howned
    obtain ⟨a, ha, htext, hlinked, hroots⟩ := (howned.mono (Multiset.le_add_right _ _)).linked text
    refine .inl ⟨⟨text, xs.map Handle.node⟩, a, rfl, by simp only [ha], ⟨htext, ?_⟩, hlinked⟩
    rw [LpcStyle.Document.forest, Node.branches_eq_map]
    exact hroots

theorem exists_document {d : LpcStyle.Document} (h : LpcStyle.parse text = .ok d) :
    ∃ a, parse text = .ok a ∧ a.Holds d ∧ a.Linked := by
  rcases parse_agrees text with ⟨d', a, hd, ha, hholds, hlinked⟩ | ⟨failure, hfailure, -⟩
  · obtain rfl : d = d' := Except.ok.inj (h.symm.trans hd)
    exact ⟨a, ha, hholds, hlinked⟩
  · rw [h] at hfailure
    cases hfailure

/-- **The document of a text is a forest.** Every cell that a root leads to is reached along one path; the roots have no
parents, and the parent of any other cell is the one that has it among its children or as its suffix; and the way up from
a cell ends at a root and meets no cell twice. -/
theorem parse_isForest {d : LpcStyle.Document} (h : LpcStyle.parse text = .ok d) :
    ∃ a, parse text = .ok a ∧ a.Holds d ∧ a.IsForest := by
  obtain ⟨a, ha, hholds, hlinked⟩ := exists_document h
  exact ⟨a, ha, hholds, Document.isForest hlinked⟩

/-- a call that turns out to be a function, with a comment inside its body, and blank lines that are dropped -/
def recalled : List Char := "f(x) \x7b\n  return; // a\n\n\x7d\n".toList

/-- the cell of the call is older than its body, as the statement is than its comment; no root leads to the blank lines -/
theorem parse_isForest_recalled : ∃ a, parse recalled = .ok a ∧ a.IsForest ∧
    a.cells.items.toList.map (·.parent.map Key.index) = [some 2, some 2, none, some 6, some 3, none, some 2] := by
  have hparse : (LpcStyle.parse recalled).toOption.isSome = true := by decide +kernel
  have hparents : ((parse recalled).toOption.map fun a => a.cells.items.toList.map (·.parent.map Key.index)) =
      some [some 2, some 2, none, some 6, some 3, none, some 2] := by decide +kernel
  cases hd : LpcStyle.parse recalled with
  | error e =>
    rw [hd] at hparse
    cases hparse
  | ok d =>
    obtain ⟨a, ha, -, hforest⟩ := parse_isForest hd
    rw [ha] at hparents
    exact ⟨a, ha, hforest, Option.some.inj hparents⟩

end LpcStyle.Arena
