import Mathlib.Tactic
import LpcStyle.Proofs.Grammar.Echo.File
import LpcStyle.Proofs.Grammar.Typeset

/-!
Statements as text. Every statement is the text of its term and a semicolon, and a blank line stands between two statements
exactly where the second one has one before it. The last pass keeps this, and read again the text has the tokens that the
statements say (`TypesetAll.written`), so that the sentences they come from are laid again (`Relaid.of_spells`).
-/

namespace LpcStyle

open Text Pattern

/-- the text is the statements, each with whether a blank line stands before it; before the first one none can -/
inductive TypesetAll : List (Bool × Term) → List Char → Prop
  | last {blank : Bool} {e : Term} {x : List Char} (h : Typeset e x) : TypesetAll [(blank, e)] (x ++ [';'])
  | more {blank blank' : Bool} {e e' : Term} {es : List (Bool × Term)} {x g t : List Char} (h : Typeset e x)
      (hg : if blank' then BlankGap g else WideGap g) (hrest : TypesetAll ((blank', e') :: es) t) :
      TypesetAll ((blank, e) :: (blank', e') :: es) (x ++ [';'] ++ g ++ t)

namespace TypesetAll

variable {es : List (Bool × Term)} {t : List Char}

theorem solid (h : TypesetAll es t) : Solid t := by
  have hsemicolon : Plain [';'] := plain_of_check (by decide)
  induction h with
  | last h => exact h.solid.beside hsemicolon.solid
  | more h _ _ ih => exact (h.solid.beside hsemicolon.solid).append ih _

/-- a text of statements ends with a semicolon -/
theorem ends (h : TypesetAll es t) : ∃ front, t = front ++ [';'] := by
  induction h with
  | last => exact ⟨_, rfl⟩
  | more _ _ _ ih =>
    obtain ⟨front, rfl⟩ := ih
    exact ⟨_, (List.append_assoc _ _ _).symm⟩

/-- **What the last pass makes of statements** is the statements again. -/
theorem finish (useTabs : Bool) (tabWidth : Nat) (h : TypesetAll es t) :
    TypesetAll es (Layout.finishLines useTabs tabWidth t) := by
  have hsemicolon : Plain [';'] := plain_of_check (by decide)
  induction h with
  | last h =>
    rw [Layout.finishLines_beside _ _ h.solid hsemicolon.solid, hsemicolon.finish]
    exact .last (h.finish useTabs tabWidth)
  | @more blank blank' e e' es x g t h hg hrest ih =>
    have hblank : ∀ c ∈ g, isGapOrLineFeed c = true := by
      cases blank' with
      | false => exact (show WideGap g from hg).blank
      | true => exact (show BlankGap g from hg).blank
    obtain ⟨g', hg', hfinish⟩ :=
      Layout.finishLines_solid useTabs tabWidth (h.solid.beside hsemicolon.solid) hblank hrest.solid
    rw [hfinish, Layout.finishLines_beside _ _ h.solid hsemicolon.solid, hsemicolon.finish]
    refine .more (h.finish useTabs tabWidth) ?_ ih
    cases blank'
    · exact hg'.wideGap hg
    · exact hg'.blankGap hg

end TypesetAll

/-! ## Tokens -/

/-- the tokens are those of the statements, with blank lines before those that have one -/
inductive Says : List (Bool × Term) → List (Kind × List Char) → Prop
  | nil : Says [] []
  | cons {blank : Bool} {e : Term} {es : List (Bool × Term)} {bs ts : List (Kind × List Char)}
      (hblank : bs.map Prod.fst = if blank then [.blankLines] else []) (h : Says es ts) :
      Says ((blank, e) :: es) (bs ++ e.spelled ++ (.semicolon, [';']) :: ts)

/-- **The tokens of statements** are those that they say; the blank line before the first statement is none of the text. -/
theorem TypesetAll.written {blank : Bool} {e : Term} {es : List (Bool × Term)} {t : List Char}
    (h : TypesetAll ((blank, e) :: es) t) : ∃ ts, Says es ts ∧
      Written 0 (e.spelled ++ (.semicolon, [';']) :: ts) (t ++ ['\n']) ∧ Starts (t ++ ['\n']) := by
  generalize hall : (blank, e) :: es = all at h
  induction h generalizing blank e es with
  | @last blank e x h =>
    cases hall
    have hend : Written 0 [] ['\n'] := .done ⟨by simp [isGapOrLineFeed], by simp⟩
    have hclosed : Closed [';', '\n'] := by simp [Closed, closers]
    rw [List.append_assoc]
    exact ⟨[], .nil, h.written hclosed (hend.next (cutsOff_semicolon _ 0)), h.starts hclosed⟩
  | @more blank blank' e e' es x g t h hg hrest ih =>
    cases hall
    obtain ⟨ts, hspells, hwritten, hstarts⟩ := ih rfl
    have hclosed : Closed (';' :: (g ++ (t ++ ['\n']))) := by simp [Closed, closers]
    -- the gap before the next statement is a token if it is a blank line
    obtain ⟨bs, hbs, hgap⟩ : ∃ bs : List (Kind × List Char), bs.map Prod.fst = (if blank' then [.blankLines] else []) ∧
        Written 0 (bs ++ e'.spelled ++ (.semicolon, [';']) :: ts) (g ++ (t ++ ['\n'])) := by
      cases blank' with
      | false => exact ⟨[], rfl, hwritten.behindGap (by simp) (WideGap.toGap hg) hstarts.not_gap⟩
      | true => exact ⟨[(.blankLines, g)], rfl, .blank hg hstarts.not_gap hwritten⟩
    refine ⟨_, .cons hbs hspells, ?_⟩
    have hsplit : x ++ [';'] ++ g ++ t ++ ['\n'] = x ++ (';' :: (g ++ (t ++ ['\n']))) := by simp
    rw [hsplit]
    exact ⟨h.written hclosed (hgap.next (cutsOff_semicolon _ 0)), h.starts hclosed⟩

/-! ## Sentences -/

/-- what is laid out of a sentence -/
def Sentence.told (x : Sentence) : Bool × Term := (x.blank.isSome, x.term)

variable {text : List Char}

/-- **Tokens that say the statements again** are those of the sentences that the statements come from. -/
theorem Relaid.of_spells {G : List Sentence} {ts : List Token}
    (hterm : ∀ x ∈ G, x.term.spelled = sayings (fun k => place text (x.start + k)) 0 x.size)
    (h : Says (G.map Sentence.told) (ts.map Token.spelling)) : Relaid text G ts := by
  induction G generalizing ts with
  | nil =>
    generalize hsaid : ts.map Token.spelling = said at h
    cases h
    rw [List.map_eq_nil_iff.1 hsaid]
    exact .nil
  | cons x G ih =>
    obtain ⟨hx, hG⟩ := List.forall_mem_cons.1 hterm
    generalize hsaid : ts.map Token.spelling = said at h
    cases h with
    | @cons _ _ _ bs said hblank h =>
      obtain ⟨us, vs, rfl, hus, hvs⟩ := List.map_eq_append_iff.1 hsaid
      obtain ⟨bs', us, rfl, hbs, hus⟩ := List.map_eq_append_iff.1 hus
      obtain ⟨semicolon, vs, rfl, hsemicolon, hvs⟩ := List.map_eq_cons_iff.1 hvs
      refine .cons ?_ (hus.trans hx) (congrArg Prod.fst hsemicolon) (ih hG (hvs ▸ h))
      rw [← hblank, ← hbs, List.map_map]
      rfl

end LpcStyle
