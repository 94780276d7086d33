import Mathlib.Tactic
import LpcStyle.Token.Basic

/-!
Brackets among tokens. Reading goes through the brackets with a stack of those that are open; what leaves the stack as it
was is a well-nested word (`wellNested_of_nesting`).
-/

namespace LpcStyle

/-- constructs between brackets -/
inductive Enclosure where
  | paren | array | mapping | closure | lambda | index | brace
deriving DecidableEq, Repr

/-- a bracket -/
inductive Mark where
  | opens (e : Enclosure)
  | closes (e : Enclosure)
deriving DecidableEq, Repr

/-- the bracket that tokens of the kind are -/
def Kind.bracket? : Kind → Option Mark
  | .parenStart => some (.opens .paren)
  | .parenEnd => some (.closes .paren)
  | .arrayStart => some (.opens .array)
  | .arrayEnd => some (.closes .array)
  | .mappingStart => some (.opens .mapping)
  | .mappingEnd => some (.closes .mapping)
  | .closureStart => some (.opens .closure)
  | .closureEnd => some (.closes .closure)
  | .lambdaStart => some (.opens .lambda)
  | .lambdaEnd => some (.closes .lambda)
  | .indexStart => some (.opens .index)
  | .indexEnd => some (.closes .index)
  | .leftBrace => some (.opens .brace)
  | .rightBrace => some (.closes .brace)
  | _ => none

/-- the brackets among tokens -/
def marks (ts : List Token) : List Mark := ts.filterMap (·.kind.bracket?)

/-- every bracket is closed by one of its own construct, and what stands between them is well-nested itself -/
inductive WellNested : List Mark → Prop where
  | nil : WellNested []
  | enclose (e : Enclosure) {inside after : List Mark} (hinside : WellNested inside) (hafter : WellNested after) :
    WellNested (.opens e :: inside ++ .closes e :: after)

/-- the brackets that are open behind a token, innermost first; `none` if it closes what is not open -/
def Kind.turn (k : Kind) (opened : List Enclosure) : Option (List Enclosure) :=
  match k.bracket?, opened with
  | none, opened => some opened
  | some (.opens e), opened => some (e :: opened)
  | some (.closes e), f :: opened => if e = f then some opened else none
  | some (.closes _), [] => none

/-- the brackets that are open behind some tokens -/
def nesting : List Enclosure → List Token → Option (List Enclosure)
  | opened, [] => some opened
  | opened, t :: ts => (t.kind.turn opened).bind (nesting · ts)

theorem Kind.turn_of_bracket_none {k : Kind} (h : k.bracket? = none) (opened : List Enclosure) : k.turn opened = some opened := by
  simp [turn, h]

theorem nesting_append (opened : List Enclosure) (ts us : List Token) :
    nesting opened (ts ++ us) = (nesting opened ts).bind (nesting · us) := by
  induction ts generalizing opened with
  | nil => rfl
  | cons t ts ih =>
    simp only [List.cons_append, nesting, Option.bind_assoc]
    congr 1
    funext later
    exact ih later

/-- tokens that are no brackets leave open what is open -/
theorem nesting_of_bracket_none {ts : List Token} (h : ∀ t ∈ ts, t.kind.bracket? = none) (opened : List Enclosure) :
    nesting opened ts = some opened := by
  induction ts with
  | nil => rfl
  | cons t ts ih =>
    obtain ⟨ht, hts⟩ := List.forall_mem_cons.1 h
    rw [nesting, Kind.turn_of_bracket_none ht]
    exact ih hts

/-- the brackets close what is open, innermost first, with well-nested words in between -/
def Completes : List Enclosure → List Mark → Prop
  | [], word => WellNested word
  | e :: opened, word => ∃ inside after, word = inside ++ .closes e :: after ∧ WellNested inside ∧ Completes opened after

namespace Completes

variable {e : Enclosure} {opened : List Enclosure} {inside after : List Mark}

/-- a bracket that is closed may stand in front -/
theorem enclose (hinside : WellNested inside) (hafter : Completes opened after) :
    Completes opened (.opens e :: inside ++ .closes e :: after) := by
  cases opened with
  | nil => exact .enclose e hinside hafter
  | cons f opened =>
    obtain ⟨middle, rest, rfl, hmiddle, hrest⟩ := hafter
    exact ⟨.opens e :: inside ++ .closes e :: middle, rest, by simp, .enclose e hinside hmiddle, hrest⟩

end Completes

/-- what is open is closed by the rest of the tokens -/
theorem completes_of_nesting {opened : List Enclosure} {ts : List Token} (h : nesting opened ts = some []) :
    Completes opened (marks ts) := by
  induction ts generalizing opened with
  | nil =>
    cases h
    exact .nil
  | cons t ts ih =>
    obtain ⟨later, hturn, hlater⟩ := Option.bind_eq_some_iff.1 h
    have hrest := ih hlater
    cases hbracket : t.kind.bracket? with
    | none =>
      rw [Kind.turn_of_bracket_none hbracket] at hturn
      cases hturn
      simpa [marks, hbracket] using hrest
    | some mark =>
      have hbrackets : marks (t :: ts) = mark :: marks ts := by simp [marks, hbracket]
      rw [hbrackets]
      cases mark with
      | opens e =>
        simp only [Kind.turn, hbracket, Option.some.injEq] at hturn
        subst hturn
        obtain ⟨inside, after, hword, hinside, hafter⟩ := hrest
        rw [hword]
        exact .enclose hinside hafter
      | closes e =>
        cases opened with
        | nil => simp [Kind.turn, hbracket] at hturn
        | cons f opened =>
          simp only [Kind.turn, hbracket, Option.ite_none_right_eq_some, Option.some.injEq] at hturn
          obtain ⟨rfl, rfl⟩ := hturn
          exact ⟨[], marks ts, rfl, .nil, hrest⟩

/-- **What opens nothing and leaves nothing open is well-nested.** -/
theorem wellNested_of_nesting {ts : List Token} (h : nesting [] ts = some []) : WellNested (marks ts) := completes_of_nesting h

end LpcStyle
