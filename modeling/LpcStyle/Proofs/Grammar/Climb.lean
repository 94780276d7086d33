import Mathlib.Tactic
import LpcStyle.Proofs.Grammar.Depth
import LpcStyle.Proofs.Grammar.Walks.Parse

/-!
Climbing groups operators by their ranks. A `Row` is what stands ahead of a left operand: operators, each with the operand
behind it. A `Grouping` puts them together in order, and is `Ranked` if no operator in the left part of another binds
looser than it does, and all in the right part bind tighter. At most one grouping of a row is ranked, and climbing from
rank 0 on builds it, however long the row is.
-/

namespace LpcStyle

open Text LpcStyle.Parser

/-! ## States -/

/-- looking ahead gives the next significant token -/
theorem Parser.run_peek (r : Reading) : peek.run r = .ok (r.settle.raw, r.settle) := rfl

/-- looking ahead twice is looking ahead once -/
theorem Reading.settle_settle (r : Reading) : r.settle.settle = r.settle := by
  have hnone : (r.ahead.dropWhile (·.kind.isTrivia)).takeWhile (·.kind.isTrivia) = [] := by
    refine List.takeWhile_eq_nil_iff.2 fun hpos => ?_
    simpa using List.dropWhile_get_zero_not _ r.ahead hpos
  simp [Reading.settle, List.dropWhile_idempotent, hnone]

namespace Reading.Stands

variable {text : List Char} {opened later : List Enclosure} {m hi : Nat} {r s : Reading} {t : Token} {ts : List Token}
  {rank : Nat}

/-- behind a token that is still ahead of another state, less is ahead -/
theorem length_lt (hr : r.Stands text opened m) (hs : s.Stands text later hi) (hahead : r.ahead = t :: ts)
    (hlt : t.span.start < hi) : s.ahead.length < r.ahead.length := by
  by_contra hle
  obtain ⟨before, hbefore, -⟩ := hr.behind
  obtain ⟨before', hbefore', -⟩ := hs.behind
  have hsuffix : r.ahead <:+ s.ahead :=
    List.suffix_of_suffix_length_le ⟨before, hbefore.symm⟩ ⟨before', hbefore'.symm⟩ (not_lt.1 hle)
  have hmem : t ∈ s.ahead := hsuffix.subset (by simp [hahead])
  have := hs.ascends.start_le (t := t) (by simp [hmem])
  omega

/-- an operator that comes next is a token of the text, and has no fault -/
theorem operator (hr : r.Stands text opened m) (hrank : Grammar.rank? r.settle.raw = some rank) :
    r.settle.ahead = r.settle.raw :: r.settle.ahead.tail ∧ r.settle.raw.fault = none := by
  have hne := Grammar.ne_endOfFile_of_rank hrank
  obtain ⟨hstands, -⟩ := hr.settle
  cases hrest : r.settle.ahead with
  | nil =>
    have hraw : r.settle.raw = r.settle.eof := by
      change r.settle.front = _
      simp [Reading.front, hrest]
    rw [hraw, hstands.sane.eof] at hne
    exact absurd rfl hne
  | cons t ts =>
    have hraw : r.settle.raw = t := by
      change r.settle.front = _
      simp [Reading.front, hrest]
    rw [hraw] at hrank ⊢
    refine ⟨rfl, ?_⟩
    by_contra hfault
    have hkind := Stream.fault_ofText text t (hstands.mem_ahead (by simp [hrest])) hfault
    simpa [hkind] using Grammar.kind_of_rank hrank

/-- **An operator is taken**: it lies behind the edge, and moves it to its end. -/
theorem pastOperator (hr : r.Stands text opened m) (hrank : Grammar.rank? r.settle.raw = some rank) :
    r.settle.dropRaw.Stands text opened r.settle.raw.span.stop ∧ r.settle.raw.Solid text m := by
  have hplain : r.settle.raw.kind.turn opened = some opened ∧ r.settle.raw.kind.isFirm = true := by
    rcases Grammar.kind_of_rank hrank with hkind | hkind | hkind | hkind <;> rw [hkind] <;> exact ⟨rfl, rfl⟩
  obtain ⟨hstands, hmet⟩ := hr.settle
  exact ⟨hstands.drop rfl hplain.1 (.inl (hr.operator hrank).2), hmet.solid hplain.2⟩

end Reading.Stands

namespace Grammar

/-! ## Groupings -/

/-- operands with operators between them, put together two at a time -/
inductive Grouping where
  | operand (n : Node)
  | operator (left : Grouping) (op : Token) (right : Grouping)

/-- all operators of a row have ranks from `min` on -/
def Binds (min : Nat) (row : List (Token × Node)) : Prop := ∀ step ∈ row, ∃ rank, rank? step.1 = some rank ∧ min ≤ rank

theorem Binds.weaken {min lower : Nat} {row : List (Token × Node)} (h : Binds min row) (hle : lower ≤ min) :
    Binds lower row := by
  intro step hstep
  obtain ⟨rank, hrank, hmin⟩ := h step hstep
  exact ⟨rank, hrank, hle.trans hmin⟩

theorem Binds.append {min : Nat} {row row' : List (Token × Node)} (h : Binds min row) (h' : Binds min row') :
    Binds min (row ++ row') := List.forall_mem_append.2 ⟨h, h'⟩

/-- the form of two operands with an operator between them: a logical one for `||` and `&&`, and a binary one for any
other operator -/
def between (left : Node) (op : Token) (right : Node) : Shape Node :=
  if op.text = "||".toList ∨ op.text = "&&".toList then .logical left (.ofToken op) right
  else .binary left (.ofToken op) right false

namespace Grouping

/-- the leftmost operand -/
def first : Grouping → Node
  | operand n => n
  | operator left _ _ => left.first

/-- the operators in order, each with the operand behind it -/
def row : Grouping → List (Token × Node)
  | operand _ => []
  | operator left op right => left.row ++ (op, right.first) :: right.row

/-- the tree of a grouping -/
def node : Grouping → Node
  | operand n => n
  | operator left op right => .mk ⟨left.node.start, right.node.stop⟩ (between left.node op right.node) none

/-- no operator in the left part of another has a lower rank, and all in its right part have higher ones -/
def Ranked : Grouping → Prop
  | operand _ => True
  | operator left op right =>
    ∃ rank, rank? op = some rank ∧ Binds rank left.row ∧ Binds (rank + 1) right.row ∧ left.Ranked ∧ right.Ranked

/-- the operator at the root does not stand further on in one ranked grouping than in another of the same row -/
theorem not_further {front more back back' : List (Token × Node)} {step step' : Token × Node} {rank rank' : Nat}
    (hrank : rank? step.1 = some rank) (hrank' : rank? step'.1 = some rank') (hback : Binds (rank + 1) back)
    (hfront : Binds rank' (front ++ more)) (hmore : step :: back = more ++ step' :: back') : more = [] := by
  cases more with
  | nil => rfl
  | cons u more =>
    obtain ⟨rfl, rfl⟩ := List.cons.inj hmore
    obtain ⟨k, hk, hle⟩ := hfront step (by simp)
    obtain ⟨k', hk', hlt⟩ := hback step' (by simp)
    rw [hrank] at hk
    rw [hrank'] at hk'
    cases hk
    cases hk'
    omega

/-- **At most one grouping of a row is ranked.** -/
theorem Ranked.unique {g g' : Grouping} (h : g.Ranked) (h' : g'.Ranked) (hfirst : g.first = g'.first)
    (hrow : g.row = g'.row) : g = g' := by
  induction g generalizing g' with
  | operand n =>
    cases g' with
    | operand n' => exact congrArg operand hfirst
    | operator left' op' right' => simp [row] at hrow
  | operator left op right ihl ihr =>
    cases g' with
    | operand n' => simp [row] at hrow
    | operator left' op' right' =>
      obtain ⟨rank, hrank, hleft, hright, hl, hr⟩ := h
      obtain ⟨rank', hrank', hleft', hright', hl', hr'⟩ := h'
      have hparts : left.row = left'.row ∧ (op, right.first) :: right.row = (op', right'.first) :: right'.row := by
        rcases List.append_eq_append_iff.1 hrow with ⟨more, hmore, hback⟩ | ⟨more, hmore, hback⟩
        · obtain rfl := not_further hrank hrank' hright (hmore ▸ hleft') hback
          exact ⟨by simpa using hmore.symm, hback⟩
        · obtain rfl := not_further hrank' hrank hright' (hmore ▸ hleft) hback
          exact ⟨by simpa using hmore, hback.symm⟩
      obtain ⟨hlrow, hback⟩ := hparts
      obtain ⟨hstep, hrrow⟩ := List.cons.inj hback
      obtain ⟨rfl, hrfirst⟩ := Prod.mk.inj hstep
      rw [ihl hl hl' hfirst hlrow, ihr hr hr' hrfirst hrrow]

end Grouping

/-- the grouping is a ranked one of a left operand and what follows it -/
structure Grouping.Groups (left : Node) (row : List (Token × Node)) (g : Grouping) : Prop where
  first : g.first = left
  row : g.row = row
  ranked : g.Ranked

/-- logical operators are those spelled `||` and `&&` -/
theorem logical_iff_of_rank {t : Token} {rank : Nat} (h : rank? t = some rank) :
    t.kind = .logicalOp ↔ t.text = "||".toList ∨ t.text = "&&".toList := by
  obtain ⟨text, hmem, htext⟩ := mem_ranks h
  have hall : ∀ entry ∈ ranks,
      entry.1 = .logicalOp ↔ entry.2.1.toList = "||".toList ∨ entry.2.1.toList = "&&".toList := by decide
  rw [htext]
  exact hall _ hmem

/-- no rank is higher than that of multiplication -/
theorem rank_le {t : Token} {rank : Nat} (h : rank? t = some rank) : rank ≤ 10 := by
  obtain ⟨text, hmem, -⟩ := mem_ranks h
  have hall : ∀ entry ∈ ranks, entry.2.2 ≤ 10 := by decide
  exact hall _ hmem

/-! ## Rows -/

/-- an operand and the string pieces that go on after it -/
def piece (rules : Rules) : Parser Node := do joined rules (← rules.operand)

/-- what is ahead of a state: operators, each with a piece behind it as the rules of a depth read it, and then no further
operator -/
inductive Row (depth : Nat) : Reading → List (Token × Node) → Reading → Prop
  | done {r : Reading} (hrank : rank? r.settle.raw = none) : Row depth r [] r.settle
  | step {r s last : Reading} {x : Node} {row : List (Token × Node)} {rank : Nat} (hrank : rank? r.settle.raw = some rank)
    (hread : (piece (Rules.upTo depth)).run r.settle.dropRaw = .ok (x, s)) (hrest : Row depth s row last) :
    Row depth r ((r.settle.raw, x) :: row) last

theorem below_piece {rules rules' : Rules} (ok : rules.Below rules') : Below (piece rules) (piece rules') :=
  ok.operand.bind fun right => below_joined ok right

theorem walks_piece {text : List Char} {K : Reading → Prop} {opened : List Enclosure} {lo : Nat} {rules : Rules}
    (ok : rules.Walk text) : Walks text K opened lo (piece rules) opened (Node.Sits text lo) :=
  .bind ok.operand fun _ _ _ h => walks_joined ok h

section

variable {text : List Char} {opened : List Enclosure} {m depth min fuel : Nat} {r s last : Reading} {left x y : Node}
  {row : List (Token × Node)} {rules : Rules} {rank : Nat}

/-- looking ahead does not change what is ahead -/
theorem Row.settle (h : Row depth r row last) : Row depth r.settle row last := by
  cases h with
  | done hrank =>
    rw [← r.settle_settle] at hrank
    have hdone : Row depth r.settle [] r.settle.settle := .done hrank
    rwa [r.settle_settle] at hdone
  | step hrank hread hrest =>
    rw [← r.settle_settle] at hrank hread
    have := Row.step hrank hread hrest
    rwa [r.settle_settle] at this

/-- behind an operator and the piece after it, reading stands at a later edge -/
theorem stands_piece (hr : r.Stands text opened m) (hrank : rank? r.settle.raw = some rank)
    (hread : (piece (Rules.upTo depth)).run r.settle.dropRaw = .ok (x, s)) :
    ∃ hi, r.settle.raw.span.start < hi ∧ s.Stands text opened hi ∧ x.Sits text r.settle.raw.span.stop hi := by
  obtain ⟨hdrop, hop⟩ := hr.pastOperator hrank
  have hpiece := walks_piece (K := Anywhere) (Rules.walk_upTo text depth) _ hdrop trivial
  rw [hread] at hpiece
  obtain ⟨hi, hhi, hs, hx⟩ := hpiece
  exact ⟨hi, hop.pos.trans_le hhi, hs, hx⟩

/-- the pieces of a row take at least one token each -/
theorem Row.length_le (h : Row depth r row last) (hr : r.Stands text opened m) :
    row.length ≤ r.settle.ahead.length := by
  induction h generalizing m with
  | done => exact Nat.zero_le _
  | step hrank hread _ ih =>
    obtain ⟨hi, hlt, hs, -⟩ := stands_piece hr hrank hread
    obtain ⟨hstands, hmet⟩ := hs.settle
    have hless := hr.settle.1.length_lt (hstands.weaken hmet.start) (hr.operator hrank).1 hlt
    have := ih hs
    rw [List.length_cons]
    omega

/-! ## Rounds -/

/-- no operator that comes next has a rank from `min` on -/
def Ends (min : Nat) (r : Reading) : Prop := ∀ rank, rank? r.settle.raw = some rank → rank < min

theorem Ends.settle (h : Ends min r) : Ends min r.settle := by rwa [Ends, r.settle_settle]

/-- one round of climbing -/
def climbRound (rules : Rules) (min : Nat) (left : Node) : Parser (Node ⊕ Node) := do
  match rank? (← peek) with
  | some rank =>
    if min ≤ rank then
      let op ← take
      let right ← tighter rules rank (← piece rules)
      let shape : Shape Node :=
        if op.kind = .logicalOp then .logical left (.ofToken op) right else .binary left (.ofToken op) right false
      return .inl (← build left.start right.stop shape)
    else return .inr left
  | none => return .inr left

theorem climb_eq : climb rules left min = loop left (climbRound rules min) := by
  unfold climbRound
  simp only [piece, bind_assoc]
  rfl

theorem run_climbRound_done (h : Ends min r) : (climbRound rules min left).run r = .ok (.inr left, r.settle) := by
  rw [climbRound, run_bind_of_run (run_peek r)]
  cases hrank : rank? r.settle.raw with
  | none => rfl
  | some rank =>
    simp only [if_neg (not_le.2 (h rank hrank))]
    rfl

theorem run_take (hfault : r.settle.raw.fault = none) : take.run r.settle = .ok (r.settle.raw, r.settle.dropRaw) := by
  rw [take, run_bind_of_run (run_peek r.settle), r.settle_settle, hfault]
  rfl

theorem run_climbRound_step (hrank : rank? r.settle.raw = some rank) (hmin : min ≤ rank)
    (hfault : r.settle.raw.fault = none) (hread : (piece rules).run r.settle.dropRaw = .ok (x, s))
    (htighter : (tighter rules rank x).run s = .ok (y, last)) (hle : left.start ≤ y.stop) :
    (climbRound rules min left).run r =
      .ok (.inl (.mk ⟨left.start, y.stop⟩ (between left r.settle.raw y) none), last) := by
  rw [climbRound, run_bind_of_run (run_peek r)]
  simp only [hrank, if_pos hmin]
  rw [run_bind_of_run (run_take hfault), run_bind_of_run hread, run_bind_of_run htighter]
  simp only [logical_iff_of_rank hrank]
  rw [build, spanning, if_pos hle]
  rfl

/-- where no operator comes next that binds tight enough, climbing leaves the operand as it is -/
theorem run_climb_done (h : Ends min r) : (climb rules left min).run r = .ok (left, r.settle) := by
  rw [climb_eq]
  exact run_iterate_done (run_climbRound_done h)

/-- one round of taking in what binds tighter than the rank -/
def tighterRound (rules : Rules) (rank : Nat) (right : Node) : Parser (Node ⊕ Node) := do
  match rank? (← peek) with
  | some next => if rank < next then return .inl (← rules.climb right (rank + 1)) else return .inr right
  | none => return .inr right

theorem run_tighterRound_done (h : Ends (rank + 1) r) :
    (tighterRound rules rank x).run r = .ok (.inr x, r.settle) := by
  rw [tighterRound, run_bind_of_run (run_peek r)]
  cases hnext : rank? r.settle.raw with
  | none => rfl
  | some next =>
    simp only [if_neg (not_lt.2 (Nat.le_of_lt_succ (h next hnext)))]
    rfl

/-- **What binds tighter is taken in at once**: one climb stops before an operator that does not. -/
theorem run_tighter {d : Nat} (hs : s.Stands text opened m) (hends : Ends (rank + 1) last) (hsettled : last.settle = last)
    (hclimb : (climb (Rules.upTo d) x (rank + 1)).run s.settle = .ok (y, last)) :
    (tighter (Rules.upTo (d + 1)) rank x).run s = .ok (y, last) := by
  change (iterate (tighterRound (Rules.upTo (d + 1)) rank) (s.remaining + 1) x).run s = _
  by_cases hnone : Ends (rank + 1) s
  · -- nothing binds tighter, and the climb would change nothing
    have hidle : (climb (Rules.upTo d) x (rank + 1)).run s.settle = .ok (x, s.settle.settle) := run_climb_done hnone.settle
    rw [s.settle_settle, hclimb] at hidle
    cases hidle
    exact run_iterate_done (run_tighterRound_done hnone)
  · simp only [Ends, not_forall, not_lt] at hnone
    obtain ⟨next, hnext, hlt⟩ := hnone
    have hpos : 0 < s.remaining := by
      have hless : s.settle.ahead.length ≤ s.ahead.length := (List.dropWhile_sublist _).length_le
      rw [(hs.operator hnext).1, List.length_cons] at hless
      rw [Reading.remaining]
      omega
    obtain ⟨fuel, hfuel⟩ := Nat.exists_eq_add_one.2 hpos
    have hround : (tighterRound (Rules.upTo (d + 1)) rank x).run s = .ok (.inl y, last) := by
      rw [tighterRound, run_bind_of_run (run_peek s)]
      simp only [hnext, if_pos (Nat.lt_of_succ_le hlt)]
      exact run_bind_of_run hclimb
    have hdone : (tighterRound (Rules.upTo (d + 1)) rank y).run last = .ok (.inr y, last.settle) :=
      run_tighterRound_done hends
    rw [hsettled] at hdone
    rw [hfuel, run_iterate_again hround, run_iterate_done hdone]

/-- behind what binds tighter, reading stands at a later edge -/
theorem stands_tighter {lo : Nat} (hs : s.Stands text opened m) (hx : x.Sits text lo m)
    (hrun : (tighter (Rules.upTo depth) rank x).run s = .ok (y, last)) :
    ∃ hi, last.Stands text opened hi ∧ y.Sits text lo hi := by
  have hwalk := walks_tighter (K := Anywhere) (Rules.walk_upTo text depth) rank hx _ hs trivial
  rw [hrun] at hwalk
  obtain ⟨hi, -, hlast, hy⟩ := hwalk
  exact ⟨hi, hlast, hy⟩

/-! ## Runs -/

/-- what climbing from `min` on makes of a grouping: it takes in operators of a row that bind at least as tight, and
leaves the others from the first looser one on -/
structure Climbed (depth min : Nat) (g : Grouping) (taken rest : List (Token × Node)) (last : Reading) (g' : Grouping)
    (s : Reading) : Prop where
  binds : Binds min taken
  first : g'.first = g.first
  row : g'.row = g.row ++ taken
  ranked : g'.Ranked
  rest : Row depth s rest last
  settled : s.settle = s
  ends : Ends min s

namespace Climbed

variable {g g' right : Grouping} {op : Token} {taken rest taken' rest' : List (Token × Node)} {e : Reading}

theorem none (h : Row depth r row last) (hranked : g.Ranked) (hends : Ends min r) :
    Climbed depth min g [] row last g r.settle where
  binds := by simp [Binds]
  first := rfl
  row := by simp
  ranked := hranked
  rest := h.settle
  settled := r.settle_settle
  ends := hends.settle

/-- an operator is put on top, with all that binds tighter to its right -/
theorem ranked_operator (h : Climbed depth (rank + 1) (.operand x) taken rest last right e) (hrank : rank? op = some rank)
    (hranked : g.Ranked) (hbinds : Binds rank g.row) : (Grouping.operator g op right).Ranked := by
  have hrow : right.row = taken := h.row
  exact ⟨rank, hrank, hbinds, hrow ▸ h.binds, hranked, h.ranked⟩

/-- what comes next does not bind tighter than any operator under the new one -/
theorem binds_operator (h : Climbed depth (rank + 1) (.operand x) taken rest last right e) (hrank : rank? op = some rank)
    (hbinds : Binds rank g.row) {next : Nat} (hnext : rank? e.settle.raw = some next) :
    Binds next (Grouping.operator g op right).row := by
  have hrow : right.row = taken := h.row
  have hle : next ≤ rank := Nat.le_of_lt_succ (h.ends next hnext)
  refine (hbinds.weaken hle).append (List.forall_mem_cons.2 ⟨⟨rank, hrank, hle⟩, ?_⟩)
  rw [hrow]
  exact h.binds.weaken (hle.trans (Nat.le_succ rank))

/-- **One round and the ones after it** -/
theorem andThen (h : Climbed depth (rank + 1) (.operand x) taken rest last right e) (hrank : rank? op = some rank)
    (hmin : min ≤ rank) (h' : Climbed depth min (.operator g op right) taken' rest' last g' s) :
    Climbed depth min g ((op, x) :: taken ++ taken') rest' last g' s where
  binds := by
    refine Binds.append (List.forall_mem_cons.2 ⟨⟨rank, hrank, hmin⟩, ?_⟩) h'.binds
    exact h.binds.weaken (hmin.trans (Nat.le_succ rank))
  first := h'.first
  row := by
    have hrow : right.row = taken := h.row
    have hfirst : right.first = x := h.first
    rw [h'.row, Grouping.row, hfirst, hrow]
    simp
  ranked := h'.ranked
  rest := h'.rest
  settled := h'.settled
  ends := h'.ends

end Climbed

/-- **Climbing from a rank on**: the grouping grows by operators of the row as long as they bind tight enough. Each climb
inside another starts from a higher rank, so as many calls as there are ranks suffice. -/
theorem exists_climbed {g : Grouping} {d : Nat} (h : Row depth r row last) (hr : r.Stands text opened m)
    (hstart : g.node.start ≤ m) (hranked : g.Ranked)
    (hbinds : ∀ rank, rank? r.settle.raw = some rank → Binds rank g.row)
    (hd : depth ≤ d) (hdeep : depth + 11 ≤ d + min) (hfuel : row.length < fuel) :
    ∃ g' s taken rest, row = taken ++ rest ∧ Climbed depth min g taken rest last g' s ∧
      (iterate (climbRound (Rules.upTo d) min) fuel g.node).run r = .ok (g'.node, s) := by
  -- the row behind the operator is shorter, for the climb inside this one and for the rounds after it
  induction hlen : row.length using Nat.strong_induction_on generalizing row r m g d min fuel with
  | _ n ih =>
    subst hlen
    obtain ⟨fuel, rfl⟩ := Nat.exists_eq_add_one.2 (Nat.zero_lt_of_lt hfuel)
    by_cases hends : Ends min r
    · exact ⟨g, r.settle, [], row, rfl, .none h hranked hends, run_iterate_done (run_climbRound_done hends)⟩
    cases h with
    | done hrank => exact absurd (fun rank h => by simp [hrank] at h) hends
    | @step _ s _ x row rank hrank hread hrest =>
      have hmin : min ≤ rank := by
        by_contra hlt
        apply hends
        intro k hk
        rw [hrank] at hk
        cases hk
        exact not_le.1 hlt
      have htop := rank_le hrank
      obtain ⟨d, rfl⟩ : ∃ d', d = d' + 1 := Nat.exists_eq_add_one.2 (by omega)
      -- the operand behind the operator, and what binds tighter than the operator
      obtain ⟨hi, -, hs, hx⟩ := stands_piece hr hrank hread
      have hsettle : s.settle.Stands text opened hi := hs.settle.1.weaken hs.settle.2.start
      have hrow : row.length < s.settle.remaining + 1 := by
        have := hrest.settle.length_le hsettle
        rw [s.settle_settle] at this
        rw [Reading.remaining]
        omega
      have hdeep' : depth + 11 ≤ d + (rank + 1) := by omega
      obtain ⟨right, e, taken, rest, rfl, hright, hrun⟩ := ih row.length (by simp) (g := .operand x) hrest.settle
        hsettle (hx.pos.le.trans hx.stop) trivial (by simp [Binds, Grouping.row]) (by omega) hdeep' hrow rfl
      have hclimb : (climb (Rules.upTo d) x (rank + 1)).run s.settle = .ok (right.node, e) := by
        rw [climb_eq]
        exact hrun
      have htighter := run_tighter hs hright.ends hright.settled hclimb
      obtain ⟨hi', he, hsits⟩ := stands_tighter hs hx htighter
      -- both parts put together
      obtain ⟨-, hop⟩ := hr.pastOperator hrank
      have hlt : g.node.start < right.node.start := hstart.trans_lt (hop.lt.trans_le hsits.start)
      have hread' : (piece (Rules.upTo (d + 1))).run r.settle.dropRaw = .ok (x, s) := by
        rw [(below_piece (Rules.below_upTo hd)).run_eq (by simp [hread]), hread]
      have hround := run_climbRound_step hrank hmin (hr.operator hrank).2 hread' htighter (hlt.trans hsits.pos).le
      have hoperator := hright.ranked_operator hrank hranked (hbinds rank hrank)
      have hnext (k : Nat) (hk : rank? e.settle.raw = some k) := hright.binds_operator hrank (hbinds rank hrank) hk
      -- the rounds after this one
      have hfuel' : rest.length < fuel := by
        simp only [List.length_cons, List.length_append] at hfuel
        omega
      obtain ⟨g', s', taken', rest', rfl, hg', hrun'⟩ := ih rest.length (by simp) (g := .operator g r.settle.raw right)
        hright.rest he (hlt.le.trans (hsits.pos.le.trans hsits.stop)) hoperator hnext hd hdeep hfuel' rfl
      refine ⟨g', s', (r.settle.raw, x) :: taken ++ taken', rest', by simp, hright.andThen hrank hmin hg', ?_⟩
      rw [run_iterate_again hround]
      exact hrun'

/-- **Climbing groups operators by their ranks.** Let reading stand anywhere in a text behind a left operand, and let any
number of operators with operands follow. There is exactly one grouping of them in their order in which no operator in the
left part of another has a lower rank and all in its right part have higher ones; climbing from rank 0 on gives the tree of
that grouping and takes in the whole row. Where the bound on the calls leaves room for the operands and for the ranks,
climbing ends so, and no other bound leads to any other tree or to a refusal. -/
theorem climb_groups (hr : r.Stands text opened m) (hleft : left.start ≤ m) (hrow : Row depth r row last) :
    ∃ tree : Grouping, tree.Groups left row ∧ (∀ other : Grouping, other.Groups left row → other = tree) ∧
      (∀ d, depth + 11 ≤ d → (climb (Rules.upTo d) left 0).run r = .ok (tree.node, last)) ∧
      ∀ d, (climb (Rules.upTo d) left 0).run r = .error .exhausted ∨
        (climb (Rules.upTo d) left 0).run r = .ok (tree.node, last) := by
  have hfuel : row.length < r.remaining + 1 := by
    have := hrow.length_le hr
    have hless : r.settle.ahead.length ≤ r.ahead.length := (List.dropWhile_sublist _).length_le
    rw [Reading.remaining]
    omega
  have hclimbed (d : Nat) (hd : depth + 11 ≤ d) :
      ∃ tree : Grouping, tree.Groups left row ∧ (climb (Rules.upTo d) left 0).run r = .ok (tree.node, last) := by
    obtain ⟨tree, s, taken, rest, rfl, htree, hrun⟩ := exists_climbed (g := .operand left) hrow hr hleft trivial
      (by simp [Binds, Grouping.row]) (by omega) (show depth + 11 ≤ d + 0 from hd) hfuel
    -- nothing is left: every operator has a rank from 0 on
    cases htree.rest with
    | step hrank _ _ => exact absurd (htree.ends _ hrank) (Nat.not_lt_zero _)
    | done _ =>
      refine ⟨tree, ⟨htree.first, by simpa [Grouping.row] using htree.row, htree.ranked⟩, ?_⟩
      rw [climb_eq, htree.settled]
      exact hrun
  obtain ⟨tree, htree, hrun⟩ := hclimbed (depth + 11) le_rfl
  have hunique (other : Grouping) (hother : other.Groups left row) : other = tree :=
    hother.ranked.unique htree.ranked (hother.first.trans htree.first.symm) (hother.row.trans htree.row.symm)
  have hdeep (d : Nat) (hd : depth + 11 ≤ d) : (climb (Rules.upTo d) left 0).run r = .ok (tree.node, last) := by
    obtain ⟨other, hother, hrun⟩ := hclimbed d hd
    rwa [hunique other hother] at hrun
  refine ⟨tree, htree, hunique, hdeep, fun d => ?_⟩
  have hbelow := below_climb (Rules.below_upTo (Nat.le_max_left d (depth + 11))) left 0 r
  rwa [hdeep _ (Nat.le_max_right d _)] at hbelow

/-- what is ahead, read operator by operator -/
def readRow (depth : Nat) : Nat → Reading → Option (List (Token × Node) × Reading)
  | 0, _ => none
  | fuel + 1, r =>
    match rank? r.settle.raw with
    | none => some ([], r.settle)
    | some _ =>
      match (piece (Rules.upTo depth)).run r.settle.dropRaw with
      | .ok (x, s) => (readRow depth fuel s).map fun (row, last) => ((r.settle.raw, x) :: row, last)
      | .error _ => none

theorem row_of_readRow (h : readRow depth fuel r = some (row, last)) : Row depth r row last := by
  induction fuel generalizing r row with
  | zero => cases h
  | succ fuel ih =>
    rw [readRow] at h
    cases hrank : rank? r.settle.raw with
    | none =>
      rw [hrank] at h
      cases h
      exact .done hrank
    | some rank =>
      rw [hrank] at h
      cases hread : (piece (Rules.upTo depth)).run r.settle.dropRaw with
      | error e => simp [hread] at h
      | ok result =>
        obtain ⟨x, s⟩ := result
        simp only [hread, Option.map_eq_some_iff] at h
        obtain ⟨⟨rest, last⟩, hrest, heq⟩ := h
        cases heq
        exact .step hrank hread (ih hrest)

end

/-- operators whose ranks rise and fall, two of the same rank among them -/
def mixed : List Char := "a-b*-c-d||e;".toList

/-- what is read of it: the first operand, what is ahead of it, and the row behind it -/
def mixedRow : Option (Node × Reading × List (Token × Node) × Reading) := do
  let (left, r) ← ((operand (Rules.upTo 3)).run (.ofText mixed)).toOption
  let (row, last) ← readRow 3 9 r
  return (left, r, row, last)

/-- a difference of products on the left of `||` -/
theorem climb_groups_mixed : ∃ left r row last m, r.Stands mixed [] m ∧ left.start ≤ m ∧ Row 3 r row last ∧
    row.map (·.1.text) = ["-".toList, "*".toList, "-".toList, "||".toList] ∧
    ∃ tree : Grouping, tree.Groups left row ∧ (∀ other : Grouping, other.Groups left row → other = tree) ∧
      (∀ d, 3 + 11 ≤ d → (climb (Rules.upTo d) left 0).run r = .ok (tree.node, last)) ∧
      ∀ d, (climb (Rules.upTo d) left 0).run r = .error .exhausted ∨
        (climb (Rules.upTo d) left 0).run r = .ok (tree.node, last) := by
  have hmixed : mixedRow.map (fun (_, _, row, _) => row.map (·.1.text)) =
      some ["-".toList, "*".toList, "-".toList, "||".toList] := by decide +kernel
  obtain ⟨found, hread, htexts⟩ := Option.map_eq_some_iff.1 hmixed
  simp only [mixedRow, Option.bind_eq_bind, Option.bind_eq_some_iff, Option.pure_def, Option.some.injEq] at hread
  obtain ⟨⟨left, r⟩, hoperand, ⟨row, last⟩, hrow, rfl⟩ := hread
  have hrun : (operand (Rules.upTo 3)).run (.ofText mixed) = .ok (left, r) := by
    cases h : (operand (Rules.upTo 3)).run (.ofText mixed) with
    | error e => simp [h, Except.toOption] at hoperand
    | ok result => simpa [h, Except.toOption] using hoperand
  have hwalk := walks_operand (K := Anywhere) (Rules.walk_upTo mixed 3) _ (Reading.stands_ofText mixed) trivial
  rw [hrun] at hwalk
  obtain ⟨m, -, hr, hleft⟩ := hwalk
  have hle : left.start ≤ m := hleft.pos.le.trans hleft.stop
  exact ⟨left, r, row, last, m, hr, hle, row_of_readRow hrow, htexts, climb_groups hr hle (row_of_readRow hrow)⟩

end Grammar

end LpcStyle
