import Mathlib.Tactic
import LpcStyle.Proofs.Grammar.Walks.Parse
import LpcStyle.Proofs.Tree.Paths

/-!
The tree of a text. No two of its nodes have the same label: nodes that are no comments are read one behind the other or
around each other, and comments are those of the text. Main statements:
- `path_unique_parse`: no two nodes have the same label, and each is reached along one path;
- `parse_nests`: in the tree of a text without comments, ranges nest and siblings come in order.
-/

namespace LpcStyle

open Text

variable {text : List Char}

/-! ## Labels -/

/-- the comments of a text outside preprocessor lines are comments of the text, in order -/
theorem commentsOutside_sublist (inside : Bool) (ts : List Token) :
    (commentsOutside inside ts).Sublist ((ts.filter (·.kind.isComment)).map .ofToken) := by
  induction ts generalizing inside with
  | nil => simp [commentsOutside]
  | cons t ts ih =>
    have hrest := ih (decide (t.kind ≠ .directiveEnd))
    have hrest' := ih (decide (t.kind = .directive))
    by_cases hcomment : t.kind.isComment = true
    · cases inside with
      | true => simpa [commentsOutside, hcomment] using hrest.cons (Comment.ofToken t)
      | false => simpa [commentsOutside, hcomment] using hrest'.cons_cons (Comment.ofToken t)
    · cases inside with
      | true => simpa [commentsOutside, hcomment] using hrest
      | false => simpa [commentsOutside, hcomment] using hrest'

/-- no two comments of a text are the same -/
theorem nodup_commentsOutside (text : List Char) : (commentsOutside false (Stream.ofText text).ahead).Nodup := by
  refine List.Nodup.sublist (commentsOutside_sublist _ _) (List.pairwise_map.2 ?_)
  have hordered := (Stream.tiled_ofText text).ordered.1.sublist (List.filter_sublist (p := (·.kind.isComment)))
  refine hordered.imp_of_mem fun {t u} ht hu hle heq => ?_
  have hfirm : t.kind.isFirm = true := by
    have hcomment := (List.mem_filter.1 ht).2
    cases hkind : t.kind <;> rw [hkind] at hcomment <;> first | rfl | cases hcomment
  have hpos := Stream.firm_ofText text t (List.mem_filter.1 ht).1 hfirm
  have hspan : t.span = u.span := congrArg Comment.span heq
  rw [hspan] at hle hpos
  omega

/-- the comments of a tree are those of its text outside preprocessor lines -/
theorem comments_listing_parse {d : Document} (h : parse text = .ok d) :
    (d.listing.filterMap (·.label.comment?)).Perm (commentsOutside false (Stream.ofText text).ahead) := by
  obtain ⟨s, hrun⟩ := run_of_parse_ok h
  obtain ⟨hcomments, -⟩ := comments_sourceFile (Rules.carry_upTo _) (Reading.sane_ofText text) rfl hrun
  refine Multiset.coe_eq_coe.1 ?_
  rw [Document.comments_listing, hcomments]
  rfl

/-- an order of which both the members without an image and the images have no doubles has none itself -/
theorem nodup_of_filterMap {α β : Type} {f : α → Option β} {l : List α} (hnone : (l.filter fun a => (f a).isNone).Nodup)
    (hsome : (l.filterMap f).Nodup) : l.Nodup := by
  induction l with
  | nil => exact List.nodup_nil
  | cons a l ih =>
    cases hfa : f a with
    | none =>
      rw [List.filter_cons_of_pos (by simp [hfa]), List.nodup_cons] at hnone
      rw [List.filterMap_cons_none hfa] at hsome
      refine List.nodup_cons.2 ⟨fun hmem => hnone.1 (List.mem_filter.2 ⟨hmem, by simp [hfa]⟩), ih hnone.2 hsome⟩
    | some b =>
      rw [List.filter_cons_of_neg (by simp [hfa])] at hnone
      rw [List.filterMap_cons_some hfa, List.nodup_cons] at hsome
      exact List.nodup_cons.2 ⟨fun hmem => hsome.1 (List.mem_filterMap.2 ⟨a, hmem, hfa⟩), ih hnone hsome.2⟩

/-- **No two nodes of a tree are the same.** -/
theorem nodup_labels_parse {d : Document} (h : parse text = .ok d) : (Branch.labelsOf d.forest).Nodup := by
  obtain ⟨⟨hi, hroots⟩, -⟩ := sitAll_parse h
  refine nodup_of_filterMap (f := Label.comment?) ?_ ?_
  · rw [Branch.filter_labelsOf]
    exact hroots.nodup
  · have hcomments := (comments_listing_parse h).nodup_iff.2 (nodup_commentsOutside text)
    rwa [← Branch.map_label_listing none 0, List.filterMap_map]

/-- **Labels tell the nodes of a tree apart**, so the label that a lookup gives is that of one node, reached along one path. -/
theorem path_unique_parse {d : Document} {p q : Path} {b c : Branch} (h : parse text = .ok d) (hb : d.follow? p = some b)
    (hc : d.follow? q = some c) (hlabel : b.label = c.label) : p = q :=
  Document.follow_unique (nodup_labels_parse h) hb hc hlabel

/-! ## Ranges nest -/

/-- **Ranges nest in the tree of a text without comments.** No node is empty, no part leaves the range of the node around
it, and roots and parts end before the next one starts. -/
theorem parse_nests {d : Document} (hquiet : ∀ t ∈ (Stream.ofText text).toList, t.kind.isComment = false)
    (h : parse text = .ok d) : (∀ e ∈ d.listing, e.label.span.start < e.label.span.stop) ∧
      d.forest.Pairwise (fun a b => a.stop ≤ b.start) ∧ ∀ b ∈ d.forest, b.Nested := by
  have hahead : Quiet text := fun t ht => hquiet t (Stream.ahead_subset_toList _ ht)
  obtain ⟨⟨hi, hroots⟩, -⟩ := sitAll_parse h
  have hnested : ∀ b ∈ d.forest, b.Nested := hroots.nested hahead
  refine ⟨fun e he => ?_, hroots.ordered hahead, hnested⟩
  -- there are no comments, so all labels of the tree are in its branches
  have hnone : commentsOutside false (Stream.ofText text).ahead = [] := by
    have hsub := commentsOutside_sublist false (Stream.ofText text).ahead
    rw [List.filter_eq_nil_iff.2 fun t ht => by simp [hahead t ht]] at hsub
    exact List.sublist_nil.1 hsub
  have hlabel : e.label.comment? = none := by
    have hcomments := comments_listing_parse h
    rw [hnone] at hcomments
    exact List.filterMap_eq_nil_iff.1 hcomments.eq_nil e he
  have hsolid : e.label ∈ Branch.solidsOf d.forest := by
    rw [← Branch.filter_labelsOf, ← Branch.map_label_listing none 0]
    exact List.mem_filter.2 ⟨List.mem_map_of_mem he, by simp [hlabel]⟩
  rw [Branch.solidsOf_eq_flatMap] at hsolid
  obtain ⟨b, hb, hsolid⟩ := List.mem_flatMap.1 hsolid
  exact ((hnested b hb).solids _ hsolid).2.1

/-- a function, and what its only statement is made of -/
theorem parse_nests_bracketed : (∀ t ∈ (Stream.ofText bracketed).toList, t.kind.isComment = false) ∧
    ∃ d, parse bracketed = .ok d ∧ d.listing.length = 23 ∧ (∀ e ∈ d.listing, e.label.span.start < e.label.span.stop) ∧
      ∀ b ∈ d.forest, b.Nested := by
  have hquiet : ∀ t ∈ (Stream.ofText bracketed).toList, t.kind.isComment = false := by decide +kernel
  have hparse : ((parse bracketed).toOption.map fun d => d.listing.length) = some 23 := by decide +kernel
  refine ⟨hquiet, ?_⟩
  cases h : parse bracketed with
  | error e =>
    rw [h] at hparse
    cases hparse
  | ok d =>
    rw [h] at hparse
    obtain ⟨hpos, -, hnested⟩ := parse_nests hquiet h
    exact ⟨d, rfl, Option.some.inj hparse, hpos, hnested⟩

end LpcStyle
