import ClassScript.Proofs.Parse.ExprGrammar
import ClassScript.Proofs.Tree.SpanTree

/-!
# Where a tree lies among its tokens

`Fits trees w` says that span trees lie in the tokens `w`, one after the other: every span
begins where one of the tokens begins and ends where one of them ends, and if the tokens are
in the order of their spans, the trees are nested and in order. This is kept if tokens come
before or after, if trees follow one another, and if a node is put above trees, however its
span was made: it may begin with the tokens or with the first tree, and end with the tokens
or with the last tree.

The spans of an expression lie in the tokens that spell it (`fits_of_spells`), and what reads
statements and declarations is followed in the same way up to the unit
(`fits_compilationUnit`).
-/

namespace ClassScript

open SpanTree (InOrder Within)

namespace Parse

variable {α : Type}

/-! ### Tokens in order -/

/-- The tokens follow one another, and none ends before it begins. -/
structure Ordered (w : List Token) : Prop where
  start_le_stop : ∀ t ∈ w, t.span.start.offset ≤ t.span.stop.offset
  pairwise : w.Pairwise fun t u => t.span.stop.offset ≤ u.span.start.offset

namespace Ordered

variable {w u v : List Token} {t t' : Token} {start stop : Position}

theorem left (h : Ordered (u ++ v)) : Ordered u :=
  ⟨fun t ht => h.start_le_stop t (List.mem_append_left v ht), (List.pairwise_append.1 h.pairwise).1⟩

theorem right (h : Ordered (u ++ v)) : Ordered v :=
  ⟨fun t ht => h.start_le_stop t (List.mem_append_right u ht),
    (List.pairwise_append.1 h.pairwise).2.1⟩

/-- Tokens of the first part end before those of the second begin. -/
theorem stop_le_start (h : Ordered (u ++ v)) (ht : t ∈ u) (ht' : t' ∈ v) :
    t.span.stop.offset ≤ t'.span.start.offset :=
  (List.pairwise_append.1 h.pairwise).2.2 t ht t' ht'

/-- No token begins before the first. -/
theorem start_le (h : Ordered w) (hstart : startOf? w = some start) (ht : t ∈ w) :
    start.offset ≤ t.span.start.offset := by
  cases w with
  | nil => cases ht
  | cons first rest =>
    obtain rfl : first.span.start = start := Option.some.inj hstart
    rcases List.mem_cons.1 ht with rfl | ht
    · exact Nat.le_refl _
    · have hfirst := h.start_le_stop first List.mem_cons_self
      exact Nat.le_trans hfirst (List.rel_of_pairwise_cons h.pairwise ht)

/-- No token ends after the last. -/
theorem le_stop (h : Ordered w) (hstop : stopOf? w = some stop) (ht : t ∈ w) :
    t.span.stop.offset ≤ stop.offset := by
  obtain ⟨last, hlast, rfl⟩ := Option.map_eq_some_iff.1 hstop
  obtain ⟨rest, rfl⟩ := List.getLast?_eq_some_iff.1 hlast
  rcases List.mem_append.1 ht with ht | ht
  · have hle := h.stop_le_start ht List.mem_cons_self
    exact Nat.le_trans hle (h.start_le_stop last (List.mem_append_right _ List.mem_cons_self))
  · obtain rfl := List.mem_singleton.1 ht
    exact Nat.le_refl _

end Ordered

theorem exists_of_startOf? {w : List Token} {start : Position} (h : startOf? w = some start) :
    ∃ t ∈ w, t.span.start = start := by
  obtain ⟨t, ht, rfl⟩ := Option.map_eq_some_iff.1 h
  exact ⟨t, List.mem_of_head? ht, rfl⟩

theorem exists_of_stopOf? {w : List Token} {stop : Position} (h : stopOf? w = some stop) :
    ∃ t ∈ w, t.span.stop = stop := by
  obtain ⟨t, ht, rfl⟩ := Option.map_eq_some_iff.1 h
  exact ⟨t, List.mem_of_getLast? ht, rfl⟩

/-! ### Trees in their tokens -/

/-- The trees lie in the tokens, one after the other. -/
structure Fits (trees : List SpanTree) (w : List Token) : Prop where
  ends : ∀ tree ∈ trees, ∀ span, tree.Holds span →
    (∃ t ∈ w, t.span.start = span.start) ∧ ∃ t ∈ w, t.span.stop = span.stop
  inOrder : Ordered w → InOrder trees
  nested : Ordered w → ∀ tree ∈ trees, tree.Nested

/-- A node that is put above `parts` may begin at `start`. -/
structure StartsAt (start : Position) (parts : List SpanTree) (w : List Token) : Prop where
  exists_token : ∃ t ∈ w, t.span.start = start
  le : Ordered w → ∀ p ∈ parts, start.offset ≤ p.span.start.offset

theorem StartsAt.sublist {start : Position} {trees parts : List SpanTree} {w : List Token}
    (h : StartsAt start trees w) (hsub : parts.Sublist trees) : StartsAt start parts w :=
  ⟨h.exists_token, fun hw p hp => h.le hw p (hsub.subset hp)⟩

namespace Fits

variable {trees parts : List SpanTree} {tree p : SpanTree} {w u v : List Token} {t : Token}
  {span : Span} {start stop : Position}

/-! #### Tokens around trees -/

theorem nil (w : List Token) : Fits [] w :=
  ⟨by simp, fun _ => List.Pairwise.nil, by simp⟩

theorem exists_start (h : Fits trees w) (hp : p ∈ trees) :
    ∃ t ∈ w, t.span.start = p.span.start := by
  obtain ⟨span, parts⟩ := p
  exact (h.ends _ hp span (.self span parts)).1

theorem exists_stop (h : Fits trees w) (hp : p ∈ trees) :
    ∃ t ∈ w, t.span.stop = p.span.stop := by
  obtain ⟨span, parts⟩ := p
  exact (h.ends _ hp span (.self span parts)).2

/-- A tree lies in one token at least. -/
theorem ne_nil (h : Fits trees w) (htrees : trees ≠ []) : w ≠ [] := by
  obtain ⟨p, rest, rfl⟩ := List.exists_cons_of_ne_nil htrees
  obtain ⟨t, ht, -⟩ := h.exists_start List.mem_cons_self
  exact List.ne_nil_of_mem ht

/-- No tree ends after the last token. -/
theorem stop_le (h : Fits trees w) (hw : Ordered w) (hstop : stopOf? w = some stop)
    (hp : p ∈ trees) : p.span.stop.offset ≤ stop.offset := by
  obtain ⟨t, ht, hstop'⟩ := h.exists_stop hp
  rw [← hstop']
  exact hw.le_stop hstop ht

/-- Trees of two parts, one after the other. -/
theorem append (h : Fits trees u) (h' : Fits parts v) : Fits (trees ++ parts) (u ++ v) := by
  refine ⟨fun tree htree span hspan => ?_, fun hw => ?_, fun hw tree htree => ?_⟩
  · rcases List.mem_append.1 htree with htree | htree
    · obtain ⟨⟨t, ht, hstart⟩, t', ht', hstop⟩ := h.ends tree htree span hspan
      exact ⟨⟨t, List.mem_append_left v ht, hstart⟩, t', List.mem_append_left v ht', hstop⟩
    · obtain ⟨⟨t, ht, hstart⟩, t', ht', hstop⟩ := h'.ends tree htree span hspan
      exact ⟨⟨t, List.mem_append_right u ht, hstart⟩, t', List.mem_append_right u ht', hstop⟩
  · refine List.pairwise_append.2 ⟨h.inOrder hw.left, h'.inOrder hw.right, fun a ha b hb => ?_⟩
    obtain ⟨t, ht, hstop⟩ := h.exists_stop ha
    obtain ⟨t', ht', hstart⟩ := h'.exists_start hb
    rw [← hstop, ← hstart]
    exact hw.stop_le_start ht ht'
  · rcases List.mem_append.1 htree with htree | htree
    · exact h.nested hw.left tree htree
    · exact h'.nested hw.right tree htree

theorem after (h : Fits trees w) (u : List Token) : Fits trees (u ++ w) := (nil u).append h

theorem before (h : Fits trees w) (v : List Token) : Fits trees (w ++ v) := by
  simpa using h.append (nil v)

theorem cons (h : Fits trees w) (t : Token) : Fits trees (t :: w) := h.after [t]

/-- A token may stand between them, such as a comma. -/
theorem append_cons (h : Fits trees u) (h' : Fits parts v) (t : Token) :
    Fits (trees ++ parts) (u ++ t :: v) :=
  h.append (h'.cons t)

/-- Some of the trees may be left out. -/
theorem sublist (h : Fits trees w) (hsub : parts.Sublist trees) : Fits parts w :=
  ⟨fun tree htree => h.ends tree (hsub.subset htree), fun hw => (h.inOrder hw).sublist hsub,
    fun hw tree htree => h.nested hw tree (hsub.subset htree)⟩

/-! #### Nodes above trees -/

/-- A node above trees, whose span begins and ends with tokens and has the trees within. -/
theorem enclose (h : Fits parts w) (hstart : ∃ t ∈ w, t.span.start = start)
    (hstop : ∃ t ∈ w, t.span.stop = stop)
    (hspan : Ordered w → start.offset ≤ stop.offset ∧ ∀ p ∈ parts, Within p.span ⟨start, stop⟩) :
    Fits [.node ⟨start, stop⟩ parts] w := by
  refine ⟨?_, fun _ => List.pairwise_singleton _ _, fun hw => ?_⟩
  · refine List.forall_mem_singleton.2 fun span hholds => ?_
    cases hholds with
    | self => exact ⟨hstart, hstop⟩
    | inside hp hholds => exact h.ends _ hp span hholds
  · obtain ⟨hle, hwithin⟩ := hspan hw
    exact List.forall_mem_singleton.2 (.node hle hwithin (h.inOrder hw) (h.nested hw))

/-- The span ends with the tokens. -/
theorem node (h : Fits parts w) (hstart : StartsAt start parts w) (hstop : stopOf? w = some stop) :
    Fits [.node ⟨start, stop⟩ parts] w := by
  refine h.enclose hstart.exists_token (exists_of_stopOf? hstop) fun hw => ⟨?_, fun p hp => ?_⟩
  · obtain ⟨t, ht, rfl⟩ := hstart.exists_token
    exact Nat.le_trans (hw.start_le_stop t ht) (hw.le_stop hstop ht)
  · exact ⟨hstart.le hw p hp, h.stop_le hw hstop hp⟩

/-- The span ends with the last tree. -/
theorem node_last (parts : List SpanTree) (h : Fits (parts ++ [p]) w)
    (hstart : StartsAt start (parts ++ [p]) w) :
    Fits [.node ⟨start, p.span.stop⟩ (parts ++ [p])] w := by
  have hmem : p ∈ parts ++ [p] := List.mem_append_right parts List.mem_cons_self
  refine h.enclose hstart.exists_token (h.exists_stop hmem) fun hw => ?_
  have hp := (h.nested hw p hmem).start_le_stop
  refine ⟨Nat.le_trans (hstart.le hw p hmem) hp, fun q hq => ⟨hstart.le hw q hq, ?_⟩⟩
  rcases List.mem_append.1 hq with hq | hq
  · have hle := (List.pairwise_append.1 (h.inOrder hw)).2.2 q hq p List.mem_cons_self
    exact Nat.le_trans hle hp
  · obtain rfl := List.mem_singleton.1 hq
    exact Nat.le_refl _

/-- An expression of one token has its span. -/
theorem leaf (t : Token) : Fits [.node t.span []] [t] := by
  refine (nil [t]).enclose ⟨t, List.mem_cons_self, rfl⟩ ⟨t, List.mem_cons_self, rfl⟩ fun hw => ?_
  exact ⟨hw.start_le_stop t List.mem_cons_self, by simp⟩

/-! #### Where a node begins -/

/-- It begins with the tokens. -/
theorem startsAt (h : Fits parts w) (hstart : startOf? w = some start) :
    StartsAt start parts w := by
  refine ⟨exists_of_startOf? hstart, fun hw p hp => ?_⟩
  obtain ⟨t, ht, hp⟩ := h.exists_start hp
  rw [← hp]
  exact hw.start_le hstart ht

/-- It begins with the first tree. -/
theorem startsAt_first (h : Fits (p :: parts) w) : StartsAt p.span.start (p :: parts) w := by
  refine ⟨h.exists_start List.mem_cons_self, fun hw q hq => ?_⟩
  rcases List.mem_cons.1 hq with rfl | hq
  · exact Nat.le_refl _
  · have hp := (h.nested hw p List.mem_cons_self).start_le_stop
    exact Nat.le_trans hp (List.rel_of_pairwise_cons (h.inOrder hw) hq)

/-- Nothing is left of a first tree but the place where it began. -/
theorem node_dropped (h : Fits (p :: trees) w) (hsub : parts.Sublist trees)
    (hstop : stopOf? w = some stop) : Fits [.node ⟨p.span.start, stop⟩ parts] w := by
  have hsub' : parts.Sublist (p :: trees) := hsub.cons p
  exact (h.sublist hsub').node (h.startsAt_first.sublist hsub') hstop

/-- A node is replaced by the trees below it. -/
theorem unwrap (h : Fits (.node span trees :: parts) w) : Fits (trees ++ parts) w := by
  have hrest := h.sublist (List.sublist_cons_self _ _)
  refine ⟨fun tree htree span' hspan' => ?_, fun hw => ?_, fun hw tree htree => ?_⟩
  · rcases List.mem_append.1 htree with htree | htree
    · exact h.ends _ List.mem_cons_self span' (.inside htree hspan')
    · exact hrest.ends tree htree span' hspan'
  · obtain ⟨-, hwithin, hinOrder, -⟩ := h.nested hw _ List.mem_cons_self
    refine List.pairwise_append.2 ⟨hinOrder, hrest.inOrder hw, fun a ha b hb => ?_⟩
    exact Nat.le_trans (hwithin a ha).2 (List.rel_of_pairwise_cons (h.inOrder hw) hb)
  · rcases List.mem_append.1 htree with htree | htree
    · obtain ⟨-, -, -, hnested⟩ := h.nested hw _ List.mem_cons_self
      exact hnested tree htree
    · exact hrest.nested hw tree htree

/-- It begins where a node began that was replaced. -/
theorem startsAt_unwrap (h : Fits (.node span trees :: parts) w) :
    StartsAt span.start (trees ++ parts) w := by
  refine ⟨h.exists_start (p := .node span trees) List.mem_cons_self, fun hw p hp => ?_⟩
  rcases List.mem_append.1 hp with hp | hp
  · obtain ⟨-, hwithin, -, -⟩ := h.nested hw _ List.mem_cons_self
    exact (hwithin p hp).1
  · exact h.startsAt_first.le hw p (List.mem_cons_of_mem _ hp)

end Fits

/-! ### Lists -/

section

variable {tree : α → SpanTree} {parts : List (α × List Token)} {as : List α} {w : List Token}

/-- By induction on the series, whose commas belong to no part. -/
theorem Series.fits (h : Series parts as w) (hparts : ∀ p ∈ parts, Fits [tree p.1] p.2) :
    Fits (as.map tree) w := by
  induction h with
  | one => exact hparts _ List.mem_cons_self
  | @more parts a as w v c _ _ ih =>
    obtain ⟨ha, hrest⟩ := List.forall_mem_cons.1 hparts
    exact Fits.append_cons ha (ih hrest) c

/-- The same, where a comma may come last. -/
theorem Items.fits (h : Items parts as w) (hparts : ∀ p ∈ parts, Fits [tree p.1] p.2) :
    Fits (as.map tree) w := by
  induction h with
  | nil => exact .nil []
  | last => exact hparts _ List.mem_cons_self
  | @more parts a as w v c _ _ ih =>
    obtain ⟨ha, hrest⟩ := List.forall_mem_cons.1 hparts
    exact Fits.append_cons ha (ih hrest) c

theorem Parens.fits (h : Parens parts as w) (hparts : ∀ p ∈ parts, Fits [tree p.1] p.2) :
    Fits (as.map tree) w := by
  cases h with
  | @mk v o c _ hitems _ => exact ((hitems.fits hparts).before [c]).cons o

theorem Angles.fits (h : Angles parts as w) (hparts : ∀ p ∈ parts, Fits [tree p.1] p.2) :
    Fits (as.map tree) w := by
  cases h with
  | none => exact .nil []
  | @some _ _ v o c _ hseries _ => exact ((hseries.fits hparts).before [c]).cons o

/-- What is read one after another lies so. -/
theorem Each.fits (h : Each (fun a w => Fits [tree a] w) as w) : Fits (as.map tree) w := by
  induction h with
  | nil => exact .nil []
  | cons ha _ ih => exact Fits.append ha ih

end

/-! ### Types and expressions -/

/-- A type ends with its last suffix, or with its arguments or its name. -/
theorem TypeSpells.fits {type : TypeRef} {w : List Token} (h : TypeSpells type w) :
    Fits [type.spanTree] w := by
  induction h with
  | @mk type parts d a v hlayout _ ih =>
    have hfits := ((hlayout.arguments.fits ih).after d).before v
    rw [TypeRef.spanTree_eq]
    refine hfits.node (hfits.startsAt ?_) hlayout.stop
    rw [startOf?_append, startOf?_append, hlayout.start]
    rfl

/-- By induction on the spelling. Each constructor says between which tokens its node lies. -/
theorem fits_of_spells {e : Expr} {w : List Token} (h : Spells e w) : Fits [e.spanTree] w := by
  induction h with
  | identifier | number | string | boolean | null | this | base => exact .leaf _
  | group _ _ _ ih => exact (ih.before _).cons _
  | @unary m w op e _ _ ih =>
    have hfits := ih.cons m
    have hnode := Fits.node_last [] hfits (hfits.startsAt (startOf?_cons m w))
    rwa [Expr.span_spanTree] at hnode
  | @binary m u v op left right _ _ _ hleft hright
  | @assign m u v op left right _ _ _ hleft hright =>
    have hfits := hleft.append_cons hright m
    have hnode := Fits.node_last [left.spanTree] hfits hfits.startsAt_first
    rwa [Expr.span_spanTree, Expr.span_spanTree] at hnode
  | @update m u op left _ _ ih =>
    have hfits := ih.before [m]
    have hnode := hfits.node hfits.startsAt_first (stopOf?_concat u m)
    rwa [Expr.span_spanTree] at hnode
  | @call u v parts left arguments stop _ _ hparens hstop hleft hparts =>
    have hfits := hleft.append (hparens.fits hparts)
    have hnode := hfits.node hfits.startsAt_first (by rw [stopOf?_append, hstop]; rfl)
    rw [Expr.span_spanTree] at hnode
    rwa [Expr.spanTree, Expr.spanTrees_eq_map]
  | @member d n u left _ _ _ ih =>
    have hfits := ih.append_cons (.leaf n) d
    have hstop : stopOf? (u ++ [d, n]) = some n.span.stop := by
      rw [stopOf?_append]
      rfl
    have hnode := hfits.node hfits.startsAt_first hstop
    rwa [Expr.span_spanTree] at hnode
  | @domProperty d n u left _ _ _ ih =>
    have hfits := ih.before [d, n]
    have hstop : stopOf? (u ++ [d, n]) = some n.span.stop := by
      rw [stopOf?_append]
      rfl
    have hnode := hfits.node hfits.startsAt_first hstop
    rwa [Expr.span_spanTree] at hnode
  | @index o c u v left key _ _ _ _ hleft hkey =>
    have hfits := hleft.append_cons (hkey.before [c]) o
    have hstop : stopOf? (u ++ o :: (v ++ [c])) = some c.span.stop := by
      rw [stopOf?_append, stopOf?_cons_concat]
      rfl
    have hnode := hfits.node hfits.startsAt_first hstop
    rwa [Expr.span_spanTree] at hnode
  | @create n u v parts type arguments stop _ htype _ hparens hstop hparts =>
    have hfits := (htype.fits.append (hparens.fits hparts)).cons n
    have hnode := hfits.node (hfits.startsAt (startOf?_cons _ _))
      (by rw [← List.cons_append, stopOf?_append, hstop]; rfl)
    rwa [Expr.spanTree, Expr.spanTrees_eq_map]
  | @domCreate n u v parts name arguments stop _ _ _ hparens hstop hparts =>
    have hfits := ((hparens.fits hparts).after u).cons n
    have hnode := hfits.node (hfits.startsAt (startOf?_cons _ _))
      (by rw [← List.cons_append, stopOf?_append, hstop]; rfl)
    rwa [Expr.spanTree, Expr.spanTrees_eq_map]
  | @domCall u v parts object name span arguments stop _ _ hparens hstop hproperty hparts =>
    -- The property that is called gives way to its object.
    have hfits := hproperty.append (hparens.fits hparts)
    have hnode := hfits.unwrap.node hfits.startsAt_unwrap (by rw [stopOf?_append, hstop]; rfl)
    rwa [Expr.spanTree, Expr.spanTrees_eq_map]
  | hostCall _ _ hparens hstop hcallee hparts =>
    -- Nothing is left of the callee, and the path has no node.
    have hfits := hcallee.append (hparens.fits hparts)
    have hnode := hfits.node_dropped (List.sublist_cons_self _ _)
      (by rw [stopOf?_append, hstop]; rfl)
    rwa [Expr.spanTree, Expr.spanTrees_eq_map]
  | hostSet _ _ hparens hstop hcallee hparts =>
    have hfits := hcallee.append (hparens.fits hparts)
    exact hfits.node_dropped (.refl _) (by rw [stopOf?_append, hstop]; rfl)

end Parse

end ClassScript
