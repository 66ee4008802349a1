import ClassScript.Proofs.Parse.DomMembers
import ClassScript.Proofs.Parse.Nesting
import ClassScript.Proofs.Token.Neighbours

/-!
# The token that declares a name

A class is named by the token after `class`, a member by the token after its type, and a
constructor by the first token after its modifiers; a call of the base class's constructor is
named by `base`, after a colon. `NamedBy x front n rest` says that the tokens of `x` are `front`,
the token `n` of its name, and `rest`, which goes on with a punctuator. The span of `x` runs from
the first of these tokens to the last. Everything that a class declares has such tokens
(`named_classDecl`).
-/

namespace ClassScript

/-- The type that stands before the name of a member; a constructor has none. -/
def Member.type? : Member → Option TypeRef
  | .method m => some m.returnType
  | .property p => some p.type
  | .field f => some f.type
  | .constructor _ => none

/-- The call of the base class's constructor that a constructor begins with. -/
def Member.baseCall? : Member → Option ConstructorChain
  | .constructor k => k.chain.filter (·.target = .base)
  | _ => none

/-- What the checks can report on. -/
inductive Subject where
  | classDecl (c : ClassDecl)
  | member (m : Member)
  | baseCall (chain : ConstructorChain)

namespace Subject

/-- The word that names the subject. -/
def name : Subject → String
  | .classDecl c => c.name
  | .member m => m.name
  | .baseCall _ => "base"

/-- The span that the subject was read from. -/
def span : Subject → Span
  | .classDecl c => c.span
  | .member m => m.span
  | .baseCall chain => chain.span

/-- The kind of the token that names the subject. -/
def nameKind : Subject → Kind
  | .baseCall _ => .kwBase
  | _ => .identifier

end Subject

/-- A member and the call it begins with. -/
def Member.subjects (m : Member) : List Subject :=
  .member m :: m.baseCall?.toList.map .baseCall

/-- A class and what it declares. -/
def ClassDecl.subjects (c : ClassDecl) : List Subject :=
  .classDecl c :: c.members.flatMap Member.subjects

namespace Parse

/-! ### Names and what is around them -/

/-- The tokens are modifiers. -/
def Marks (w : List Token) : Prop := ∀ t ∈ w, t.kind.isModifier = true

/-- What stands before the name of a subject. -/
inductive Leads : Subject → List Token → Prop
  | classDecl {c : ClassDecl} {marks : List Token} {k : Token} : Marks marks → k.kind = .kwClass →
      Leads (.classDecl c) (marks ++ [k])
  | typed {m : Member} {type : TypeRef} {marks w : List Token} : Marks marks →
      m.type? = some type → TypeSpells type w → Leads (.member m) (marks ++ w)
  | constructor {k : Constructor} {marks : List Token} : Marks marks →
      Leads (.member (.constructor k)) marks
  | baseCall {chain : ConstructorChain} {colon : Token} : colon.kind = .colon →
      Leads (.baseCall chain) [colon]

/-- The tokens of a subject are `front`, its name `n` and `rest`. -/
structure NamedBy (x : Subject) (front : List Token) (n : Token) (rest : List Token) : Prop where
  leads : Leads x front
  kind : n.kind = x.nameKind
  text : n.kind = .identifier → n.text = x.name
  next : ∃ q r, rest = q :: r ∧ q.kind.isPunctuator = true
  start : startOf? (front ++ n :: rest) = some x.span.start
  stop : stopOf? (front ++ n :: rest) = some x.span.stop

/-- The tokens of a subject stand somewhere in `w`. -/
def NamedIn (x : Subject) (w : List Token) : Prop :=
  ∃ front n rest, front ++ n :: rest <:+: w ∧ NamedBy x front n rest

section

variable {K : Kind → Prop} {marks u w v : List Token} {n : Token}

/-- Tokens in a part are tokens of the whole. -/
theorem NamedIn.widen {x : Subject} (h : NamedIn x w) (hw : w <:+: v) : NamedIn x v := by
  obtain ⟨front, n, rest, hwithin, hnamed⟩ := h
  exact ⟨front, n, rest, hwithin.trans hw, hnamed⟩

theorem NamedBy.namedIn {x : Subject} {front rest : List Token} (h : NamedBy x front n rest) :
    NamedIn x (front ++ n :: rest) :=
  ⟨front, n, rest, List.infix_rfl, h⟩

/-! ### Kinds of tokens before a name -/

theorem isWord_of_isModifier {c : Kind} (h : c.isModifier = true) : c.isWord = true := by
  cases c <;> first | rfl | cases h

/-- The tokens are words and punctuators. -/
def Spelled (w : List Token) : Prop := ∀ t ∈ w, t.kind.isSpelled = true

theorem Spelled.append (hw : Spelled w) (hv : Spelled v) : Spelled (w ++ v) :=
  List.forall_mem_append.2 ⟨hw, hv⟩

/-- Another word or punctuator. -/
theorem Spelled.cons (hn : n.kind.isSpelled = true) (hw : Spelled w) : Spelled (n :: w) :=
  List.forall_mem_cons.2 ⟨hn, hw⟩

theorem spelled_nil : Spelled [] := List.forall_mem_nil _

theorem NameTokens.spelled {text : String} (h : NameTokens text w) : Spelled w := by
  have hpoints {start text : String} {ts : List Token} (h : Points start ts text) :
      Spelled ts := by
    induction h with
    | nil => exact spelled_nil
    | cons hd hn _ ih => exact .cons (by rw [hd]; rfl) (.cons (by rw [hn]; rfl) ih)
  cases h with
  | mk hn hrest => exact .cons (by rw [hn]; rfl) (hpoints hrest)

theorem Suffixes.spelled (h : Suffixes w) : Spelled w := by
  induction h with
  | nil => exact spelled_nil
  | nullable ht _ ih => exact .cons (by rw [ht]; rfl) ih
  | array ho hc _ ih => exact .cons (by rw [ho]; rfl) (.cons (by rw [hc]; rfl) ih)

/-- The commas of a series are punctuators. -/
theorem Series.spelled {α : Type} {parts : List (α × List Token)} {as : List α}
    (h : Series parts as w) (hparts : ∀ p ∈ parts, Spelled p.2) : Spelled w := by
  induction h with
  | one => exact hparts _ List.mem_cons_self
  | more hc _ ih =>
    obtain ⟨hfirst, hrest⟩ := List.forall_mem_cons.1 hparts
    exact hfirst.append (.cons (by rw [hc]; rfl) (ih hrest))

/-- So are angle brackets. -/
theorem Angles.spelled {α : Type} {parts : List (α × List Token)} {as : List α}
    (h : Angles parts as w) (hparts : ∀ p ∈ parts, Spelled p.2) : Spelled w := by
  cases h with
  | none => exact spelled_nil
  | some ho hseries hc =>
    refine .cons (by rw [ho]; rfl) ((hseries.spelled hparts).append ?_)
    exact .cons (by rw [hc]; rfl) spelled_nil

/-- Only words and punctuators spell a type. -/
theorem TypeSpells.spelled {type : TypeRef} (h : TypeSpells type w) : Spelled w := by
  induction h with
  | mk hlayout _ ih =>
    have hname := hlayout.name.spelled
    exact (hname.append (hlayout.arguments.spelled ih)).append hlayout.suffixes.spelled

theorem Marks.spelled (h : Marks w) : Spelled w := fun t ht => by
  rw [Kind.isSpelled, isWord_of_isModifier (h t ht)]
  rfl

/-- What stands before a name has no numbers and no strings. -/
theorem Leads.spelled {x : Subject} (h : Leads x w) : Spelled w := by
  cases h with
  | classDecl hmarks hk => exact hmarks.spelled.append (.cons (by rw [hk]; rfl) spelled_nil)
  | typed hmarks _ htype => exact hmarks.spelled.append htype.spelled
  | constructor hmarks => exact hmarks.spelled
  | baseCall hcolon => exact .cons (by rw [hcolon]; rfl) spelled_nil

/-! ### Reading members -/

/-- All tokens that are read as modifiers are some. -/
theorem marks_modifiers : Takes K (fun _ => Marks) modifiers := by
  have hmark : Takes (fun c => c.isModifier = true) (fun t w => w = [t] ∧ t.kind.isModifier = true)
      advance := Takes.advance fun c hc heof => by rw [heof] at hc; cases hc
  refine (Takes.many (fun _ => rfl) hmark).bind fun ts w h => .pure ?_
  rw [List.append_nil]
  induction h with
  | nil => exact List.forall_mem_nil _
  | cons ht _ ih =>
    obtain ⟨rfl, ht⟩ := ht
    exact List.forall_mem_cons.2 ⟨ht, ih⟩

/-- The word after the colon names the call, if it is `base`. -/
theorem named_constructorChain :
    Takes K (fun chain w => ∀ c ∈ chain, c.target = .base → NamedIn (.baseCall c) w)
      constructorChain := by
  refine .of_after (.kind fun c => ?_)
  split
  · exact .pure nofun
  · rename_i hcolon
    have hcolon := Classical.not_not.1 hcolon
    refine .advance (by rintro _ rfl; simp [hcolon]) fun t ht => ?_
    have hrest (target : ChainTarget) {c : Kind} (hc : c ≠ .eof)
        (htarget : target = .base → c = .kwBase) :
        TakesAfter [t] (· = c)
          (fun (chain : Option ConstructorChain) w =>
            ∀ k ∈ chain, k.target = .base → NamedIn (.baseCall k) w) (do
          let _ ← advance
          let arguments ← arguments expr
          return some (ConstructorChain.mk target arguments (← spanFrom t.span.start))) := by
      refine .advance (by rintro _ rfl; exact hc) fun b hb => ?_
      refine .bind (spells_arguments fun power _ => spells_expr power) (runs_arguments runs_expr)
        fun arguments w harguments => ?_
      obtain ⟨stop, hstop⟩ := exists_stopOf? (w := [t] ++ [b] ++ w) (by simp)
      refine .spanFrom hstop (.pure ?_)
      rintro k ⟨⟩ hbase
      obtain ⟨parts, -, hparens⟩ := harguments
      have hkind : b.kind = .kwBase := hb.trans (htarget hbase)
      refine ⟨[t], b, w, List.infix_rfl, .baseCall (ht.trans hcolon), hkind, ?_, ?_, rfl, hstop⟩
      · rw [hkind]
        exact nofun
      · cases hparens with
        | mk ho _ _ => exact ⟨_, _, rfl, by rw [ho]; rfl⟩
    refine .kind fun c => ?_
    simp only [pure_bind]
    split
    · exact hrest .base (by decide) fun _ => rfl
    · exact hrest .this (by decide) nofun
    · exact .fail _

/-- If what was read begins at `start`, it holds the names that the member declares. -/
def NamedFrom (start : Position) (k : Member) (w : List Token) : Prop :=
  (w ≠ [] → startOf? w = some start) → ∀ x ∈ k.subjects, NamedIn x w

/-- A constructor is named by its first token. -/
theorem named_constructor (hmarks : Marks marks) (m : Modifiers) (start : Position) :
    TakesAfter marks K (NamedFrom start) (constructor m start) := by
  refine .expect (by decide) fun n hn => ?_
  refine .bind takes_parameters runs_parameters fun ps u hps => ?_
  refine .bind named_constructorChain (.of_rule fun hP => hP.constructorChain)
    fun chain v hchain => ?_
  refine .bind (.of_runs runs_block) runs_block fun body w _ => ?_
  obtain ⟨stop, hstop⟩ := exists_stopOf? (w := marks ++ [n] ++ u ++ v ++ w) (by simp)
  refine .spanFrom hstop (.pure fun hstart => ?_)
  have hsplit : marks ++ [n] ++ u ++ v ++ w = marks ++ n :: (u ++ v ++ w) := by simp
  rw [hsplit] at hstop hstart ⊢
  refine List.forall_mem_cons.2 ⟨?_, ?_⟩
  · refine NamedBy.namedIn ⟨.constructor hmarks, hn, fun _ => rfl, ?_, hstart (by simp), hstop⟩
    obtain ⟨-, o, u', rfl, ho⟩ := hps
    exact ⟨o, u' ++ v ++ w, by simp, by rw [ho]; rfl⟩
  · intro x hx
    simp only [Member.baseCall?, List.mem_map, Option.mem_toList] at hx
    obtain ⟨c, hc, rfl⟩ := hx
    obtain ⟨hc, hbase⟩ := Option.filter_eq_some_iff.1 hc
    refine (hchain c hc (by simpa using hbase)).widen ⟨marks ++ n :: u, w, by simp⟩

section

variable {type : TypeRef} (hmarks : Marks marks) (htype : TypeSpells type v)
  (hn : n.kind = .identifier) (start : Position)

include hmarks htype hn

/-- A member with a type, of which all has been read. -/
theorem namedFrom_typed {k : Member} {stop : Position} {rest : List Token}
    (hk : k.type? = some type) (hname : k.name = n.text) (hspan : k.span = ⟨start, stop⟩)
    (hnext : ∃ q r, rest = q :: r ∧ q.kind.isPunctuator = true)
    (hstop : stopOf? (marks ++ v ++ [n] ++ rest) = some stop) :
    NamedFrom start k (marks ++ v ++ [n] ++ rest) := by
  intro hstart
  rw [List.append_assoc _ [n], List.singleton_append] at hstart hstop ⊢
  have hmember : NamedBy (.member k) (marks ++ v) n rest :=
    ⟨.typed hmarks hk htype, hn, fun _ => hname.symm, hnext,
      by rw [hstart (by simp)]; exact congrArg (some ·.start) hspan.symm,
      by rw [hstop]; exact congrArg (some ·.stop) hspan.symm⟩
  have hsubjects : k.subjects = [.member k] := by
    cases k with
    | constructor => cases hk
    | method | property | field => rfl
  rw [hsubjects]
  exact List.forall_mem_singleton.2 hmember.namedIn

/-- A method is named by the token before its parameters. -/
theorem named_method (m : Modifiers) :
    TakesAfter (marks ++ v ++ [n]) K (NamedFrom start) (method m type n.text start) := by
  refine .bind takes_parameters runs_parameters fun ps u hps => ?_
  have hbody : Runs (methodBody type.isVoid) := .of_rule fun hP => hP.methodBody _
  refine .bind (.of_runs hbody) hbody fun body w _ => ?_
  obtain ⟨stop, hstop⟩ := exists_stopOf? (w := marks ++ v ++ [n] ++ u ++ w) (by simp)
  refine .spanFrom hstop (.pure ?_)
  rw [List.append_assoc _ u] at hstop ⊢
  refine namedFrom_typed hmarks htype hn start rfl rfl rfl ?_ hstop
  obtain ⟨-, o, u', rfl, ho⟩ := hps
  exact ⟨o, u' ++ w, rfl, by rw [ho]; rfl⟩

/-- A property is named by the token before its accessors. -/
theorem named_property (m : Modifiers) :
    TakesAfter (marks ++ v ++ [n]) K (NamedFrom start) (property m type n.text start) := by
  have haccessors : Runs (many beforeCloseCurly accessor) :=
    .of_rule fun hP => hP.many hP.accessor
  refine .expect (by decide) fun o ho => .bind (.of_runs haccessors) haccessors fun _ w _ => ?_
  refine .expect (by decide) fun c _ => ?_
  refine .bind (.of_runs runs_initialValue) runs_initialValue fun value u _ => ?_
  have hnext (rest : List Token) : ∃ q r, o :: rest = q :: r ∧ q.kind.isPunctuator = true :=
    ⟨o, rest, rfl, by rw [ho]; rfl⟩
  refine .ite (.expect (by decide) fun d _ => ?_) ?_
  · refine .spanFrom (stopOf?_concat _ _) (.pure ?_)
    have hsplit : marks ++ v ++ [n] ++ [o] ++ w ++ [c] ++ u ++ [d] =
        marks ++ v ++ [n] ++ o :: (w ++ [c] ++ u ++ [d]) := by simp
    have hstop := stopOf?_concat (marks ++ v ++ [n] ++ [o] ++ w ++ [c] ++ u) d
    rw [hsplit] at hstop ⊢
    exact namedFrom_typed hmarks htype hn start rfl rfl rfl (hnext _) hstop
  · obtain ⟨stop, hstop⟩ := exists_stopOf? (w := marks ++ v ++ [n] ++ [o] ++ w ++ [c] ++ u)
      (by simp)
    refine .spanFrom hstop (.pure ?_)
    have hsplit : marks ++ v ++ [n] ++ [o] ++ w ++ [c] ++ u =
        marks ++ v ++ [n] ++ o :: (w ++ [c] ++ u) := by simp
    rw [hsplit] at hstop ⊢
    exact namedFrom_typed hmarks htype hn start rfl rfl rfl (hnext _) hstop

/-- A field is named by the token before its value or its semicolon. -/
theorem named_field (m : Modifiers) :
    TakesAfter (marks ++ v ++ [n]) K (NamedFrom start) (field m type n.text start) := by
  refine .bind takes_initialValue runs_initialValue fun value u hu => ?_
  refine .expect (by decide) fun c hc => .spanFrom (stopOf?_concat _ _) (.pure ?_)
  have hstop := stopOf?_concat (marks ++ v ++ [n] ++ u) c
  rw [List.append_assoc _ u] at hstop ⊢
  refine namedFrom_typed hmarks htype hn start rfl rfl rfl ?_ hstop
  rcases hu with ⟨-, rfl⟩ | ⟨e, t, u', -, rfl, ht, -⟩
  · exact ⟨c, [], rfl, by rw [hc]; rfl⟩
  · exact ⟨t, u' ++ [c], rfl, by rw [ht]; rfl⟩

end

/-- The tokens of a member hold those of its base call. -/
theorem named_classMember (className : String) :
    Takes K (fun k w => ∀ x ∈ k.subjects, NamedIn x w) (classMember className) := by
  refine .of_after (.position fun start => ?_)
  refine .bind marks_modifiers runs_modifiers fun m u hmarks => .modifyScope (.get fun _ => ?_)
  refine .ite (named_constructor hmarks m start) ?_
  refine .bind (spells_typeRef .default) (runs_typeRef _) fun type v htype => ?_
  refine .expectDescribed (by decide) fun n hn => .kind fun c => ?_
  split
  · exact named_method hmarks htype hn start m
  · exact named_property hmarks htype hn start m
  · exact named_field hmarks htype hn start m
  · exact named_field hmarks htype hn start m
  · exact .fail _

/-! ### Classes -/

/-- The names of base classes stand behind a colon, if there are any. -/
theorem colon_baseNames :
    Takes K (fun _ w => w = [] ∨ ∃ t r, w = t :: r ∧ t.kind = .colon) baseNames := by
  have hruns : Runs (commaSeparated (typeRef .default)) := .commaSeparated (runs_typeRef _)
  refine .of_after (.accept (by decide) (fun t ht => ?_) (.pure (.inl rfl)))
  exact .bind (.of_runs hruns) hruns fun _ w _ => .pure (.inr ⟨t, w, rfl, ht⟩)

/-- The tokens of the members stand one after another in those of the class. -/
theorem namedIn_of_each {members : List Member}
    (h : Each (fun k w => ∀ x ∈ k.subjects, NamedIn x w) members w) :
    ∀ x ∈ members.flatMap Member.subjects, NamedIn x w := by
  induction h with
  | nil => exact List.forall_mem_nil _
  | @cons k ks w ws hk _ ih =>
    rw [List.flatMap_cons]
    refine List.forall_mem_append.2 ⟨fun x hx => ?_, fun x hx => ?_⟩
    · exact (hk x hx).widen (List.prefix_append w ws).isInfix
    · exact (ih x hx).widen (List.suffix_append w ws).isInfix

/-- All that a class declares is named in its tokens. -/
theorem named_classDecl : Takes K (fun c w => ∀ x ∈ c.subjects, NamedIn x w) classDecl := by
  refine .of_after (.position fun start => ?_)
  refine .bind marks_modifiers runs_modifiers fun m marks hmarks => ?_
  refine .expect (by decide) fun t ht => .expectDescribed (by decide) fun n hn => ?_
  refine .bind colon_baseNames (.of_rule fun hP => hP.baseNames) fun bases v hv => ?_
  refine .expect (by decide) fun o ho => .after (.nothing fun _ => rfl) (.beginClass _) fun _ => ?_
  have hmembers : Takes (fun _ => True) (Each fun k w => ∀ x ∈ k.subjects, NamedIn x w)
      (many beforeCloseCurly (classMember n.text)) :=
    Takes.many (m := fun c => c ≠ .eof && c ≠ .closeCurly) (fun _ => rfl) (named_classMember _)
  refine .bind hmembers (runs_classMember _).many fun members w hmembers => ?_
  refine .expect (by decide) fun c _ => .modifyScope ?_
  refine .spanFrom (stopOf?_concat _ _) (.pure fun hstart => ?_)
  have hstop := stopOf?_concat (marks ++ [t] ++ [n] ++ v ++ [o] ++ w) c
  have hsplit : marks ++ [t] ++ [n] ++ v ++ [o] ++ w ++ [c] =
      marks ++ [t] ++ n :: (v ++ [o] ++ w ++ [c]) := by simp
  rw [List.nil_append, hsplit] at hstart
  rw [hsplit] at hstop
  rw [List.nil_append, hsplit]
  refine List.forall_mem_cons.2 ⟨?_, fun x hx => ?_⟩
  · refine NamedBy.namedIn ⟨.classDecl hmarks ht, hn, fun _ => rfl, ?_, hstart (by simp), hstop⟩
    rcases hv with rfl | ⟨q, r, rfl, hq⟩
    · exact ⟨o, w ++ [c], by simp, by rw [ho]; rfl⟩
    · exact ⟨q, r ++ [o] ++ w ++ [c], by simp, by rw [hq]; rfl⟩
  · exact (namedIn_of_each hmembers x hx).widen
      ⟨marks ++ [t] ++ n :: (v ++ [o]), [c], by simp⟩

end

end Parse

open Parse

/-- All that a unit declares is named in the tokens of its source. -/
theorem namedIn_of_compile {source : String} {unit : CompilationUnit} {tokens : List Token}
    (h : compile source = .ok unit) (htokens : tokenize source = .ok tokens) :
    ∀ c ∈ unit.classes, ∀ x ∈ c.subjects, NamedIn x tokens := by
  obtain ⟨tokens', u, htokens', hunit⟩ := compile_eq_ok_iff.1 h
  obtain rfl : tokens' = tokens := Except.ok.inj (htokens'.symm.trans htokens)
  intro c hc x hx
  obtain ⟨s, t, hsteps, hread⟩ := (readFrom_compilationUnit _).of_eq_ok hunit c hc
  have hs : s.Ended := hsteps.ended (ended_ofTokens tokens')
  have hclass := (named_classDecl (K := fun _ => True) s hs trivial).of_eq_ok hread
  obtain ⟨w, hw, hnamed⟩ := hclass
  have hsuffix := hsteps.tokens_suffix
  rw [ofTokens_tokens_of_tokenize htokens, hw] at hsuffix
  exact (hnamed x hx).widen ((List.prefix_append w _).isInfix.trans hsuffix.isInfix)

end ClassScript
