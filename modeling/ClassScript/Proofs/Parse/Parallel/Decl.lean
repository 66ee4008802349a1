import ClassScript.Proofs.Parse.Parallel.Expr

/-!
# How statements and declarations are read

The parsers from statements up to compilation units are built alike on both sides, as
those of expressions are.
-/

namespace ClassScript.Parse

variable {T : Token → Token → Prop} {K : Kind → Prop} {l : Level}

/-! ### Statements -/

/-- A statement is compared without its spans, like the expression in it. -/
theorem parallel_expressionStmt :
    Parallel T K l l (Stmt.rewrite .unlocating) expressionStmt expressionStmt := by
  refine .bind (parallel_expr _) fun e e' he => .bind (.expect rfl) fun _ _ _ => ?_
  refine .bind (.spanFrom () _ _) fun _ _ _ => .pure ?_
  simp [Stmt.rewrite, he]

theorem parallel_initialValue :
    Parallel T K l l (Option.map Expr.unlocated) initialValue initialValue := by
  refine .bind (.accept rfl) fun b b' hb => ?_
  obtain rfl : b = b' := hb
  split
  · exact .bind (parallel_expr _) fun e e' he => .pure (congrArg some he)
  · exact .pure rfl

/-- Whether a value makes an element does not depend on spans. -/
theorem makesElement_unlocated (value : Option Expr) :
    makesElement (value.map Expr.unlocated) = makesElement value := by
  cases value with
  | none => rfl
  | some e => cases e <;> rfl

/-- In both runs the same name is declared, and as the same sort of value. -/
theorem parallel_localStmt : Parallel T K l l (Stmt.rewrite .unlocating) localStmt localStmt := by
  refine .bind (.position ()) fun start start' _ => ?_
  refine .bind (parallel_typeRef _) fun type type' htype => ?_
  refine .bind (.described _ rfl) fun name name' hname => ?_
  refine .bind parallel_initialValue fun value value' hvalue => ?_
  refine .bind (.expect rfl) fun _ _ _ => ?_
  have htypeName : type.name = type'.name := by
    rw [← TypeRef.name_unlocated, htype, TypeRef.name_unlocated]
  have hmakes : makesElement value = makesElement value' := by
    rw [← makesElement_unlocated, hvalue, makesElement_unlocated]
  rw [htypeName, hmakes, text_eq hname]
  refine .bind (.modifyScope _) fun _ _ _ => .bind (.spanFrom () _ _) fun _ _ _ => .pure ?_
  simp [Stmt.rewrite, htype, hvalue]

section

variable {stmt : Parse Stmt}
  (hstmt : ∀ {l : Level}, Parallel T (fun _ => True) l l (Stmt.rewrite .unlocating) stmt stmt)

include hstmt

/-- A block leads to the number of open braces that it began with. -/
theorem parallel_blockOf :
    Parallel T K l l (Block.rewrite .unlocating) (blockOf stmt) (blockOf stmt) := by
  refine .bind (.openCurly _) fun _ _ _ => ?_
  refine .bind (.many (m := fun x => x ≠ .eof && x ≠ .closeCurly) (fun _ => rfl) hstmt.any)
    fun body body' hbody => ?_
  refine .bind .closeCurly fun _ _ _ => .bind (.spanFrom () _ _) fun _ _ _ => .pure ?_
  simp [Block.rewrite, Stmt.rewriteAll_eq_map, hbody]

theorem parallel_blockStmt :
    Parallel T K l l (Stmt.rewrite .unlocating) (blockStmt stmt) (blockStmt stmt) := by
  refine .bind (parallel_blockOf hstmt) fun b b' hb => .pure ?_
  obtain ⟨hbody, hspan⟩ := Block.mk.inj hb
  simp only [Stmt.rewrite, hbody, hspan]

omit hstmt in
/-- A semicolon tells both runs that there is no value. -/
theorem parallel_returnStmt :
    Parallel T K l l (Stmt.rewrite .unlocating) returnStmt returnStmt := by
  refine .bind (.expect rfl) fun mark mark' _ => .kind fun c => ?_
  have hrest (value value' : Option Expr)
      (hvalue : value.map Expr.unlocated = value'.map Expr.unlocated) :
      Parallel T (fun _ => True) l l (Stmt.rewrite .unlocating)
        (do let _ ← expect .semicolon; return .return value (← spanFrom mark.span.start))
        (do let _ ← expect .semicolon; return .return value' (← spanFrom mark'.span.start)) := by
    refine .bind (.expect rfl) fun _ _ _ => .bind (.spanFrom () _ _) fun _ _ _ => .pure ?_
    simp [Stmt.rewrite, hvalue]
  simp only [pure_bind, bind_map_left]
  split
  · exact (hrest none none rfl).any
  · exact .bind (parallel_expr _) fun e e' he => hrest (some e) (some e') (congrArg some he)

omit hstmt in
theorem parallel_condition : Parallel T K l l Expr.unlocated condition condition :=
  parallel_grouping parallel_expr

theorem parallel_ifStmt :
    Parallel T K l l (Stmt.rewrite .unlocating) (ifStmt stmt) (ifStmt stmt) := by
  refine .bind (.expect rfl) fun _ _ _ => .bind parallel_condition fun _ _ _ => ?_
  refine .bind hstmt fun _ _ _ => .bind (.accept rfl) fun b b' hb => ?_
  obtain rfl : b = b' := hb
  exact .optional hstmt (.bind (.spanFrom () _ _) fun _ _ _ => .pure rfl)

theorem parallel_whileStmt :
    Parallel T K l l (Stmt.rewrite .unlocating) (whileStmt stmt) (whileStmt stmt) := by
  refine .bind (.expect rfl) fun _ _ _ => .bind parallel_condition fun _ _ _ => ?_
  exact .bind hstmt fun _ _ _ => .bind (.spanFrom () _ _) fun _ _ _ => .pure rfl

omit hstmt in
/-- The scan ahead gives one answer in both runs. -/
theorem parallel_plainStmt :
    Parallel T K l l (Stmt.rewrite .unlocating) plainStmt plainStmt :=
  .choice .declaration parallel_localStmt parallel_expressionStmt

omit hstmt in
/-- What a loop's head reads and drops is dropped in both runs. -/
theorem parallel_optionalBefore {stop : Kind} (h : stop.isCurly = false) :
    Parallel T K l l (fun _ => ()) (optionalBefore stop) (optionalBefore stop) := by
  refine .kind fun c => ?_
  have hstop : Parallel T (fun _ => True) l l (fun _ => ())
      (do let _ ← expect stop) (do let _ ← expect stop) :=
    .bind (.expect h) fun _ _ _ => .pure rfl
  exact (Parallel.optional (parallel_expr _) hstop).any

theorem parallel_forStmt :
    Parallel T K l l (Stmt.rewrite .unlocating) (forStmt stmt) (forStmt stmt) := by
  refine .bind (.expect rfl) fun _ _ _ => .bind (.expect rfl) fun _ _ _ => ?_
  refine .bind (.accept rfl) fun b b' hb => ?_
  obtain rfl : b = b' := hb
  refine .optional parallel_plainStmt ?_
  refine .bind (parallel_optionalBefore rfl) fun _ _ _ => ?_
  refine .bind (parallel_optionalBefore rfl) fun _ _ _ => ?_
  exact .bind hstmt fun _ _ _ => .bind (.spanFrom () _ _) fun _ _ _ => .pure rfl

/-- The kind at hand chooses the statement in both runs. -/
theorem parallel_stmtOf :
    Parallel T K l l (Stmt.rewrite .unlocating) (stmtOf stmt) (stmtOf stmt) := by
  unfold stmtOf
  refine .kind fun c => ?_
  split
  · exact parallel_returnStmt
  · exact parallel_ifStmt hstmt
  · exact parallel_whileStmt hstmt
  · exact parallel_forStmt hstmt
  · exact parallel_blockStmt hstmt
  · exact parallel_plainStmt

end

/-- Statements are read in step, by induction on the levels that are left. -/
theorem parallel_stmtWithin (budget : Nat) :
    Parallel T K l l (Stmt.rewrite .unlocating) (stmtWithin budget) (stmtWithin budget) := by
  induction budget generalizing K l with
  | zero => exact .tooDeep
  | succ budget ih =>
    refine .bind .deepen fun _ _ _ => .bind (parallel_stmtOf ih) fun _ _ hs => ?_
    exact .bind .surface fun _ _ _ => .pure hs

theorem parallel_block : Parallel T K l l (Block.rewrite .unlocating) block block :=
  parallel_blockOf (.ask stmtWithin stmtWithin .budget fun budget => parallel_stmtWithin budget)

/-! ### Members -/

/-- No brace is a modifier. -/
theorem isModifier_isCurly {x : Kind} (h : x.isModifier = true) : x.isCurly = false := by
  cases x <;> first | rfl | cases h

/-- Modifiers are told by their kinds, and kept without a place. -/
theorem parallel_modifiers : Parallel T K l l id modifiers modifiers := by
  have hmark : Parallel T (fun x => x.isModifier = true) l l Token.kind advance advance := by
    rw [← bind_pure advance]
    exact .advance (fun _ => isModifier_isCurly) fun _ _ _ h => .pure (congrArg Lexeme.kind h)
  refine .bind (.many (fun _ => rfl) hmark) fun marks marks' hmarks => .pure ?_
  have hfold (ts : List Token) : ts.foldl (fun m t => Modifiers.add m t.kind) .empty =
      (ts.map Token.kind).foldl Modifiers.add .empty := by
    rw [List.foldl_map]
  rw [hfold, hmarks, ← hfold]

/-- In both runs the same name is declared, and as the same sort of value. -/
theorem parallel_parameter :
    Parallel T K l l (Parameter.rewrite .unlocating) parameter parameter := by
  refine .bind (.position ()) fun _ _ _ => .bind (parallel_typeRef _) fun type type' htype => ?_
  refine .bind (.described _ rfl) fun name name' hname => ?_
  refine .bind parallel_initialValue fun value value' hvalue => ?_
  have htypeName : type.name = type'.name := by
    rw [← TypeRef.name_unlocated, htype, TypeRef.name_unlocated]
  rw [htypeName, text_eq hname]
  refine .bind (.modifyScope _) fun _ _ _ => .bind (.spanFrom () _ _) fun _ _ _ => .pure ?_
  simp [Parameter.rewrite, htype, hvalue]

theorem parallel_parameters :
    Parallel T K l l (List.map (Parameter.rewrite .unlocating)) parameters parameters :=
  .bind (.expect rfl) fun _ _ _ => .bind (.commaList _ parallel_parameter) fun _ _ hps =>
    .bind (.described _ rfl) fun _ _ _ => .pure hps

/-- A colon begins the call of another constructor, or there is none. -/
theorem parallel_constructorChain :
    Parallel T K l l (Option.map (ConstructorChain.rewrite .unlocating)) constructorChain
      constructorChain := by
  have hrest (target : ChainTarget) (start start' : Position) {c : Kind} (hc : c.isCurly = false) :
      Parallel T (fun x => x = c) l l (Option.map (ConstructorChain.rewrite .unlocating))
        (do
          let _ ← advance
          let arguments ← arguments expr
          return some { target, arguments, span := ← spanFrom start })
        (do
          let _ ← advance
          let arguments ← arguments expr
          return some { target, arguments, span := ← spanFrom start' }) := by
    refine .advance (by rintro _ rfl; exact hc) fun _ _ _ _ => ?_
    refine .bind (parallel_arguments parallel_expr) fun es es' hes => ?_
    refine .bind (.spanFrom () _ _) fun _ _ _ => .pure ?_
    simp [ConstructorChain.rewrite, hes]
  unfold constructorChain
  refine .kind fun c => ?_
  split
  · exact .pure rfl
  · rename_i hcolon
    have hK : ∀ x, x = c → x.isCurly = false := by
      rintro _ rfl
      rw [Classical.not_not.1 hcolon]
      rfl
    refine .advance hK fun mark mark' _ _ => .kind fun c => ?_
    simp only [pure_bind, Parallel.fail_bind]
    split
    · exact hrest .base _ _ rfl
    · exact hrest .this _ _ rfl
    · exact .unexpected _

section

variable {m : Modifiers} {type type' : TypeRef} {name : String}
  (htype : type.unlocated = type'.unlocated) (start start' : Position)

theorem parallel_constructor :
    Parallel T K l l (Member.rewrite .unlocating) (constructor m start) (constructor m start') := by
  refine .bind (.expect rfl) fun name name' hname => ?_
  refine .bind parallel_parameters fun ps ps' hps => ?_
  refine .bind parallel_constructorChain fun chain chain' hchain => ?_
  refine .bind parallel_block fun body body' hbody => .bind (.spanFrom () _ _) fun _ _ _ => .pure ?_
  simp [Member.rewrite, Constructor.rewrite, text_eq hname, hps, hchain, hbody]

theorem parallel_expressionBody (isVoid : Bool) :
    Parallel T K l l (Block.rewrite .unlocating) (expressionBody isVoid)
      (expressionBody isVoid) := by
  refine .bind (.expect rfl) fun _ _ _ => .bind (parallel_expr _) fun e e' he => ?_
  refine .bind (.expect rfl) fun _ _ _ => .bind (.spanFrom () _ _) fun _ _ _ => .pure ?_
  cases isVoid <;>
    simp [Block.rewrite, Stmt.rewriteAll, Stmt.rewrite, he]

/-- A semicolon, an arrow or a brace decides about the body in both runs. -/
theorem parallel_methodBody (isVoid : Bool) :
    Parallel T K l l (Option.map (Block.rewrite .unlocating)) (methodBody isVoid)
      (methodBody isVoid) := by
  unfold methodBody
  refine .kind fun c => ?_
  split
  · exact .advance (by rintro _ rfl; rfl) fun _ _ _ _ => .pure rfl
  · exact .bind (parallel_expressionBody isVoid) fun _ _ hb => .pure (congrArg some hb)
  · exact .bind parallel_block fun _ _ hb => .pure (congrArg some hb)

include htype

theorem parallel_method :
    Parallel T K l l (Member.rewrite .unlocating) (method m type name start)
      (method m type' name start') := by
  have hvoid : type.isVoid = type'.isVoid := by
    rw [← TypeRef.isVoid_unlocated, htype, TypeRef.isVoid_unlocated]
  refine .bind parallel_parameters fun ps ps' hps => ?_
  rw [hvoid]
  refine .bind (parallel_methodBody _) fun body body' hbody => ?_
  refine .bind (.spanFrom () _ _) fun _ _ _ => .pure ?_
  simp [Member.rewrite, Method.rewrite, hps, hbody, htype]

omit htype in
/-- A block is passed over by counting its braces, and the count is the same in both runs. -/
theorem parallel_accessorBody : Parallel T K l l (fun _ => ()) accessorBody accessorBody := by
  unfold accessorBody
  refine .kind fun c => ?_
  split
  · exact .advance (by rintro _ rfl; rfl) fun _ _ _ _ => .pure rfl
  · exact .weaken (fun _ _ => trivial) (fun _ _ _ => rfl) .skipBraced
  · refine .advance (by rintro _ rfl; rfl) fun _ _ _ _ => ?_
    exact .bind (parallel_expr _) fun _ _ _ => .bind (.expect rfl) fun _ _ _ => .pure rfl
  · exact .unexpected _

omit htype in
/-- An accessor is told by the text of its name. -/
theorem parallel_accessor : Parallel T K l l id accessor accessor := by
  let rest (which? : Option Accessor) : Parse Accessor :=
    which?.elim (fail (·.unexpected "`get` or `set`")) fun which => do
      let _ ← advance
      accessorBody
      return which
  have hform : accessor = modifiers >>= fun _ => get >>= fun s => rest (accessorOf? s.current) := by
    refine congrArg (modifiers >>= ·) (funext fun _ => congrArg (get >>= ·) (funext fun s => ?_))
    cases accessorOf? s.current <;> rfl
  rw [hform]
  refine .bind parallel_modifiers fun _ _ _ => .ask rest rest .accessor fun which? => ?_
  cases which? with
  | none => exact .unexpected _
  | some which =>
    refine .advance ?_ fun _ _ _ _ => .bind parallel_accessorBody fun _ _ _ => .pure rfl
    rintro x ⟨-, s, hs, rfl⟩
    -- Only a name is an accessor.
    have hkind : s.kind = .identifier := by
      unfold accessorOf? at hs
      split at hs
      · cases hs
      · exact Classical.not_not.1 ‹_›
    rw [hkind]
    rfl

/-- A property that has a first value takes a semicolon in both runs. -/
theorem parallel_property :
    Parallel T K l l (Member.rewrite .unlocating) (property m type name start)
      (property m type' name start') := by
  refine .bind (.openCurly _) fun _ _ _ => ?_
  refine .bind (.many (m := fun x => x ≠ .eof && x ≠ .closeCurly) (fun _ => rfl) parallel_accessor)
    fun accessors accessors' haccessors => ?_
  refine .bind .closeCurly fun _ _ _ => .bind parallel_initialValue fun value value' hvalue => ?_
  obtain rfl : accessors = accessors' := by simpa using haccessors
  have hsome : value.isSome = value'.isSome := by
    rw [← Option.isSome_map, hvalue, Option.isSome_map]
  rw [hsome]
  refine .optional (.expect rfl) (.bind (.spanFrom () _ _) fun _ _ _ => .pure ?_)
  simp [Member.rewrite, Property.rewrite, htype, hvalue]

theorem parallel_field :
    Parallel T K l l (Member.rewrite .unlocating) (field m type name start)
      (field m type' name start') := by
  refine .bind parallel_initialValue fun value value' hvalue => ?_
  refine .bind (.expect rfl) fun _ _ _ => .bind (.spanFrom () _ _) fun _ _ _ => .pure ?_
  simp [Member.rewrite, Field.rewrite, htype, hvalue]

end

/-- A constructor is told by its name and by the parenthesis after it. -/
theorem parallel_classMember (className : String) :
    Parallel T K l l (Member.rewrite .unlocating) (classMember className)
      (classMember className) := by
  refine .bind (.position ()) fun start start' _ => .bind parallel_modifiers fun m m' hm => ?_
  obtain rfl : m = m' := hm
  refine .bind (.modifyScope _) fun _ _ _ => ?_
  refine .choice (.constructor className) (parallel_constructor _ _) ?_
  refine .bind (parallel_typeRef _) fun type type' htype => ?_
  refine .bind (.described _ rfl) fun name name' hname => .kind fun c => ?_
  rw [text_eq hname]
  split
  · exact parallel_method htype _ _
  · exact parallel_property htype _ _
  · exact parallel_field htype _ _
  · exact parallel_field htype _ _
  · exact .fail fun found => .unexpectedTokenDetailed found _

/-! ### Declarations -/

theorem parallel_baseNames : Parallel T K l l id baseNames baseNames := by
  refine .bind (.accept rfl) fun b b' hb => ?_
  obtain rfl : b = b' := hb
  split
  · refine .bind (parallel_commaSeparated (parallel_typeRef _)) fun ts ts' hts => .pure ?_
    have hnames (ts : List TypeRef) :
        ts.map TypeRef.name = (ts.map TypeRef.unlocated).map TypeRef.name := by
      simp
    rw [hnames, hts, ← hnames]
  · exact .pure rfl

/-- A class begins with the names that its own braces show, which both runs see alike. -/
theorem parallel_classDecl :
    Parallel T K l l (ClassDecl.rewrite .unlocating) classDecl classDecl := by
  refine .bind (.position ()) fun start start' _ => .bind parallel_modifiers fun m m' hm => ?_
  refine .bind (.expect rfl) fun _ _ _ => .bind (.described _ rfl) fun name name' hname => ?_
  refine .bind parallel_baseNames fun bases bases' hbases => .bind (.openCurly _) fun _ _ _ => ?_
  obtain rfl : m = m' := hm
  obtain rfl : bases = bases' := hbases
  rw [text_eq hname]
  refine .bind (.beginClass _) fun _ _ _ => ?_
  refine .bind (.many (m := fun x => x ≠ .eof && x ≠ .closeCurly) (fun _ => rfl)
    (parallel_classMember _)) fun members members' hmembers => ?_
  refine .bind .closeCurly fun _ _ _ => .bind (.modifyScope _) fun _ _ _ => ?_
  refine .bind (.spanFrom () _ _) fun _ _ _ => .pure ?_
  simp [ClassDecl.rewrite, hmembers]

theorem parallel_usingDirective : Parallel T K l l id usingDirective usingDirective :=
  .bind (.expect rfl) fun _ _ _ => .bind (parallel_dottedName _) fun _ _ hname =>
    .bind (.expect rfl) fun _ _ _ => .pure hname

/-- A contribution without its spans. -/
def Contribution.unlocated (c : Contribution) : Contribution :=
  { c with classes := c.classes.map (ClassDecl.rewrite .unlocating) }

theorem Contribution.unlocated_append (a b : Contribution) :
    (a.append b).unlocated = a.unlocated.append b.unlocated := by
  simp [append, unlocated]

/-- What declarations add up to is compared part by part. -/
theorem Contribution.unlocated_concat (parts : List Contribution) :
    (concat parts).unlocated = concat (parts.map unlocated) := by
  induction parts with
  | nil => rfl
  | cons part parts ih => exact (unlocated_append part (concat parts)).trans (by rw [ih]; rfl)

section

variable {p : Parse (List Contribution)}
  (hp : ∀ {l : Level}, Parallel T (fun _ => True) l l (List.map Contribution.unlocated) p p)

include hp

/-- A namespace is closed by a semicolon or by its braces in both runs. -/
theorem parallel_namespaceOf :
    Parallel T K l l Contribution.unlocated (namespaceOf p) (namespaceOf p) := by
  refine .bind (.expect rfl) fun _ _ _ => .bind (parallel_dottedName _) fun name name' hname => ?_
  obtain rfl : name = name' := hname
  refine .bind (.accept rfl) fun b b' hb => ?_
  obtain rfl : b = b' := hb
  split
  · exact .pure rfl
  · refine .bind (.openCurly _) fun _ _ _ => ?_
    refine .bind hp fun parts parts' hparts => .bind .closeCurly fun _ _ _ => .pure ?_
    simp only [Contribution.unlocated_append, Contribution.unlocated_concat, hparts]

theorem parallel_topLevelOf :
    Parallel T K l l Contribution.unlocated (topLevelOf p) (topLevelOf p) := by
  unfold topLevelOf
  refine .kind fun c => ?_
  split
  · refine .bind parallel_usingDirective fun name name' hname => .pure ?_
    obtain rfl : name = name' := hname
    rfl
  · exact parallel_namespaceOf hp
  · refine .bind parallel_classDecl fun c c' hc => .pure ?_
    simp [Contribution.unlocated, hc]

end

/-- Whatever the budget, a top-level declaration may be a namespace with a body. -/
theorem topLevelWithin_eq_topLevelOf (budget : Nat) :
    ∃ body, topLevelWithin budget = topLevelOf body ∧ ∀ {l : Level},
      Parallel T (fun _ => True) l l (List.map Contribution.unlocated) body body := by
  induction budget with
  | zero => exact ⟨tooDeep, rfl, .tooDeep⟩
  | succ budget ih =>
    obtain ⟨body, hbudget, hbody⟩ := ih
    refine ⟨_, rfl, ?_⟩
    intro l
    refine .bind .deepen fun _ _ _ => ?_
    refine .bind (.many (m := fun x => x ≠ .eof && x ≠ .closeCurly) (fun _ => rfl)
      (hbudget ▸ parallel_topLevelOf hbody)) fun parts parts' hparts => ?_
    exact .bind .surface fun _ _ _ => .pure hparts

/-- Declarations are read in step, by induction on the levels that are left. -/
theorem parallel_topLevelWithin (budget : Nat) :
    Parallel T K l l Contribution.unlocated (topLevelWithin budget) (topLevelWithin budget) := by
  obtain ⟨body, hbudget, hbody⟩ := topLevelWithin_eq_topLevelOf budget
  rw [hbudget]
  exact parallel_topLevelOf hbody

/-- Units are read in step from any two states that agree. -/
theorem parallel_compilationUnit :
    Parallel T K l l CompilationUnit.unlocated compilationUnit compilationUnit := by
  refine .bind (.position ()) fun start start' _ => ?_
  refine .bind (.many (m := fun x => x ≠ .eof) (fun _ => rfl)
    (.ask topLevelWithin topLevelWithin .budget fun budget => parallel_topLevelWithin budget))
    fun parts parts' hparts => ?_
  refine .bind (.spanFrom () _ _) fun _ _ _ => .pure ?_
  have hwhole : (Contribution.concat parts).unlocated = (Contribution.concat parts').unlocated := by
    rw [Contribution.unlocated_concat, hparts, ← Contribution.unlocated_concat]
  obtain ⟨himports, hname, hclasses⟩ := Contribution.mk.inj hwhole
  simp [CompilationUnit.unlocated, CompilationUnit.rewrite, himports, hname, hclasses]

end ClassScript.Parse
