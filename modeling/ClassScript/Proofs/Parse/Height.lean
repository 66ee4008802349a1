import ClassScript.Proofs.Parse.Declarations
import ClassScript.Proofs.Parse.Reading

/-!
# How high a parsed expression can be

The parser counts levels of nesting, and gives a level back when the operand that
took it is read. The count therefore bounds how deep the recursion of the parser
goes, but not how high the tree is that it builds: an expression read with `n`
levels left can begin with an operand that uses all of them and then take up to
`n - 1` operators of its own. Added up over the levels that makes a height of
`n * (n + 1) / 2`, and no more (`height_le_of_exprWithin`).

The bound is attained. A tower is a chain of calls on an object whose only
argument is a tower again, with one level less; towers have every height up to
the bound (`exists_tower`), and the parser reads them (`reads_tower`).

The height is the number of nodes on the longest way down to a leaf
(`WayDown.length_le`, `exists_wayDown`), so the bound is one for every such way.
-/

namespace ClassScript

/-- The largest height of an expression read with `n` levels of nesting left. -/
def heightBound (n : Nat) : Nat := n * (n + 1) / 2

theorem heightBound_succ (n : Nat) : heightBound (n + 1) = heightBound n + (n + 1) := by
  have h : (n + 1) * (n + 1 + 1) = n * (n + 1) + 2 * (n + 1) := by
    rw [Nat.mul_comm (n + 1) (n + 1 + 1), ← Nat.add_mul]
  rw [heightBound, h, Nat.add_mul_div_left _ _ (by decide)]
  rfl

theorem heightBound_mono {m n : Nat} (h : m ≤ n) : heightBound m ≤ heightBound n := by
  induction h with
  | refl => exact Nat.le_refl _
  | step _ ih =>
    rw [heightBound_succ]
    omega

namespace Parse

/-! ### The bound -/

theorem height_of_single {t : Token} {e : Expr} (h : Single t e) : e.height = 1 := by
  cases h <;> rfl

variable {T : Token → Prop} {S : State → Prop} {n m : Nat} {left e : Expr}

/-- What begins an expression is at most one higher than its operands. -/
theorem height_of_begins (h : Begins T (fun c => c.height ≤ n) e) : e.height ≤ n + 1 := by
  cases h with
  | token _ ht =>
    rw [height_of_single ht]
    omega
  | prefixed op span he => exact Expr.height_le_succ.2 (by simpa [Expr.children] using he)
  | group he => omega
  | create span _ _ harguments => exact Expr.height_le_succ.2 harguments
  | domCreate span _ _ harguments => exact Expr.height_le_succ.2 harguments

/-- What continues an expression is one higher than it, if operands are not higher. -/
theorem height_of_continues (h : Continues T S (fun c => c.height ≤ n) left e)
    (hleft : left.height ≤ m) (hn : n ≤ m) : e.height ≤ m + 1 := by
  have hmono : ∀ {c : Expr}, c.height ≤ n → c.height ≤ m := fun hc => Nat.le_trans hc hn
  rw [Expr.height_le_succ]
  cases h with
  | binary op span hright => simp [Expr.children, hleft, hmono hright]
  | assign op span _ hright => simp [Expr.children, hleft, hmono hright]
  | update op span _ => simp [Expr.children, hleft]
  | call span _ harguments =>
    exact List.forall_mem_cons.2 ⟨hleft, fun a ha => hmono (harguments a ha)⟩
  | hostCall span harguments => exact fun a ha => hmono (harguments a ha)
  | hostSet span ho hp hv => simp [Expr.children, hmono ho, hmono hp, hmono hv]
  | domCall span hdom harguments =>
    subst hdom
    have hobject := Nat.le_of_succ_le hleft
    exact List.forall_mem_cons.2 ⟨hobject, fun a ha => hmono (harguments a ha)⟩
  | member nameSpan span _ _ => simp [Expr.children, hleft]
  | domProperty span _ _ => simp [Expr.children, hleft]
  | index span hkey => simp [Expr.children, hleft, hmono hkey]

/-- An expression that is read with `budget` levels left is not higher than the
bound. While it is read, each level that an operator takes has added one node. -/
theorem height_le_of_exprWithin (budget : Nat) (power : Power) {s : State} (hs : s.Over T) :
    Outcome (fun e s' => e.height ≤ heightBound budget ∧ s'.Over T) anyError
      (exprWithin budget power s) := by
  refine Outcome.mono (returns_exprWithin (A := fun n e => e.height ≤ heightBound n)
    (B := fun n m e => e.height ≤ heightBound n + 1 + (n - m)) ?_ ?_ ?_ budget power hs.under)
    fun _ _ h => ⟨h.1, h.2.tokens⟩
  · -- What begins an expression is read before any operator has taken a level.
    intro n e h
    exact Nat.le_trans (height_of_begins h) (Nat.le_add_right _ _)
  · intro n m left e hm hleft h
    have hoperand : heightBound m ≤ heightBound n := heightBound_mono (Nat.le_of_lt hm)
    have := height_of_continues h hleft (by omega)
    omega
  · intro n m e hm h
    rw [heightBound_succ]
    omega

/-- An expression that is read at some depth is not higher than the bound for the
levels that are left there. -/
theorem height_le_of_expr (power : Power) {s : State} (hs : s.Over T) :
    Outcome (fun e s' => e.height ≤ heightBound (nestingLimit - s.depth) ∧ s'.Over T) anyError
      (expr power s) :=
  height_le_of_exprWithin s.budget power hs

end Parse

/-- No expression of a unit is higher than the bound for all levels. -/
theorem height_le_of_compile {source : String} {unit : CompilationUnit}
    (h : compile source = .ok unit) {e : Expr} (he : e ∈ unit.expressions) :
    e.height ≤ heightBound Parse.nestingLimit := by
  obtain ⟨tokens, s, -, hunit⟩ := compile_eq_ok_iff.1 h
  have hexpr : ∀ (p : Power) (s : Parse.State), s.Over (fun _ => True) →
      Parse.Outcome (fun e s' => e.height ≤ heightBound Parse.nestingLimit ∧
        s'.Over fun _ => True) Parse.anyError (Parse.expr p s) := by
    intro p s hs
    refine (Parse.height_le_of_expr p hs).mono fun e s' he => ⟨?_, he.2⟩
    exact Nat.le_trans he.1 (heightBound_mono (Nat.sub_le _ _))
  have hstart : (Parse.State.ofTokens tokens).Over fun _ => True := fun _ _ => trivial
  exact ((Parse.returns_compilationUnit hexpr hstart).of_eq_ok hunit).1 e he

/-! ### Towers -/

/-- Calls without arguments. -/
def callLexemes : Nat → List Lexeme
  | 0 => []
  | k + 1 => .ofKind .openParen :: .ofKind .closeParen :: callLexemes k

/-- A tower is given by the number of calls on each storey, from the outermost one
in. Inside the last storey is `null`. -/
def towerLexemes : List Nat → List Lexeme
  | [] => [.ofKind .kwNull]
  | k :: ks =>
    .ofKind .kwNew :: ⟨.identifier, "T"⟩ :: .ofKind .openParen ::
      (towerLexemes ks ++ .ofKind .closeParen :: callLexemes k)

/-- A storey adds the object and its calls. -/
def towerHeight : List Nat → Nat
  | [] => 1
  | k :: ks => towerHeight ks + 1 + k

/-- Can a tower be read with `n` levels left? -/
def TowerFits : Nat → List Nat → Prop
  | 0, _ => False
  | _ + 1, [] => True
  | n + 1, k :: ks => k ≤ n ∧ TowerFits n ks

/-- There is a tower of every height up to the bound. A storey more raises the
bound by one and by as many calls as there are levels. -/
theorem exists_tower {n h : Nat} (hpos : 1 ≤ h) (hle : h ≤ heightBound n) :
    ∃ ks, TowerFits n ks ∧ towerHeight ks = h := by
  induction n generalizing h with
  | zero =>
    rw [show heightBound 0 = 0 from rfl] at hle
    omega
  | succ n ih =>
    rw [heightBound_succ] at hle
    by_cases hone : h = 1
    · exact ⟨[], trivial, hone.symm⟩
    · by_cases hlow : h ≤ heightBound n + 1
      · -- A storey without calls.
        obtain ⟨ks, hfits, hks⟩ := ih (show 1 ≤ h - 1 by omega) (by omega)
        exact ⟨0 :: ks, ⟨Nat.zero_le n, hfits⟩, by simp only [towerHeight]; omega⟩
      · -- The highest tower below, and what is missing as calls.
        obtain ⟨ks, hfits, hks⟩ := ih (h := heightBound n) (by
          cases n with
          | zero => simp only [show heightBound 0 = 0 from rfl] at *; omega
          | succ n => rw [heightBound_succ]; omega) (Nat.le_refl _)
        refine ⟨(h - 1 - heightBound n) :: ks, ⟨by omega, hfits⟩, ?_⟩
        simp only [towerHeight]
        omega

namespace Parse

/-- A call of anything but a member is a call and no special form. -/
def isObject : Expr → Bool
  | .create .. | .call .. => true
  | _ => false

variable {s : State} {w : Lexeme} {ws : List Lexeme}

theorem callOf_object {callee : Expr} (h : isObject callee = true) (arguments : List Expr)
    (span : Span) (paren first : Token) :
    callOf callee arguments span paren first = .ok (.call callee arguments span) := by
  unfold isObject at h
  split at h
  · rfl
  · rfl
  · cases h

/-- A call without arguments. -/
theorem reads_call {operand : Operand} {left : Expr} (hleft : isObject left = true)
    (hs : s.lexemes = .ofKind .openParen :: .ofKind .closeParen :: w :: ws) :
    Outcome (fun e s' => isObject e = true ∧ e.height = left.height + 1 ∧ s.Reaches (w :: ws) s')
      (fun _ _ => False) (call operand left s) := by
  unfold call
  rw [outcome_bind, outcome_get, outcome_bind, arguments, outcome_bind]
  refine outcome_expect_of hs rfl (by decide) fun hopen => ?_
  rw [outcome_bind]
  refine outcome_commaList_done (State.kind_eq hopen.lexemes) ?_
  rw [outcome_bind]
  refine outcome_expectDescribed_of hopen.lexemes rfl (by decide) fun hclose => ?_
  rw [outcome_pure, outcome_bind, outcome_spanFrom, callOf_object hleft]
  exact ⟨rfl, by simp [Expr.height, Expr.heights], hopen.trans hclose⟩

/-- A chain of calls takes a level for each. -/
theorem reads_calls {k n : Nat} (hk : k ≤ n) {left : Expr} (hleft : isObject left = true)
    (hw : w.kind.power? = none) (hs : s.lexemes = callLexemes k ++ w :: ws)
    (hdepth : s.depth + n = nestingLimit) :
    Outcome (fun e s' => e.height = left.height + k ∧ s.Reaches (w :: ws) s') (fun _ _ => False)
      (climb n .default left s) := by
  induction k generalizing n left s with
  | zero =>
    refine outcome_climb_stop ?_ ⟨rfl, .refl hs⟩
    rw [State.kind_eq hs, hw]
    rintro own ⟨⟩
  | succ k ih =>
    obtain ⟨v, vs, hv⟩ : ∃ v vs, callLexemes k ++ w :: ws = v :: vs :=
      List.exists_cons_of_ne_nil (by simp)
    have hs' : s.lexemes = .ofKind .openParen :: .ofKind .closeParen :: v :: vs := by
      rw [hs, ← hv]
      rfl
    have hkind : s.kind = .openParen := State.kind_eq hs'
    have hown : s.kind.power? = some .call := by
      rw [hkind]
      rfl
    refine outcome_climb_step hown (by decide) ?_ ?_
    · rintro b s₀ rfl hlt hs₀
      have hs₀' := hs₀.lexemes.trans hs'
      rw [outcome_continuation_call (State.kind_eq hs₀')]
      refine (reads_call hleft hs₀').mono fun longer s₁ h₁ => ?_
      obtain ⟨hobject, hheight, hreach⟩ := h₁
      have hdepth₁ : s₁.depth = s.depth + 1 := hreach.depth.trans hs₀.depth
      refine (ih (Nat.le_of_succ_le_succ hk) hobject (hreach.lexemes.trans hv.symm)
        (by omega)).mono fun e s₂ h₂ s₃ hs₃ => ?_
      exact ⟨by omega, hs₀.leave (hreach.trans h₂.2) hs₃⟩
    · rintro (hlt | rfl)
      · exact hlt (by omega)
      · exact Nat.not_succ_le_zero k hk

/-- An object with a tower as its argument. -/
theorem reads_object {n : Nat} {ks : List Nat} (hdepth : s.depth < nestingLimit)
    (htower : ∀ (s₁ : State) (v : Lexeme) (vs : List Lexeme),
      s₁.lexemes = towerLexemes ks ++ v :: vs → v.kind.power? = none → s₁.depth = s.depth →
      Outcome (fun e s' => e.height = towerHeight ks ∧ s₁.Reaches (v :: vs) s') (fun _ _ => False)
        (exprWithin n .default s₁))
    (hs : s.lexemes = .ofKind .kwNew :: ⟨.identifier, "T"⟩ :: .ofKind .openParen ::
      (towerLexemes ks ++ .ofKind .closeParen :: w :: ws)) :
    Outcome (fun e s' => isObject e = true ∧ e.height = towerHeight ks + 1 ∧
      s.Reaches (w :: ws) s') (fun _ _ => False) (creation (exprWithin n) s) := by
  unfold creation
  rw [outcome_bind]
  refine outcome_expect_of hs rfl (by decide) fun hnew => ?_
  rw [outcome_bind]
  have hname : s.next.lexemes = nameLexemes "T" [] ++ _ := hnew.lexemes
  refine (reads_typeRef (by decide) hname
    (fun hlimit => hlimit (by rwa [hnew.depth]))).mono fun type s₁ h₁ => ?_
  obtain ⟨⟨hname, hnullable, harguments, harray⟩, htype⟩ := h₁
  have hreach₁ := hnew.trans htype
  have hitem : ∀ i ∈ [ks], ∀ (s₂ : State) (v : Lexeme) (vs : List Lexeme),
      s₂.depth = s.depth ∧ s₂.scope = s.scope → s₂.lexemes = towerLexemes i ++ v :: vs →
      v = .ofKind .comma ∨ v = .ofKind .closeParen → s₂.kind ≠ .closeParen ∧
      Outcome (fun e s' => e.height = towerHeight i ∧ s'.lexemes = v :: vs ∧
        (s'.depth = s.depth ∧ s'.scope = s.scope)) (fun _ _ => False)
        (exprWithin n .default s₂) := by
    intro i hi s₂ v vs hinv hs₂ hv
    obtain rfl := List.mem_singleton.1 hi
    refine ⟨?_, ?_⟩
    · cases i <;> rw [State.kind_eq hs₂] <;> decide
    · refine (htower s₂ v vs hs₂ (by rcases hv with rfl | rfl <;> rfl) hinv.1).mono
        fun e s' h => ⟨h.1, h.2.lexemes, ?_⟩
      exact ⟨h.2.depth.trans hinv.1, h.2.scope.trans hinv.2⟩
  rw [outcome_bind]
  refine (reads_arguments (fun s hs => by simpa using hs) hitem htype.lexemes
    ⟨hreach₁.depth, hreach₁.scope⟩).mono fun es s₂ h₂ => ?_
  obtain ⟨hes, hs₂, hinv⟩ := h₂
  obtain ⟨e, rfl, he⟩ := List.map_eq_singleton_iff.1 hes
  rw [outcome_bind, outcome_spanFrom]
  have hplain : isPlainElement type = false := by
    rw [isPlainElement, hname]
    rfl
  simp only [hplain, Bool.false_eq_true, if_false, outcome_pure]
  refine ⟨rfl, ?_, hs₂, hinv.1, hinv.2⟩
  simp [Expr.height, Expr.heights, he]

/-- A tower that fits is read, and the tree has its height. -/
theorem reads_tower {n : Nat} {ks : List Nat} (hfits : TowerFits n ks) (hw : w.kind.power? = none)
    (hs : s.lexemes = towerLexemes ks ++ w :: ws) (hdepth : s.depth + n = nestingLimit) :
    Outcome (fun e s' => e.height = towerHeight ks ∧ s.Reaches (w :: ws) s') (fun _ _ => False)
      (exprWithin n .default s) := by
  induction ks generalizing n s w ws with
  | nil =>
    refine outcome_exprWithin ?_ ?_
    · rintro b s₀ rfl hlt hs₀
      have hs₀' : s₀.lexemes = .ofKind .kwNull :: w :: ws := hs₀.lexemes.trans hs
      have hkind : s₀.kind = .kwNull := State.kind_eq hs₀'
      rw [outcome_beginning_primary (by rw [hkind]; decide)]
      have hprimary : primaryOf s₀.current = .ok (.literal .null s₀.current.span) := by
        unfold primaryOf
        rw [show s₀.current.kind = .kwNull from hkind]
      refine outcome_primary_of hs₀' (by decide) hprimary fun hreach => ?_
      refine outcome_climb_stop ?_ fun s₃ hs₃ => ?_
      · rw [State.kind_eq hreach.lexemes, hw]
        rintro own ⟨⟩
      · exact ⟨rfl, hs₀.leave hreach hs₃⟩
    · rintro (hlt | rfl)
      · cases n with
        | zero => exact hfits
        | succ n => exact hlt (by omega)
      · exact hfits
  | cons k ks ih =>
    cases n with
    | zero => exact hfits.elim
    | succ n =>
      obtain ⟨hk, hfits⟩ := hfits
      have hn : 0 < n := by
        cases n with
        | zero => exact hfits.elim
        | succ n => exact Nat.succ_pos n
      refine outcome_exprWithin ?_ (by omega)
      rintro b s₀ hb hlt hs₀
      obtain rfl : n = b := Nat.succ.inj hb
      obtain ⟨v, vs, hv⟩ : ∃ v vs, callLexemes k ++ w :: ws = v :: vs :=
        List.exists_cons_of_ne_nil (by simp)
      have hs₀' : s₀.lexemes = .ofKind .kwNew :: ⟨.identifier, "T"⟩ :: .ofKind .openParen ::
          (towerLexemes ks ++ .ofKind .closeParen :: v :: vs) := by
        rw [hs₀.lexemes, hs, ← hv]
        simp [towerLexemes]
      rw [outcome_beginning_creation (State.kind_eq hs₀')]
      -- The argument is read a level deeper, and the calls after it at this one again.
      refine (reads_object (by rw [hs₀.depth]; omega) (fun s₁ v vs hs₁ hv hdepth₁ =>
        ih hfits hv hs₁ (by rw [hdepth₁, hs₀.depth]; omega)) hs₀').mono fun left s₁ h₁ => ?_
      obtain ⟨hobject, hheight, hreach⟩ := h₁
      have hdepth₁ : s₁.depth = s.depth + 1 := hreach.depth.trans hs₀.depth
      refine (reads_calls hk hobject hw (hreach.lexemes.trans hv.symm) (by omega)).mono
        fun e s₂ h₂ s₃ hs₃ => ?_
      refine ⟨?_, hs₀.leave (hreach.trans h₂.2) hs₃⟩
      rw [h₂.1, hheight, towerHeight]

end Parse

/-! ### Towers in a source text -/

/-- The text of calls without arguments. -/
def callText : Nat → List Char
  | 0 => []
  | k + 1 => '(' :: ')' :: callText k

/-- The text of a tower. -/
def towerText : List Nat → List Char
  | [] => ['n', 'u', 'l', 'l']
  | k :: ks => ['n', 'e', 'w', ' ', 'T', '('] ++ (towerText ks ++ (')' :: callText k))

theorem scans_callText (k : Nat) : Scans Anything (callText k) (callLexemes k) := by
  induction k with
  | zero => exact .nil
  | succ k ih =>
    have hclose := (scans_mark .closeParen (by decide)).before ih
    exact (scans_mark .openParen (by decide)).before hclose

theorem scans_towerText (ks : List Nat) : Scans Ends (towerText ks) (towerLexemes ks) := by
  induction ks with
  | nil => exact scans_word (isWord_cons 'n' ['u', 'l', 'l'] rfl rfl)
  | cons k ks ih =>
    have hnew : Scans Anything ['n', 'e', 'w', ' ', 'T', '(']
        [.ofKind .kwNew, ⟨.identifier, "T"⟩, .ofKind .openParen] := by
      intro p rest ts _ h
      exact ⟨[_, _, _], rfl, .token rfl rfl (.gap rfl rfl (.token rfl rfl (.token rfl rfl h)))⟩
    have hclose : Scans Anything (')' :: callText k) (.ofKind .closeParen :: callLexemes k) :=
      (scans_mark .closeParen (by decide)).before (scans_callText k)
    have hinner := ih.append hclose fun rest _ => ends_cons (by decide) (by decide)
    exact (hnew.before hinner).mono fun _ _ => trivial

/-- The text of a class up to the value of its field. -/
def fieldText : List Char :=
  ['c', 'l', 'a', 's', 's', ' '] ++ (['T', ' '] ++ (['{', ' '] ++ (['T', ' '] ++
    (['x'] ++ [' ', '=', ' ']))))

/-- A class with one field, whose value is a tower. -/
def towerSource (ks : List Nat) : String :=
  String.ofList (fieldText ++ (towerText ks ++ [';', '}']))

/-- The lexemes of a class with one field, whose value is spelled `value`. -/
def fieldLexemes (value : List Lexeme) : List Lexeme :=
  [.ofKind .kwClass, ⟨.identifier, "T"⟩, .ofKind .openCurly, ⟨.identifier, "T"⟩,
    ⟨.identifier, "x"⟩, .ofKind .assignment] ++ (value ++ [.ofKind .semicolon, .ofKind .closeCurly])

theorem scans_fieldText : Scans Opens fieldText
    [.ofKind .kwClass, ⟨.identifier, "T"⟩, .ofKind .openCurly, ⟨.identifier, "T"⟩,
      ⟨.identifier, "x"⟩, .ofKind .assignment] := by
  have hclass : Scans Opens ['c', 'l', 'a', 's', 's', ' '] [.ofKind .kwClass] :=
    scans_wordBlank (isWord_cons 'c' ['l', 'a', 's', 's'] rfl rfl)
  have hT : Scans Opens ['T', ' '] [⟨.identifier, "T"⟩] :=
    scans_wordBlank (isWord_cons 'T' [] rfl rfl)
  have hcurly : Scans Opens ['{', ' '] [.ofKind .openCurly] :=
    (scans_mark .openCurly (by decide)).before scans_blank
  have hx : Scans Ends ['x'] [⟨.identifier, "x"⟩] := scans_word (isWord_cons 'x' [] rfl rfl)
  have hequals : Scans Opens [' ', '=', ' '] [.ofKind .assignment] :=
    scans_operator .assignment (by decide)
  have hfield := hx.append hequals fun _ _ => ends_cons (by decide) (by decide)
  have htype := hT.append hfield fun _ _ => ⟨'x', _, rfl, rfl, by decide⟩
  have hbody := hcurly.append htype fun _ _ => ⟨'T', _, rfl, rfl, by decide⟩
  have hname := hT.append hbody fun _ _ => ⟨'{', _, rfl, rfl, by decide⟩
  exact hclass.append hname fun _ _ => ⟨'T', _, rfl, rfl, by decide⟩

theorem scans_towerSource (ks : List Nat) :
    Scans Anything (towerSource ks).toList (fieldLexemes (towerLexemes ks)) := by
  have htail : Scans Anything [';', '}'] [.ofKind .semicolon, .ofKind .closeCurly] :=
    (scans_mark .semicolon (by decide)).before (scans_mark .closeCurly (by decide))
  have hvalue := (scans_towerText ks).append htail fun rest _ => ends_cons (by decide) (by decide)
  rw [towerSource, String.toList_ofList]
  refine scans_fieldText.append hvalue fun rest _ => ?_
  cases ks with
  | nil => exact ⟨'n', _, rfl, rfl, by decide⟩
  | cons k ks => exact ⟨'n', _, rfl, rfl, by decide⟩

namespace Parse

variable {s : State} {w : Lexeme} {ws value : List Lexeme} {h : Nat}

/-- The value is an expression of height `h` wherever nothing is nested yet. -/
def ReadsHeight (value : List Lexeme) (h : Nat) : Prop :=
  ∀ (s : State) (v : Lexeme) (vs : List Lexeme), s.lexemes = value ++ v :: vs →
    v.kind.power? = none → s.depth = 0 →
    Outcome (fun e s' => e.height = h ∧ s.Reaches (v :: vs) s') (fun _ _ => False)
      (expr .default s)

theorem reads_modifiers (hs : s.lexemes = w :: ws) (hw : w.kind.isModifier = false) :
    Outcome (fun _ s' => s' = s) (fun _ _ => False) (modifiers s) := by
  unfold modifiers
  rw [outcome_bind]
  exact outcome_many_done (by rw [State.kind_eq hs, hw]) rfl

/-- A field with a value. -/
theorem reads_field (hvalue : ReadsHeight value h) {m : Modifiers} {type : TypeRef} {name : String}
    {start : Position} (hdepth : s.depth = 0)
    (hs : s.lexemes = .ofKind .assignment :: (value ++ .ofKind .semicolon :: w :: ws)) :
    Outcome (fun member s' => (∃ e ∈ member.expressions, e.height = h) ∧ s.Reaches (w :: ws) s')
      (fun _ _ => False) (field m type name start s) := by
  obtain ⟨v, vs, hv⟩ : ∃ v vs, value ++ .ofKind .semicolon :: w :: ws = v :: vs :=
    List.exists_cons_of_ne_nil (by simp)
  rw [hv] at hs
  have hassign := State.reaches_next hs (by decide)
  unfold field initialValue
  simp only [outcome_bind, outcome_accept]
  refine ⟨fun _ => ?_, fun hne => absurd (State.kind_eq hs) hne⟩
  simp only [if_true, outcome_bind]
  refine (hvalue s.next _ _ (hassign.lexemes.trans hv.symm) rfl (hassign.depth.trans hdepth)).mono
    fun e s₁ h₁ => ?_
  rw [outcome_pure]
  refine outcome_expect_of h₁.2.lexemes rfl (by decide) fun hsemi => ?_
  exact ⟨⟨e, by simp [Member.expressions], h₁.1⟩, (hassign.trans h₁.2).trans hsemi⟩

/-- A member of the class that is a field with a value. -/
theorem reads_classMember (hvalue : ReadsHeight value h) (hdepth : s.depth = 0)
    (hs : s.lexemes = ⟨.identifier, "T"⟩ :: ⟨.identifier, "x"⟩ :: .ofKind .assignment ::
      (value ++ .ofKind .semicolon :: w :: ws)) :
    Outcome (fun member s' => (∃ e ∈ member.expressions, e.height = h) ∧
      s'.lexemes = w :: ws ∧ s'.depth = 0) (fun _ _ => False) (classMember "T" s) := by
  unfold classMember
  rw [outcome_bind, outcome_position, outcome_bind]
  refine (reads_modifiers hs (by decide)).mono fun m s₁ h₁ => ?_
  subst h₁
  rw [outcome_bind, outcome_modifyScope, outcome_bind, outcome_get, outcome_ite]
  -- A constructor has the name of its class too, but a parenthesis follows it.
  have hpeek : s₁.peekKind 1 = .identifier := State.peekKind_one hs
  refine ⟨fun hconstructor => ?_, fun _ => ?_⟩
  · simp only [startsConstructor, Bool.and_eq_true, decide_eq_true_eq] at hconstructor
    exact absurd (hpeek.symm.trans hconstructor.2) (by decide)
  rw [outcome_bind]
  have hs₁ : State.lexemes { s₁ with scope := s₁.scope.beginMember } =
      nameLexemes "T" [] ++ ⟨.identifier, "x"⟩ :: _ := hs
  refine (reads_typeRef (by decide) hs₁
    (fun hlimit => hlimit (by simp [hdepth, nestingLimit]))).mono fun type s₂ h₂ => ?_
  rw [outcome_bind]
  refine outcome_expectDescribed_of h₂.2.lexemes rfl (by decide) fun hname => ?_
  rw [outcome_bind, outcome_kind, State.kind_eq hname.lexemes]
  have hdepth₂ : s₂.next.depth = 0 := by
    rw [hname.depth, h₂.2.depth]
    exact hdepth
  refine (reads_field hvalue hdepth₂ hname.lexemes).mono fun member s₃ h₃ => ?_
  exact ⟨h₃.1, h₃.2.lexemes, h₃.2.depth.trans hdepth₂⟩

/-- A class body that holds a field and nothing else. -/
theorem reads_members (hvalue : ReadsHeight value h) (hdepth : s.depth = 0)
    (hs : s.lexemes = ⟨.identifier, "T"⟩ :: ⟨.identifier, "x"⟩ :: .ofKind .assignment ::
      (value ++ .ofKind .semicolon :: .ofKind .closeCurly :: ws)) :
    Outcome (fun members s' => (∃ e ∈ members.flatMap Member.expressions, e.height = h) ∧
      s'.lexemes = .ofKind .closeCurly :: ws) (fun _ _ => False)
      (many beforeCloseCurly (classMember "T") s) := by
  have hmore : beforeCloseCurly s = true := by
    simp [beforeCloseCurly, State.hasTokens, State.kind_eq hs]
  refine outcome_many_round hmore ((reads_classMember hvalue hdepth hs).mono
    fun member s₁ h₁ => ⟨State.remaining_lt ?_, outcome_many_done ?_ ?_⟩)
  · rw [h₁.2.1, hs]
    simp only [List.length_cons, List.length_append]
    omega
  · simp [beforeCloseCurly, State.kind_eq h₁.2.1, Lexeme.ofKind]
  · exact ⟨by simpa using h₁.1, h₁.2.1⟩

/-- A class with one field that has a value. -/
theorem reads_classDecl (hvalue : ReadsHeight value h) (hdepth : s.depth = 0)
    (hs : s.lexemes = fieldLexemes value ++ w :: ws) :
    Outcome (fun c s' => (∃ e ∈ c.expressions, e.height = h) ∧ s'.lexemes = w :: ws)
      (fun _ _ => False) (classDecl s) := by
  have hs' : s.lexemes = .ofKind .kwClass :: ⟨.identifier, "T"⟩ :: .ofKind .openCurly ::
      ⟨.identifier, "T"⟩ :: ⟨.identifier, "x"⟩ :: .ofKind .assignment ::
      (value ++ .ofKind .semicolon :: .ofKind .closeCurly :: w :: ws) := by
    rw [hs]
    simp [fieldLexemes]
  unfold classDecl
  rw [outcome_bind, outcome_position, outcome_bind]
  refine (reads_modifiers hs' (by decide)).mono fun m s₁ h₁ => ?_
  subst h₁
  rw [outcome_bind]
  refine outcome_expect_of hs' rfl (by decide) fun hclass => ?_
  rw [outcome_bind]
  refine outcome_expectDescribed_of hclass.lexemes rfl (by decide) fun hname => ?_
  rw [outcome_bind, baseNames, outcome_bind]
  refine outcome_accept_of hname.lexemes (by decide) ?_
  simp only [Bool.false_eq_true, if_false, outcome_pure]
  rw [outcome_bind]
  refine outcome_expect_of hname.lexemes rfl (by decide) fun hcurly => ?_
  rw [outcome_bind]
  have hreach := (hclass.trans hname).trans hcurly
  refine outcome_beginClass_of _ fun s₂ hs₂ hdepth₂ => ?_
  rw [outcome_bind, State.text_eq hclass.lexemes]
  refine (reads_members hvalue (hdepth₂.trans (hreach.depth.trans hdepth))
    (hs₂.trans hreach.lexemes)).mono fun members s₃ h₂ => ?_
  rw [outcome_bind]
  refine outcome_expect_of h₂.2 rfl (by decide) fun hclose => ?_
  rw [outcome_bind, outcome_endClass]
  exact ⟨h₂.1, hclose.lexemes⟩

/-- A unit that is one class with one field that has a value. -/
theorem reads_compilationUnit (hvalue : ReadsHeight value h) (hdepth : s.depth = 0)
    (hs : s.lexemes = fieldLexemes value ++ [.eof]) :
    Outcome (fun unit _ => ∃ e ∈ unit.expressions, e.height = h) (fun _ _ => False)
      (compilationUnit s) := by
  have hkind : s.kind = .kwClass := State.kind_eq hs
  have htop : ∀ n, Outcome (fun c s' => (∃ e ∈ c.classes.flatMap ClassDecl.expressions,
      e.height = h) ∧ s'.lexemes = [.eof]) (fun _ _ => False) (topLevelWithin n s) := by
    intro n
    cases n <;>
    · rw [topLevelWithin, topLevelOf, outcome_bind, outcome_kind, hkind]
      refine (outcome_bind _ _).2 ?_
      exact (reads_classDecl hvalue hdepth hs).mono fun c s₁ h₁ => ⟨by simpa using h₁.1, h₁.2⟩
  unfold compilationUnit
  rw [outcome_bind, outcome_position, outcome_bind]
  refine outcome_many_round (by simp [State.hasTokens, hkind]) ((htop s.budget).mono
    fun c s₁ h₁ => ⟨State.remaining_lt ?_, outcome_many_done ?_ ?_⟩)
  · rw [h₁.2, hs]
    simp [fieldLexemes]
  · simp [State.hasTokens, State.kind_eq h₁.2, Lexeme.eof]
  · rw [outcome_bind, outcome_spanFrom, outcome_pure]
    simpa [CompilationUnit.expressions, Contribution.concat, Contribution.append,
      Contribution.empty] using h₁.1

end Parse

/-! ### The heights that occur -/

/-- A class whose field holds a tower compiles. -/
theorem compile_towerSource {ks : List Nat} (hfits : TowerFits Parse.nestingLimit ks) :
    ∃ unit e, compile (towerSource ks) = .ok unit ∧ e ∈ unit.expressions ∧
      e.height = towerHeight ks := by
  obtain ⟨tokens, htokens, hlexemes⟩ := (scans_towerSource ks).tokenize trivial
  have hvalue : Parse.ReadsHeight (towerLexemes ks) (towerHeight ks) := by
    intro s v vs hs hv hdepth
    have hbudget : s.budget = Parse.nestingLimit := by rw [Parse.State.budget, hdepth]; rfl
    show Parse.Outcome _ _ (Parse.exprWithin s.budget .default s)
    rw [hbudget]
    exact Parse.reads_tower hfits hv hs (by rw [hdepth, Nat.zero_add])
  obtain ⟨unit, s, hunit, e, he, hheight⟩ :=
    (Parse.reads_compilationUnit hvalue rfl (Parse.State.lexemes_ofTokens hlexemes)).exists_ok
  exact ⟨unit, e, compile_eq_ok_iff.2 ⟨tokens, s, htokens, hunit⟩, he, hheight⟩

/-- A tower is read at any depth that leaves the levels it takes. -/
theorem expr_tower {d : Nat} {ks : List Nat} (hd : d < Parse.nestingLimit)
    (hfits : TowerFits (Parse.nestingLimit - d) ks) :
    ∃ s e s', s.depth = d ∧ Parse.expr .default s = .ok e s' ∧ e.height = towerHeight ks := by
  have hsource : Scans Ends (String.ofList (towerText ks)).toList (towerLexemes ks) := by
    rw [String.toList_ofList]
    exact scans_towerText ks
  obtain ⟨tokens, -, hlexemes⟩ := hsource.tokenize ends_nil
  have hs := Parse.State.atDepth (.ofTokens tokens) d
  obtain ⟨e, s', he, hheight, -⟩ := (Parse.reads_tower hfits rfl
    (hs.lexemes.trans (Parse.State.lexemes_ofTokens hlexemes))
    (Nat.add_sub_of_le (Nat.le_of_lt hd))).exists_ok
  exact ⟨{ Parse.State.ofTokens tokens with depth := d }, e, s', rfl, he, hheight⟩

/-- Which heights occur. An expression read at depth `d` can have every height up
to the bound for the levels left there, and no other; an expression of a source
that compiles can have every height up to the bound for all levels, and no other. -/
theorem height_occurs_iff (d h : Nat) :
    ((∃ s power e s', s.depth = d ∧ Parse.expr power s = .ok e s' ∧ e.height = h) ↔
      1 ≤ h ∧ h ≤ heightBound (Parse.nestingLimit - d)) ∧
    ((∃ source unit e, compile source = .ok unit ∧ e ∈ unit.expressions ∧ e.height = h) ↔
      1 ≤ h ∧ h ≤ heightBound Parse.nestingLimit) := by
  refine ⟨⟨?_, ?_⟩, ?_, ?_⟩
  · intro hread
    obtain ⟨s, power, e, s', rfl, he, rfl⟩ := hread
    have hover : s.Over fun _ => True := fun _ _ => trivial
    exact ⟨e.height_pos, ((Parse.height_le_of_expr power hover).of_eq_ok he).1⟩
  · intro hh
    obtain ⟨ks, hfits, rfl⟩ := exists_tower hh.1 hh.2
    have hd : d < Parse.nestingLimit := by
      cases hn : Parse.nestingLimit - d with
      | zero => rw [hn] at hfits; exact hfits.elim
      | succ n => omega
    obtain ⟨s, e, s', hs, he, hheight⟩ := expr_tower hd hfits
    exact ⟨s, .default, e, s', hs, he, hheight⟩
  · intro hcompile
    obtain ⟨source, unit, e, hunit, he, rfl⟩ := hcompile
    exact ⟨e.height_pos, height_le_of_compile hunit he⟩
  · intro hh
    obtain ⟨ks, hfits, rfl⟩ := exists_tower hh.1 hh.2
    obtain ⟨unit, e, hunit, he, hheight⟩ := compile_towerSource hfits
    exact ⟨towerSource ks, unit, e, hunit, he, hheight⟩

/-- An object with one argument, called 255 times, is a tree higher than the limit
on nesting, and compiles. -/
theorem compile_higher_than_limit :
    ∃ unit e, compile (towerSource [255]) = .ok unit ∧ e ∈ unit.expressions ∧
      Parse.nestingLimit < e.height := by
  obtain ⟨unit, e, hunit, he, hheight⟩ :=
    compile_towerSource (show TowerFits Parse.nestingLimit [255] from ⟨by decide, trivial⟩)
  exact ⟨unit, e, hunit, he, by rw [hheight]; decide⟩

/-! ### Ways down an expression -/

/-- The nodes on a way from an expression down to a leaf. The name of a member is a leaf. -/
inductive Expr.WayDown : Expr → List Expr → Prop
  | leaf {e : Expr} : e.children = [] → WayDown e [e]
  | name (object : Expr) (name : String) (nameSpan span : Span) :
      WayDown (.member object name nameSpan span)
        [.member object name nameSpan span, .identifier name nameSpan]
  | child {c e : Expr} {way : List Expr} : c ∈ e.children → WayDown c way → WayDown e (e :: way)

/-- No way has more nodes than the expression is high. -/
theorem Expr.WayDown.length_le {e : Expr} {way : List Expr} (h : e.WayDown way) :
    way.length ≤ e.height := by
  induction h with
  | leaf => exact height_pos _
  | name object name nameSpan span => exact Nat.succ_le_succ object.height_pos
  | child hc _ ih => exact Nat.lt_of_le_of_lt ih (height_lt_of_mem hc)

/-- Some way has as many nodes as the expression is high. -/
theorem Expr.exists_wayDown (e : Expr) : ∃ way, e.WayDown way ∧ way.length = e.height := by
  induction e using Expr.induction_children with
  | step e ih =>
    obtain ⟨n, hn⟩ : ∃ n, e.height = n + 1 := ⟨e.height - 1, by have := e.height_pos; omega⟩
    have hle : ∀ c ∈ e.children, c.height ≤ n := height_le_succ.1 (Nat.le_of_eq hn)
    cases n with
    | zero =>
      have hleaf : e.children = [] := List.eq_nil_iff_forall_not_mem.2 fun c hc =>
        Nat.not_succ_le_zero 0 (Nat.le_trans c.height_pos (hle c hc))
      exact ⟨[e], .leaf hleaf, hn.symm⟩
    | succ n =>
      -- One of the children is higher than `n`, and the way goes on below it.
      have hhigh : ¬ ∀ c ∈ e.children, c.height ≤ n := fun hlow => by
        have := height_le_succ.2 hlow
        omega
      obtain ⟨c, hc⟩ := Classical.not_forall.1 hhigh
      obtain ⟨hc, hlow⟩ := Classical.not_imp.1 hc
      obtain ⟨way, hway, hlength⟩ := ih c hc
      refine ⟨e :: way, .child hc hway, ?_⟩
      have := hle c hc
      rw [List.length_cons]
      omega

namespace Parse

/-- An expression that is read at depth `d`, from whatever state, has at most
`(256 - d) * (257 - d) / 2` nodes on each way from its top down to a leaf. -/
theorem wayDown_length_le_of_expr {s s' : State} {power : Power} {e : Expr}
    (h : expr power s = .ok e s') {way : List Expr} (hway : e.WayDown way) :
    way.length ≤ (256 - s.depth) * (257 - s.depth) / 2 := by
  have hover : s.Over fun _ => True := fun _ _ => trivial
  have hheight : e.height ≤ heightBound (256 - s.depth) :=
    ((height_le_of_expr power hover).of_eq_ok h).1
  have hbound : heightBound (256 - s.depth) ≤ (256 - s.depth) * (257 - s.depth) / 2 := by
    unfold heightBound
    by_cases hd : s.depth ≤ 256
    · exact Nat.le_of_eq (by rw [show 256 - s.depth + 1 = 257 - s.depth by omega])
    · simp [Nat.sub_eq_zero_of_le (Nat.le_of_not_le hd)]
  exact Nat.le_trans hway.length_le (Nat.le_trans hheight hbound)

/-- With three levels left, two calls on an object and one on its argument reach the bound. -/
theorem wayDown_length_le_of_expr_tower :
    ∃ s e s', s.depth = 253 ∧ expr .default s = .ok e s' ∧
      (∃ way, e.WayDown way ∧ way.length = 6) ∧ ∀ way, e.WayDown way → way.length ≤ 6 := by
  have hfits : TowerFits (nestingLimit - 253) [2, 1] := ⟨by decide, by decide, trivial⟩
  obtain ⟨s, e, s', hdepth, he, hheight⟩ := expr_tower (by decide) hfits
  obtain ⟨way, hway, hlength⟩ := e.exists_wayDown
  refine ⟨s, e, s', hdepth, he, ⟨way, hway, hlength.trans hheight⟩, fun way hway => ?_⟩
  have hle := wayDown_length_le_of_expr he hway
  rw [hdepth] at hle
  exact hle

end Parse

end ClassScript
